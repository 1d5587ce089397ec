import Mathlib
import ScopedScript.Proofs.Evaluation.Composition
import ScopedScript.Proofs.Sessions.Histories

/-! # Frames follow the text

The scope analysis and the evaluation each keep track of scopes, one with layers and the other with
frames.  They never lose step: whenever an evaluation comes to a node, the frames from the current
one outwards were made for just the regions that surround the node in its program
(`Session.frames_follow_regions`).  A recorded distance therefore leads to the frame of the region in
which the analysis found the name, and a node without one goes to the globals.

That frame need not have the variable yet.  It does if the declaration is settled at the node, that
is, if it has been executed whenever the node is reached (`Session.settled_variable_bound`); a
variable that is used in its own initialiser, or whose declaration is a branch or the body of a
loop, may be missing (`Session.assigned_in_initializer`). -/

namespace ScopedScript

/-- The region of the frame `distance` steps outwards from the current one. -/
def Machine.regionAt? (m : Machine) (distance : Nat) : Option Region :=
  (Machine.outward? m.frames distance m.frame).bind fun g => m.frames[g]?.map Frame.region

/-- The machine is where the place is in the text. -/
structure Machine.StandsAt (m : Machine) (p : Place) : Prop where
  /-- Outwards one meets the regions around the place, and nothing after them. -/
  regions : ∀ distance, m.regionAt? distance = p.surroundings.regions[distance]?
  outermost : Machine.outward? m.frames (p.surroundings.length - 1) m.frame =
    some Machine.globalFrame
  /-- A recorded distance is that of the innermost region with an earlier declaration of the name,
  and it leads to the frame of that region. -/
  recorded : ∀ {id : NodeId} {t : Token} {d : Nat}, p.node.reference? = some (id, t) →
    m.distances[id]? = some d → p.surroundings.distance? t.lexeme = some d ∧
      ∃ g frame s, m.home? id = some g ∧ m.frames[g]? = some frame ∧
        p.surroundings[d]? = some s ∧ frame.region = s.region
  /-- Without a recorded distance no region declares the name, and the variable is global. -/
  unrecorded : ∀ {id : NodeId} {t : Token}, p.node.reference? = some (id, t) →
    m.distances[id]? = none → p.surroundings.distance? t.lexeme = none ∧
      m.home? id = some Machine.globalFrame

theorem Surroundings.getElem?_of_distance? {ctx : Surroundings} {name : String} {d : Nat}
    (h : ctx.distance? name = some d) : ∃ s, ctx[d]? = some s ∧ s.declares name = true := by
  obtain ⟨hlt, hdecl, _⟩ := List.findIdx?_eq_some_iff_getElem.1 h
  exact ⟨ctx[d], List.getElem?_eq_getElem hlt, hdecl⟩

/-- An aligned machine is where the place is. -/
theorem Machine.standsAt_of_aligned {m : Machine} {ctx : Surroundings} {n : Node}
    (h : Aligned m.frames m.frame ctx)
    (hd : ∀ id t, n.reference? = some (id, t) → m.distances[id]? = ctx.distance? t.lexeme) :
    m.StandsAt ⟨ctx, n⟩ where
  regions distance := by
    unfold Machine.regionAt? Surroundings.regions
    rw [List.getElem?_map]
    cases hs : ctx[distance]? with
    | none =>
      rw [h.outward?_none (List.getElem?_eq_none_iff.1 hs)]
      rfl
    | some s =>
      obtain ⟨g, frame, hg, hframe, hregion, _⟩ := h.outward? hs
      simp [hg, hframe, hregion]
  outermost := h.outward?_last
  recorded {id t d} hr hid := by
    have hdist : ctx.distance? t.lexeme = some d := (hd id t hr).symm.trans hid
    obtain ⟨s, hs, _⟩ := Surroundings.getElem?_of_distance? hdist
    obtain ⟨g, frame, hg, hframe, hregion, _⟩ := h.outward? hs
    refine ⟨hdist, g, frame, s, ?_, hframe, hs, hregion⟩
    rw [Machine.home?, hid]
    exact hg
  unrecorded {id t} hr hid := by
    refine ⟨(hd id t hr).symm.trans hid, ?_⟩
    rw [Machine.home?, hid]

/-! ### Variables that are there, and others -/

namespace Eval

variable {m : Machine} {id : NodeId} {g : FrameId} {t : Token}

theorem readVariable_bound (hg : m.home? id = some g) (hv : (m.vars g).has t.lexeme = true) :
    ∃ v, readVariable id t m = .ok v m := by
  obtain ⟨v, hv⟩ := Option.isSome_iff_exists.1 hv
  have hlookup : m.lookup? id t.lexeme = some v := by
    rw [Machine.lookup?, hg]
    exact hv
  exact ⟨v, readVariable_of_lookup? hlookup⟩

end Eval

/-! ### What is visited -/

namespace Session

open Evaluation

/-- A node that an evaluation comes to stands at a place of a program of the session, and the
current frame is aligned with what surrounds it. -/
theorem Sound.visited {programs : List Program} {s : Session} (h : s.Sound programs) {fuel : Nat}
    {program : Program}
    (hp : stmtsAlike (Likeness.ofPrograms programs s.machine.distances).toTreeLikeness true .top
      program program) {c : Config} {n : Node}
    (hv : Visits fuel (fun self => runProgram self program .undefined) s.machine c)
    (hn : c.task.node? = some n) :
    ∃ p ∈ programs, ∃ ctx, ⟨ctx, n⟩ ∈ Program.places p ∧
      Aligned c.machine.frames c.machine.frame ctx ∧
      ∀ id t, n.reference? = some (id, t) → c.machine.distances[id]? = ctx.distance? t.lexeme := by
  have hgood := h.good hp hv
  obtain ⟨ctx, n', ⟨⟨p, hp, hplace⟩, _, _, hrefs⟩, haligned⟩ := hgood.placed hn
  obtain ⟨t', post, m', hm, -⟩ := hgood
  refine ⟨p, hp, ctx, hplace, haligned, fun id t hr => ?_⟩
  rw [hm.left]
  exact (hrefs id t hr).2

section

variable (prelude : Bool) (input : List UInt8) (limit : Option Nat) (clock : Clock)

/-- Whatever a session has done before, and however an evaluation comes to a node, the machine then
is where the node is in the text of its program. -/
theorem frames_follow_regions (history : List Action) {name source : String} {program : Program}
    {s : Session}
    (hload : ((start prelude input limit clock).after history).load name source = (.ok program, s))
    {fuel : Nat} {c : Config} {n : Node}
    (hv : Visits fuel (fun self => runProgram self program .undefined) s.machine c)
    (hn : c.task.node? = some n) :
    ∃ p ∈ (start prelude input limit clock).programs history ++ [program], ∃ ctx,
      ⟨ctx, n⟩ ∈ Program.places p ∧ c.machine.StandsAt ⟨ctx, n⟩ := by
  have hsound := sound_after prelude input limit clock history
  have hloaded := hsound.load name source
  rw [hload] at hloaded
  obtain ⟨p, hp, ctx, hplace, haligned, hrefs⟩ :=
    hloaded.visited (hsound.accepted_alike hload) hv hn
  exact ⟨p, hp, ctx, hplace, Machine.standsAt_of_aligned haligned hrefs⟩

/-- A variable that is found through a recorded distance is there, to be read or written, from the
time on that an evaluation comes to the node, if its declaration is settled at the node. -/
theorem settled_variable_bound (history : List Action) {name source : String} {program : Program}
    {s : Session}
    (hload : ((start prelude input limit clock).after history).load name source = (.ok program, s))
    {fuel : Nat} {c : Config} {n : Node}
    (hv : Visits fuel (fun self => runProgram self program .undefined) s.machine c)
    (hn : c.task.node? = some n) {id : NodeId} {t : Token} {d : Nat}
    (hr : n.reference? = some (id, t)) (hd : c.machine.distances[id]? = some d) :
    ∃ p ∈ (start prelude input limit clock).programs history ++ [program], ∃ ctx region,
      ⟨ctx, n⟩ ∈ Program.places p ∧ ctx[d]? = some region ∧ region.declares t.lexeme = true ∧
      ((t.lexeme, .settled) ∈ region.names → ∀ m : Machine, Grows c.machine.frames m.frames →
        m.frame = c.machine.frame → m.distances = c.machine.distances →
        (∃ v, Eval.readVariable id t m = .ok v m) ∧
          ∀ v, ∃ m', Eval.writeVariable id t v m = .ok () m') := by
  have hsound := sound_after prelude input limit clock history
  have hloaded := hsound.load name source
  rw [hload] at hloaded
  obtain ⟨p, hp, ctx, hplace, haligned, hrefs⟩ :=
    hloaded.visited (hsound.accepted_alike hload) hv hn
  have hdist : ctx.distance? t.lexeme = some d := (hrefs id t hr).symm.trans hd
  obtain ⟨region, hregion, hdeclares⟩ := Surroundings.getElem?_of_distance? hdist
  refine ⟨p, hp, ctx, region, hplace, hregion, hdeclares, fun hsettled m hg hf hD => ?_⟩
  obtain ⟨g, frame, hout, hframe, _, hvars⟩ := (haligned.grow hg).outward? hregion
  have hhome : m.home? id = some g := by
    rw [Machine.home?, hD, hd, hf]
    exact hout
  have hhas : (m.vars g).has t.lexeme = true := by
    rw [Machine.vars, hframe]
    exact hvars _ hsettled
  exact ⟨Eval.readVariable_bound hhome hhas, fun v => ⟨_, Eval.writeVariable_bound v hhome hhas⟩⟩

end

/-! ### A block that declares a variable and reads it -/

/-- The node that reads the variable in `declareAndRead`. -/
def readX : Expr := .name 0 (.make .name "x" 1 11 6 none)

/-- The statements of a block that declares a variable and reads it. -/
def declareAndRead : List Stmt :=
  [.variable (.make .name "x" 1 6 2 none) .let_ none
      (some (.expression (.literal .emptyObject .emptyObject) (.make .assign "=" 1 7 3 none))),
    .expression readX (.make .name "x" 1 11 6 none)]

set_option maxRecDepth 100000 in
theorem declareAndRead_spelled : ∃ tokens, tokenizeFrom 1 "\x7blet x=\x7b\x7d;x\x7d" = .ok tokens ∧
    parseFrom 0 tokens = .ok ([.block declareAndRead], 1) :=
  ⟨_, by cbv, by cbv⟩

theorem declareAndRead_loaded : ∃ s, ((start false [] none (.still 0)).after []).load "main"
      "\x7blet x=\x7b\x7d;x\x7d" = (.ok [.block declareAndRead], s) ∧
    s.machine =
      { (start false [] none (.still 0)).machine with
        distances := ({} : Distances).insert 0 0 } := by
  obtain ⟨tokens, htokens, hparse⟩ := declareAndRead_spelled
  exact load_of_ready rfl "main" htokens hparse rfl

/-- The evaluation comes to the reading node. -/
theorem declareAndRead_visited (distances : Distances) : ∃ m : Machine,
    m.distances = distances ∧
    Visits 4 (fun self => runProgram self [.block declareAndRead] .undefined)
      { (start false [] none (.still 0)).machine with distances := distances } ⟨.expr readX, m⟩ := by
  generalize hm : { (start false [] none (.still 0)).machine with distances := distances } = m
  obtain ⟨m₁, hm₁, hd⟩ : ∃ m₁ : Machine, Evaluation.run 3 (.stmt declareAndRead[0])
      { m.pushFrame (.block declareAndRead) m.frame [] with frame := m.frames.size } =
        .ok .proceed m₁ ∧ m₁.distances = distances := by
    subst hm
    exact ⟨_, rfl, rfl⟩
  have hread : Calls (fun self => execAll self declareAndRead) (Evaluation.run 3)
      { m.pushFrame (.block declareAndRead) m.frame [] with frame := m.frames.size }
      ⟨.stmt declareAndRead[1], m₁⟩ :=
    .tail hm₁ (by simp [Task.node?, declareAndRead]) .head
  have hblock : ∀ e t, Stmt.block declareAndRead ≠ .expression e t := fun e t h => by cases h
  exact ⟨m₁, hd, .inside (.program hblock _) (.inside (.block hread) (.call .expression))⟩

/-- In that block the reading node is visited in frames that follow the text. -/
theorem frames_follow_block : ∃ s c,
    ((start false [] none (.still 0)).after []).load "main" "\x7blet x=\x7b\x7d;x\x7d" =
      (.ok [.block declareAndRead], s) ∧
    Visits 4 (fun self => runProgram self [.block declareAndRead] .undefined) s.machine c ∧
    c.task.node? = some (.expr readX) ∧
    ∃ p ∈ (start false [] none (.still 0)).programs [] ++ [[.block declareAndRead]], ∃ ctx,
      ⟨ctx, .expr readX⟩ ∈ Program.places p ∧ c.machine.StandsAt ⟨ctx, .expr readX⟩ := by
  obtain ⟨s, hload, hmachine⟩ := declareAndRead_loaded
  obtain ⟨m, _, hv⟩ := declareAndRead_visited (({} : Distances).insert 0 0)
  rw [← hmachine] at hv
  exact ⟨s, _, hload, hv, rfl, frames_follow_regions false [] none (.still 0) [] hload hv rfl⟩

/-- In that block the variable is settled at the reading node, and there. -/
theorem settled_variable_in_block : ∃ s c,
    ((start false [] none (.still 0)).after []).load "main" "\x7blet x=\x7b\x7d;x\x7d" =
      (.ok [.block declareAndRead], s) ∧
    Visits 4 (fun self => runProgram self [.block declareAndRead] .undefined) s.machine c ∧
    c.task.node? = some (.expr readX) ∧ c.machine.distances[0]? = some 0 ∧
    ∃ p ∈ (start false [] none (.still 0)).programs [] ++ [[.block declareAndRead]], ∃ ctx region,
      ⟨ctx, .expr readX⟩ ∈ Program.places p ∧ ctx[0]? = some region ∧
      region.declares "x" = true ∧
      (("x", .settled) ∈ region.names → ∀ m : Machine, Grows c.machine.frames m.frames →
        m.frame = c.machine.frame → m.distances = c.machine.distances →
        (∃ v, Eval.readVariable 0 (.make .name "x" 1 11 6 none) m = .ok v m) ∧
          ∀ v, ∃ m', Eval.writeVariable 0 (.make .name "x" 1 11 6 none) v m = .ok () m') := by
  obtain ⟨s, hload, hmachine⟩ := declareAndRead_loaded
  obtain ⟨m, hd, hv⟩ := declareAndRead_visited (({} : Distances).insert 0 0)
  rw [← hmachine] at hv
  have hzero : m.distances[0]? = some 0 := by simp [hd]
  exact ⟨s, _, hload, hv, rfl, hzero,
    settled_variable_bound false [] none (.still 0) [] hload hv rfl rfl hzero⟩

/-! ### A variable that is given a value in its own initialiser -/

/-- The assignment in `selfInitialized`. -/
def selfAssignment : Expr :=
  .assign 1 (.make .name "x" 1 9 5 none) (.literal .emptyObject .emptyObject)

/-- The statements of a block that declares a variable, with an assignment to it as initialiser. -/
def selfInitialized : List Stmt :=
  [.variable (.make .name "x" 1 6 2 none) .let_ none
    (some (.expression (.grouping selfAssignment) (.make .assign "=" 1 7 3 none)))]

set_option maxRecDepth 100000 in
theorem selfInitialized_spelled : ∃ tokens,
    tokenizeFrom 1 "\x7blet x=(x=\x7b\x7d)\x7d" = .ok tokens ∧
    parseFrom 0 tokens = .ok ([.block selfInitialized], 2) :=
  ⟨_, by cbv, by cbv⟩

/-- The frame at the recorded distance does not have the variable when the assignment needs it. -/
theorem selfInitialized_fails {distances : Distances} (hd : distances[(1 : Nat)]? = some 0) :
    ∃ m, Evaluation.runProgram (Evaluation.run 6) [.block selfInitialized] .undefined
      { (start false [] none (.still 0)).machine with distances := distances } =
      .error (.raised ⟨.undefinedVariable "x", .make .name "x" 1 9 5 none⟩) m := by
  let m₁ : Machine := { (start false [] none (.still 0)).machine with
    distances := distances
    frames := (start false [] none (.still 0)).machine.frames.push ⟨.block selfInitialized, some 0, []⟩
    frame := 1 }
  obtain ⟨m₂, hobject, hhome, hvars⟩ : ∃ m₂, Evaluation.run 2
      (.expr (.literal .emptyObject .emptyObject)) m₁ = .ok (.object 0) m₂ ∧
      m₂.home? 1 = some 1 ∧ (m₂.vars 1).has "x" = false := by
    refine ⟨_, rfl, ?_, rfl⟩
    rw [Machine.home?]
    simp only [m₁, hd]
    rfl
  have hassign : Evaluation.run 3 (.expr selfAssignment) m₁ =
      .error (.raised ⟨.undefinedVariable "x", .make .name "x" 1 9 5 none⟩) m₂ :=
    (Eval.bind_ok hobject).trans (Eval.bind_error (Eval.writeVariable_unbound _ hhome hvars))
  have hinit : Evaluation.run 5 (.stmt selfInitialized[0]) m₁ =
      .error (.raised ⟨.undefinedVariable "x", .make .name "x" 1 9 5 none⟩) m₂ :=
    Eval.bind_error hassign
  have hblock : Evaluation.run 6 (.stmt (.block selfInitialized))
      { (start false [] none (.still 0)).machine with distances := distances } =
      .error (.raised ⟨.undefinedVariable "x", .make .name "x" 1 9 5 none⟩) { m₂ with frame := 0 } :=
    Eval.inFrame_error (Eval.bind_error hinit)
  exact ⟨{ m₂ with frame := 0 }, Eval.bind_error hblock⟩

/-- The analysis accepts an assignment to a variable in its own initialiser and records a distance
for it, at which the variable is then missing. -/
theorem assigned_in_initializer : ∃ s,
    (start false [] none (.still 0)).load "main" "\x7blet x=(x=\x7b\x7d)\x7d" =
      (.ok [.block selfInitialized], s) ∧
    s.machine.distances[1]? = some 0 ∧
    (s.execute 6 [.block selfInitialized]).1 =
      .failed (.runtime ⟨.undefinedVariable "x", .make .name "x" 1 9 5 none⟩) := by
  obtain ⟨tokens, htokens, hparse⟩ := selfInitialized_spelled
  obtain ⟨s, hload, hmachine⟩ :=
    load_of_ready (s := start false [] none (.still 0)) rfl "main" htokens
    hparse rfl
  have hone : s.machine.distances[1]? = some 0 := by
    rw [hmachine]
    exact Std.HashMap.getElem?_insert_self
  refine ⟨s, hload, hone, ?_⟩
  rw [hmachine] at hone
  obtain ⟨m, hm⟩ := selfInitialized_fails hone
  unfold Session.execute
  rw [hmachine, hm]

end Session

end ScopedScript
