import Mathlib
import ScopedScript.Proofs.Evaluation.Stages
import ScopedScript.Proofs.Sessions.Histories

/-! # What `this` is

Every evaluation of `this` yields an instance, and the right one (`Session.this_yields_receiver`).

The instance is told from the frames that there are at the end of a history, in which every frame
serves one instance at most (`Serves.unique`).  A visited configuration stands for the instance that
its current frame serves.  Which one this is comes with the tasks, as they are handed on
(`Task.Receiver`):

* what the call of a method hands on stands for the instance that the method is bound to;
* what the call of a class hands on, its fields and its constructor, stands for the new instance;
* what the call of a function hands on stands for the instance for which the function was made,
  however long ago that was;
* any other task hands on what it stands for itself.

A function is made for the instance that the frame at its declaration serves, and a method read off
an instance is bound to it (`Value.Receiver`). -/

namespace ScopedScript

namespace Evaluation

open Eval

/-! ### Handing on -/

/-- The evaluation comes to the first configuration, and carrying that out calls the second one. -/
inductive Hands : Nat → {α : Type} → (Interpreter → Eval α) → Machine → Config → Config → Prop
  | call {fuel : Nat} {α : Type} {x : Interpreter → Eval α} {m : Machine} {c c' : Config} :
      Calls x (run (fuel + 1)) m c → Calls (fun self => step self c.task) (run fuel) c.machine c' →
      Hands (fuel + 1) x m c c'
  | inside {fuel : Nat} {α : Type} {x : Interpreter → Eval α} {m : Machine} {c c' c'' : Config} :
      Calls x (run (fuel + 1)) m c → Hands fuel (fun self => step self c.task) c.machine c' c'' →
      Hands (fuel + 1) x m c' c''

namespace Hands

variable {fuel : Nat} {α : Type} {x : Interpreter → Eval α} {m : Machine} {c c' : Config}

/-- Both of the configurations are visited. -/
theorem visits (h : Hands fuel x m c c') : Visits fuel x m c ∧ Visits fuel x m c' := by
  induction h with
  | call hc hc' => exact ⟨.call hc, .inside hc (.call hc')⟩
  | inside hc _ ih => exact ⟨.inside hc ih.1, .inside hc ih.2⟩

theorem calls (h : Hands fuel x m c c') :
    ∃ fuel, Calls (fun self => step self c.task) (run fuel) c.machine c' := by
  induction h with
  | call _ hc' => exact ⟨_, hc'⟩
  | inside _ _ ih => exact ih

end Hands

end Evaluation

/-- The instance for which the body of a method or function is carried out, by the frames. -/
def Value.Receiver (fr : Array Frame) : Value → Instance → Prop
  | .method b, i => i = b.receiver
  | .function k, i => Serves fr k.frame i
  | _, _ => False

namespace Evaluation

open Eval

/-- The value that a task calls, if the task is to do just that. -/
def Task.callee? : {α : Type} → Task α → Option Value
  | _, .call callee _ _ => some callee
  | _, _ => none

/-- The instance for which a task is carried out, or for which what it hands on is. -/
def Task.Receiver (fr : Array Frame) (m : Machine) : {α : Type} → Task α → Instance → Prop
  | _, .call (.cls k) _ _, i => i = ⟨k, m.heap.records.size⟩
  | _, .call (.method b) _ _, i => (Value.method b).Receiver fr i
  | _, .call (.function k) _ _, i => (Value.function k).Receiver fr i
  | _, _, i => Serves fr m.frame i

section

variable {fr : Array Frame} {fuel : Nat} {m : Machine} {c : Config} {i : Instance}

/-- What a call hands on. -/
theorem serves_of_calls_call {callee : Value} {site : Token} {args : List Value}
    (hbound : ∀ b, callee = .method b → HeldAt m.frames b.frame b.receiver)
    (hf : Forward True (run fuel) (fun self => step self (.call callee site args)) m)
    (hc : Calls (fun self => step self (.call callee site args)) (run fuel) m c)
    (hto : Later True c.machine.frames fr)
    (hi : (Task.call callee site args).Receiver fr m i) : Serves fr c.machine.frame i := by
  obtain ⟨ha, hdepth, hc⟩ := calls_callValue hc
  have hin : Forward True (run fuel) (fun self => invoke self callee site args)
      { m with depth := m.depth + 1 } := fun c hc => hf c (hc.callValue ha hdepth)
  have hplain : Composed (fun _ => True) False False (fun _ => True)
      (fun self => invoke self callee site args) →
      Serves fr m.frame i → Serves fr c.machine.frame i := by
    intro hcomposed hi
    obtain ⟨-, hframe⟩ := hcomposed.where_called (run_stays fuel) hc
    rwa [hframe id]
  cases callee with
  | method b =>
    obtain rfl : i = b.receiver := hi
    have hheld : HeldAt { m with depth := m.depth + 1 }.frames b.frame b.receiver := hbound b rfl
    exact (serves_of_calls_runMethod hheld hin hc).grow hto
  | function k => exact ((calls_runBody hc).grow hto.frames).serves hi
  | cls k =>
    obtain rfl : i = ⟨k, m.heap.records.size⟩ := hi
    exact (calls_instantiate hin hc).grow hto
  | native n => exact hplain (invokeNative_composed (fun _ _ _ => trivial) n site args) hi
  | _ => exact absurd hc (Calls.not_of_const _ fun _ => rfl)

/-- What a task hands on. -/
theorem serves_of_calls {α : Type} {t : Task α}
    (hbound : ∀ b, t.callee? = some (.method b) → HeldAt m.frames b.frame b.receiver)
    (hf : Forward True (run fuel) (fun self => step self t) m)
    (hc : Calls (fun self => step self t) (run fuel) m c) (hto : Later True c.machine.frames fr)
    (hi : t.Receiver fr m i) : Serves fr c.machine.frame i := by
  have hplain : t.isCall = false → (∀ ss, t.node? ≠ some (.stmt (.block ss))) →
      Serves fr m.frame i → Serves fr c.machine.frame i := by
    intro hcall hblock hi
    have hcomposed : Composed (fun _ => True) False False (fun _ => True) fun self => step self t :=
      step_composed_of t hcall (fun ss hss => absurd hss (hblock ss)) False.elim
        fun _ _ _ _ => trivial
    obtain ⟨-, hframe⟩ := hcomposed.where_called (run_stays fuel) hc
    rwa [hframe id]
  cases t with
  | call callee site args =>
    exact serves_of_calls_call (fun b hb => hbound b (congrArg some hb)) hf hc hto hi
  | stmt s =>
    cases s with
    | block ss => exact ((calls_block hc).grow hto.frames).serves hi
    | _ => exact hplain rfl (by simp [Task.node?]) hi
  | _ => exact hplain rfl (by simp [Task.node?]) hi

end

/-! ### Reading `this` -/

/-- Evaluating `this` where it is in order: the instance that the current frame serves, and that is
one of the innermost class around. -/
theorem Good.this {programs : List Program} {D : Distances} {id : NodeId} {keyword : Token}
    {m : Machine} (h : Good (.ofPrograms programs D) ⟨.expr (.this id keyword), m⟩) :
    ∃ p ∈ programs, ∃ ctx i, ⟨ctx, .expr (.this id keyword)⟩ ∈ Program.places p ∧
      ctx.class? = some i.cls.declaration ∧ Serves m.frames m.frame i ∧
      ∀ self : Interpreter, step self (.expr (.this id keyword)) m = .ok (.instance i) m := by
  obtain ⟨ctx, n', ⟨⟨p, hp, hplace⟩, hlawful, ⟨hthis, hminds⟩, hrefs⟩, haligned⟩ := h.placed rfl
  obtain ⟨t', post, m', hm, -⟩ := h
  have hkeyword : keyword.lexeme = "this" := hminds.this id keyword rfl
  obtain ⟨d, g, i, hdist, hout, ⟨frame, hframe, hholds⟩, hclass, hserves⟩ :=
    haligned.serves (hm.proper trivial) hthis (hlawful.this _ _ rfl)
  refine ⟨p, hp, ctx, i, hplace, hclass, hserves, fun self => readVariable_of_lookup? ?_⟩
  have hrecorded : m.distances[id]? = some d := by
    rw [hm.left]
    exact (hrefs id keyword rfl).2.trans (hkeyword ▸ hdist)
  have hhome : m.home? id = some g := by
    rw [Machine.home?, hrecorded]
    exact hout
  rw [Machine.lookup?, hhome, hkeyword]
  simp only [Machine.vars, hframe]
  exact hholds.this

/-- A method that is called is bound to its instance, in a frame that holds it. -/
theorem Good.bound {R : Likeness} {c : Config} (h : Good R c) (hw : R.watched) (b : Method)
    (hb : c.task.callee? = some (.method b)) : HeldAt c.machine.frames b.frame b.receiver := by
  obtain ⟨t', post, m', -, ht⟩ := h
  obtain ⟨task, machine⟩ := c
  cases ht with
  | call hv _ _ =>
    obtain rfl := Option.some.inj hb
    cases hv with
    | method hb => exact hb.bound hw
  | expr _ _ | property _ _ | stmt _ _ | loop _ _ _ _ => cases hb

/-! ### Making functions and methods -/

section

variable {fr : Array Frame} {m m' : Machine} {v : Value} {i : Instance} (self : Interpreter)

/-- A function without a name is made for the instance that the current frame serves. -/
theorem receiver_of_function {token : Token} {d : FunctionDecl}
    (h : step self (.expr (.function token d)) m = .ok v m') (hi : Serves fr m.frame i) :
    v.Receiver fr i := by
  obtain ⟨rfl, -⟩ := EStateM.Result.ok.inj h
  exact hi

/-- So is one that is declared. -/
theorem receiver_of_functionDecl {d : FunctionDecl} {signal : Signal}
    (h : step self (.stmt (.functionDecl d)) m = .ok signal m') (hi : Serves fr m.frame i) :
    ∃ v, v.Receiver fr i ∧ m' =
      { m with nextIdentity := m.nextIdentity + 1 }.setVariable m.frame d.name.lexeme v := by
  refine ⟨.function ⟨m.nextIdentity, d, m.frame, false⟩, hi, ?_⟩
  change execFunction d m = .ok signal m' at h
  unfold execFunction at h
  rw [bind_ok (x := newIdentity) rfl, bind_ok (x := inspect _) rfl] at h
  cases hdecl : declareVariable d.name (.function ⟨m.nextIdentity, d, m.frame, false⟩)
      { m with nextIdentity := m.nextIdentity + 1 } with
  | ok u m₁ =>
    rw [bind_ok hdecl] at h
    obtain ⟨-, rfl⟩ := EStateM.Result.ok.inj h
    exact declareVariable_ok hdecl
  | error e m₁ =>
    rw [bind_error hdecl] at h
    cases h

/-- A method read off an instance is bound to it, if the instance has no field of that name. -/
theorem receiver_of_property {name : Token}
    (hfield : (m.heap.record i.fields).get? name.lexeme = none)
    (h : step self (.property (.instance i) name) m = .ok v m') : v.Receiver fr i := by
  change instanceProperty i name m = .ok v m' at h
  have hinspect : inspect (fun m => (m.heap.record i.fields).get? name.lexeme) m = .ok none m :=
    congrArg (EStateM.Result.ok · m) hfield
  rw [instanceProperty, bind_ok hinspect] at h
  dsimp only at h
  cases hmethod : i.cls.declaration.method? name.lexeme with
  | some declaration =>
    rw [hmethod] at h
    obtain ⟨b, m₁, hb, -, hreceiver, -⟩ := heldAt_bindMethod i declaration m
    dsimp only at h
    rw [bind_ok hb] at h
    obtain ⟨rfl, -⟩ := EStateM.Result.ok.inj h
    exact hreceiver.symm
  | none =>
    rw [hmethod] at h
    cases h

end

end Evaluation

/-! ### Histories -/

namespace Session

open Evaluation Eval

/-- In the course of the history the program is run, on the machine and with the bound. -/
def Runs (s : Session) (history : List Action) (fuel : Nat) (program : Program) (m : Machine) :
    Prop :=
  ∃ before name source more s₁, history = before ++ .run fuel name source :: more ∧
    (s.after before).load name source = (.ok program, s₁) ∧ s₁.machine = m

/-- A history with a run that gets as far as to run its program. -/
theorem after_run (s : Session) {before : List Action} {fuel : Nat} {name source : String}
    (more : List Action) {program : Program} {s₁ : Session}
    (hload : (s.after before).load name source = (.ok program, s₁)) :
    s.after (before ++ .run fuel name source :: more) = (s₁.execute fuel program).2.after more ∧
      s.programs (before ++ .run fuel name source :: more) =
        s.programs before ++ [program] ++ (s₁.execute fuel program).2.programs more := by
  have hrun : (s.after before).perform (.run fuel name source) = (s₁.execute fuel program).2 := by
    rw [perform, run, hload]
  have haccepts : (s.after before).accepts (.run fuel name source) = [program] := by
    rw [accepts, hload, loaded]
  constructor
  · rw [after_append]
    change ((s.after before).perform (.run fuel name source)).after more = _
    rw [hrun]
  · rw [programs_append, programs, haccepts, hrun, List.append_assoc]

/-- The machine that a run leaves. -/
theorem execute_machine (s : Session) (fuel : Nat) (program : Program) :
    (s.execute fuel program).2.machine =
      leaves (runProgram (Evaluation.run fuel) program .undefined s.machine) := by
  unfold execute
  generalize runProgram (Evaluation.run fuel) program .undefined s.machine = r
  cases r with
  | ok v m => rfl
  | error e m => cases e <;> rfl

namespace Sound

variable {programs : List Program} {s : Session}

/-- The frame of the globals holds no instance, so even `this` may be defined there. -/
theorem later_defineNative (h : s.Sound programs) (name : String) (arity : Nat) (f : HostFunction)
    (held : Datum) :
    Later True s.machine.frames (s.defineNative name arity f held).machine.frames := by
  obtain ⟨vars, hvars⟩ := h.machine.globals
  refine .setVariable _ _ fun _ => .inr fun frame hframe d hd => ?_
  obtain rfl := Option.some.inj (hvars.symm.trans hframe)
  cases hd

/-- What an action leaves is a later stage. -/
theorem later_perform (h : s.Sound programs) (a : Action) :
    Later True s.machine.frames (s.perform a).machine.frames := by
  cases a with
  | run fuel name source =>
    obtain ⟨D, hmachine⟩ := s.load_machine name source
    have hload : (s.load name source).2.machine.frames = s.machine.frames := by rw [hmachine]
    have hloaded := h.load name source
    rw [Session.perform, Session.run]
    cases hr : s.load name source with
    | mk r s₁ =>
      rw [hr] at hload hloaded
      rw [← hload]
      cases r with
      | error outcome => exact .refl _
      | ok program =>
        have hrun := Sims.runProgram (sims_run (.ofPrograms _ s₁.machine.distances) fuel)
          (fun _ => hloaded.aligned) Surroundings.not_inFunction_top (h.accepted_alike hr)
          .undefined hloaded.machine (.refl _) rfl
        exact execute_machine s₁ fuel program ▸ hrun.later
  | native name arity f held => exact h.later_defineNative name arity f held
  | takeOutput => exact .refl _

/-- So is what a history leaves. -/
theorem later_after (h : s.Sound programs) (history : List Action) :
    Later True s.machine.frames (s.after history).machine.frames := by
  induction history generalizing s programs with
  | nil => exact .refl _
  | cons a history ih => exact (h.later_perform a).trans (ih (h.perform a))

/-- What is visited stands before what the run leaves. -/
theorem later_visited (h : s.Sound programs) {fuel : Nat} {program : Program}
    (hp : stmtsAlike (Likeness.ofPrograms programs s.machine.distances).toTreeLikeness true .top
      program program) {c : Config}
    (hv : Visits fuel (fun self => runProgram self program .undefined) s.machine c) :
    Later True c.machine.frames (s.execute fuel program).2.machine.frames := by
  have hcomposed : Composed (fun _ => True) True True (fun _ => True) fun self =>
      runProgram self program .undefined :=
    runProgram_composed_of (fun _ => trivial) (fun _ => trivial) program .undefined
  obtain ⟨-, hend⟩ := later_of_visits hv (fun self => runProgram self program .undefined) h.machine
    (fun hself => hself.runProgram (fun _ => h.aligned) Surroundings.not_inFunction_top hp
      .undefined) fun fuel c hf hc => hcomposed.later_calls hf hc
  rwa [execute_machine]

end Sound

section

variable (prelude : Bool) (input : List UInt8) (limit : Option Nat) (clock : Clock)

/-- Throughout a history, evaluating `this` never fails, and yields the right instance: the one that
the current frame serves, which is an instance of the innermost class around.

What a frame serves is told from the frames at the end of the history, where it is at most one
instance.  Method calls, constructions, calls of functions and all other tasks hand the right
instance on to the tasks inside them; functions are made for the instance that the frame at their
declaration serves, and methods read off an instance are bound to it. -/
theorem this_yields_receiver (history : List Action) {fuel : Nat} {program : Program} {m : Machine}
    (hrun : (start prelude input limit clock).Runs history fuel program m) :
    let fr := ((start prelude input limit clock).after history).machine.frames
    (∀ id keyword m₁, Visits fuel (fun self => runProgram self program .undefined) m
        ⟨.expr (.this id keyword), m₁⟩ →
      ∃ p ∈ (start prelude input limit clock).programs history, ∃ ctx i,
        ⟨ctx, .expr (.this id keyword)⟩ ∈ Program.places p ∧
        ctx.class? = some i.cls.declaration ∧ Serves fr m₁.frame i ∧
        ∀ self : Interpreter, step self (.expr (.this id keyword)) m₁ = .ok (.instance i) m₁) ∧
    (∀ f i j, Serves fr f i → Serves fr f j → i = j) ∧
    (∀ c c', Hands fuel (fun self => runProgram self program .undefined) m c c' →
      ∀ i, c.task.Receiver fr c.machine i → Serves fr c'.machine.frame i) ∧
    (∀ (self : Interpreter) token d m₁ v m₂,
      step self (.expr (.function token d)) m₁ = .ok v m₂ →
        ∀ i, Serves fr m₁.frame i → v.Receiver fr i) ∧
    (∀ (self : Interpreter) d m₁ signal m₂,
      step self (.stmt (.functionDecl d)) m₁ = .ok signal m₂ →
        ∀ i, Serves fr m₁.frame i → ∃ v, v.Receiver fr i ∧ m₂ =
          { m₁ with nextIdentity := m₁.nextIdentity + 1 }.setVariable m₁.frame d.name.lexeme v) ∧
    ∀ (self : Interpreter) i name m₁ v m₂, (m₁.heap.record i.fields).get? name.lexeme = none →
      step self (.property (.instance i) name) m₁ = .ok v m₂ → v.Receiver fr i := by
  obtain ⟨before, name, source, more, s, rfl, hload, rfl⟩ := hrun
  have hsound := sound_after prelude input limit clock before
  have hloaded := hsound.load name source
  rw [hload] at hloaded
  have hp := hsound.accepted_alike hload
  obtain ⟨hafter, hprograms⟩ := after_run (start prelude input limit clock) more hload
  rw [hafter, hprograms]
  have hend : ∀ c, Visits fuel (fun self => runProgram self program .undefined) s.machine c →
      Later True c.machine.frames ((s.execute fuel program).2.after more).machine.frames :=
    fun c hc => (hloaded.later_visited hp hc).trans ((hloaded.execute fuel hp).later_after more)
  refine ⟨fun id keyword m₁ hv => ?_, fun f i j hi hj => hi.unique hj, fun c c' hh i hi => ?_,
    fun self _ _ _ _ _ h i hi => receiver_of_function self h hi,
    fun self _ _ _ _ h i hi => receiver_of_functionDecl self h hi,
    fun self i _ _ _ _ hfield h => receiver_of_property self hfield h⟩
  · obtain ⟨p, hp', ctx, i, hplace, hclass, hserves, hstep⟩ := (hloaded.good hp hv).this
    exact ⟨p, List.mem_append_left _ hp', ctx, i, hplace, hclass, hserves.grow (hend _ hv), hstep⟩
  · obtain ⟨hv, hv'⟩ := hh.visits
    obtain ⟨n, hc⟩ := hh.calls
    have hgood := hloaded.good hp hv
    exact serves_of_calls (hgood.bound trivial) (hgood.forward n) hc (hend c' hv') hi

end

/-! ### An instance in its own field -/

/-- The node in the field of `selfReferring`. -/
def fieldThis : Expr := .this 0 (.make .kwThis "this" 1 11 5 none)

/-- A class whose instances have themselves in a field. -/
def selfReferring : ClassDecl :=
  .mk (.make .name "A" 1 7 1 none) [] [.mk (.make .name "x" 1 9 3 none) none fieldThis]

/-- The expression that makes an instance of the class. -/
def newSelfReferring : Expr :=
  .call (.name 1 (.make .name "A" 2 1 8 none)) (.make .rightParen ")" 2 3 10 none) []

/-- A program that declares the class and makes an instance. -/
def makeSelfReferring : Program :=
  [.classDecl selfReferring, .expression newSelfReferring (.make .name "A" 2 1 8 none)]

set_option maxRecDepth 100000 in
theorem makeSelfReferring_spelled : ∃ tokens,
    tokenizeFrom 1 "class A\x7bx=this\x7d\nA()" = .ok tokens ∧
    parseFrom 0 tokens = .ok (makeSelfReferring, 2) :=
  ⟨_, by cbv, by cbv⟩

theorem makeSelfReferring_loaded : ∃ s,
    (start false [] none (.still 0)).load "main" "class A\x7bx=this\x7d\nA()" =
      (.ok makeSelfReferring, s) ∧
    s.machine = { (start false [] none (.still 0)).machine with
      distances := (({} : Distances).insert 0 0).insert 1 0 } := by
  obtain ⟨tokens, htokens, hparse⟩ := makeSelfReferring_spelled
  exact load_of_ready rfl "main" htokens hparse rfl

/-- The class as a value of that program. -/
def selfReferringClass : Class := ⟨6, selfReferring, Machine.globalFrame⟩

/-- Making the instance hands on the node, to initialise the field. -/
theorem makeSelfReferring_hands (distances : Distances) (hd : distances[(1 : Nat)]? = some 0) :
    ∃ m₁ m₂ paren, m₁.heap.records.size = 0 ∧
      Hands 3 (fun self => runProgram self makeSelfReferring .undefined)
        { (start false [] none (.still 0)).machine with distances := distances }
        ⟨.call (.cls selfReferringClass) paren [], m₁⟩ ⟨.expr fieldThis, m₂⟩ := by
  generalize hm : { (start false [] none (.still 0)).machine with distances := distances } = m
  obtain ⟨m₁, hdecl, hdepth, hrecords, hclass⟩ : ∃ m₁ : Machine,
      Evaluation.run 3 (.stmt (.classDecl selfReferring)) m = .ok .proceed m₁ ∧ m₁.depth = 0 ∧
      m₁.heap.records.size = 0 ∧
      Evaluation.run 2 (.expr (.name 1 (.make .name "A" 2 1 8 none))) m₁ =
        .ok (.cls selfReferringClass) m₁ := by
    subst hm
    refine ⟨_, rfl, rfl, rfl, readVariable_of_lookup? ?_⟩
    rw [Machine.lookup?, Machine.home?]
    simp only [Machine.setVariable, hd]
    rfl
  let paren : Token := .make .rightParen ")" 2 3 10 none
  have hprogram : Calls (fun self => runProgram self makeSelfReferring .undefined)
      (Evaluation.run 3) m ⟨.expr newSelfReferring, m₁⟩ := by
    have hother : (Task.stmt (.classDecl selfReferring)).node? ≠
        (Task.expr newSelfReferring).node? := by simp [Task.node?]
    exact .next (k := fun self _ => runProgram self (makeSelfReferring.drop 1) .undefined) hdecl
      hother ((Calls.task _ m₁ (.expr newSelfReferring)).bind fun self v => runProgram self [] v)
  have hcall : Calls (fun self => step self (.expr newSelfReferring)) (Evaluation.run 2) m₁
      ⟨.call (.cls selfReferringClass) paren [], m₁⟩ := by
    have hother : (Task.expr (.name 1 (.make .name "A" 2 1 8 none))).node? ≠
        (Task.call (.cls selfReferringClass) paren []).node? := by simp [Task.node?]
    exact .next (k := fun self v => self (.call v paren [])) hclass hother (.task _ m₁ _)
  obtain ⟨m₂, hfield⟩ : ∃ m₂, Calls (fun self => step self
      (.call (.cls selfReferringClass) paren [])) (Evaluation.run 1) m₁ ⟨.expr fieldThis, m₂⟩ := by
    have hlt : m₁.depth < Machine.maxDepth := by rw [hdepth]; decide
    let i : Instance := ⟨selfReferringClass, m₁.heap.records.size⟩
    let m₂ : Machine := { m₁ with
      depth := m₁.depth + 1
      heap := { m₁.heap with records := m₁.heap.records.push [] } }
    have hrecord : newRecord [] { m₁ with depth := m₁.depth + 1 } = .ok i.fields m₂ := rfl
    obtain ⟨m₃, hthis, -⟩ := heldAt_bindThis i m₂
    have hinit : Calls (fun self => initFields self m₂.frames.size i.fields selfReferring.fields)
        (Evaluation.run 1) m₃ ⟨.expr fieldThis, { m₃ with frame := m₂.frames.size }⟩ :=
      (Calls.task _ _ (.expr fieldThis)).inFrame.bind fun self v => do
        writeRecord i.fields "x" v
        initFields self m₂.frames.size i.fields []
    refine ⟨{ m₃ with frame := m₂.frames.size }, Calls.callValue rfl hlt ?_⟩
    simp only [invoke, instantiate_eq]
    refine .after hrecord ?_
    exact .after hthis (hinit.bind fun self _ => construct self i [])
  exact ⟨m₁, m₂, paren, hrecords, .inside hprogram (.call hcall hfield)⟩

/-- There the node yields the new instance. -/
theorem this_yields_receiver_in_field : ∃ m m₂,
    (start false [] none (.still 0)).Runs [.run 3 "main" "class A\x7bx=this\x7d\nA()"] 3
      makeSelfReferring m ∧
    Visits 3 (fun self => runProgram self makeSelfReferring .undefined) m ⟨.expr fieldThis, m₂⟩ ∧
    ∀ self : Interpreter, step self (.expr fieldThis) m₂ =
      .ok (.instance ⟨selfReferringClass, 0⟩) m₂ := by
  obtain ⟨s, hload, hmachine⟩ := makeSelfReferring_loaded
  have hruns : (start false [] none (.still 0)).Runs [.run 3 "main" "class A\x7bx=this\x7d\nA()"] 3
      makeSelfReferring s.machine := ⟨[], "main", _, [], s, rfl, hload, rfl⟩
  obtain ⟨m₁, m₂, paren, hrecords, hhands⟩ := makeSelfReferring_hands
    ((({} : Distances).insert 0 0).insert 1 0) (by simp)
  rw [← hmachine] at hhands
  obtain ⟨-, hv⟩ := hhands.visits
  obtain ⟨hthis, hunique, hgiven, -⟩ :=
    this_yields_receiver false [] none (.still 0) [.run 3 "main" "class A\x7bx=this\x7d\nA()"] hruns
  obtain ⟨p, hp, ctx, i, -, -, hserves, hstep⟩ := hthis _ _ _ hv
  -- the new instance is handed on, and it is the one that the node yields
  have hnew := hgiven _ _ hhands ⟨selfReferringClass, 0⟩ (by rw [← hrecords]; rfl)
  obtain rfl := hunique _ _ _ hserves hnew
  exact ⟨s.machine, m₂, hruns, hv, hstep⟩

end Session

end ScopedScript
