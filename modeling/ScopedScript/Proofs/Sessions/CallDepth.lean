import Mathlib
import ScopedScript.Proofs.Evaluation.Composition
import ScopedScript.Proofs.Sessions.Histories

/-! # Frames, calls and their depth

What an evaluation does to the two fields of the machine that say where it is.

* **Coming back.** However an evaluation ends, it leaves the current frame and the depth as they
  were (`run_stays`), so between the runs of a session the machine is at the globals and at depth
  zero (`Session.state_restored`).
* **The limit.** The depth matters only for stack overflows: with less of it an evaluation goes the
  same way, unless it overflowed (`run_transparent`).
* **Calls under way.** `Reaches` counts the calls that an evaluation is in the middle of when it
  comes to a configuration.  That number is the depth there, and never above the limit; an
  evaluation overflows exactly if it comes to a proper call when the limit is reached
  (`Session.depth_limit_transparent`). -/

namespace ScopedScript

namespace Eval

variable {α : Type} {x : Eval α}

/-- The step ended in a stack overflow. -/
def Overflows (r : EStateM.Result Stop Machine α) : Prop :=
  ∃ token m, r = .error (.raised ⟨.stackOverflow, token⟩) m

theorem not_overflows_ok (a : α) (m : Machine) :
    ¬Overflows (.ok a m : EStateM.Result Stop Machine α) := by
  rintro ⟨_, _, h⟩
  cases h

/-- Only the reason for stopping matters. -/
theorem Overflows.of_error {β : Type} {e : Stop} {m : Machine} (m' : Machine)
    (h : Overflows (.error e m : EStateM.Result Stop Machine α)) :
    Overflows (.error e m' : EStateM.Result Stop Machine β) := by
  obtain ⟨token, _, heq⟩ := h
  obtain ⟨rfl, -⟩ := EStateM.Result.error.inj heq
  exact ⟨token, m', rfl⟩

/-- At a smaller depth the step does the same, unless it overflowed. -/
def Transparent (x : Eval α) : Prop :=
  ∀ m depth, depth ≤ m.depth → ¬Overflows (x m) → x { m with depth := depth } = atDepth depth (x m)

theorem Transparent.asCall (h : x.Transparent) : (asCall x).Transparent := by
  intro m depth hle hover
  have hx := h { m with depth := m.depth + 1 } (depth + 1) (Nat.succ_le_succ hle)
  unfold Eval.asCall at hover ⊢
  cases hr : x { m with depth := m.depth + 1 } with
  | ok a m₁ =>
    simp only [hr] at hx hover ⊢
    rw [hx (not_overflows_ok a m₁)]
    rfl
  | error e m₁ =>
    simp only [hr] at hx hover ⊢
    rw [hx fun h => hover (h.of_error _)]
    rfl

end Eval

namespace Evaluation

open Eval

/-! ### The limit -/

theorem Composed.transparent {Q : {α : Type} → Task α → Prop} {moves watched : Prop}
    {risks : RuntimeFault → Prop} {α : Type} {x : Interpreter → Eval α} {self : Interpreter}
    (h : Composed Q moves watched risks x)
    (hstays : ∀ {β : Type} (t : Task β), (self t).Stays)
    (hself : ∀ {β : Type} (t : Task β), (self t).Transparent) : (x @self).Transparent := by
  induction h with
  | elementary hx => exact fun m depth _ _ => hx.blind m depth
  | task => exact hself _
  | @bind β γ x k hx _ ihx ihk =>
    intro m depth hle hover
    dsimp only at hover ⊢
    cases hr : x @self m with
    | ok a m₁ =>
      have hdepth := (hx.stays hstays m).2
      have hshallow := ihx m depth hle (hr ▸ not_overflows_ok a m₁)
      rw [hr] at hdepth hshallow
      rw [bind_ok hr] at hover ⊢
      rw [bind_ok hshallow]
      exact ihk a m₁ depth (hdepth ▸ hle) hover
    | error e m₁ =>
      rw [bind_error hr] at hover ⊢
      have hshallow := ihx m depth hle
      rw [hr] at hshallow
      replace hshallow := hshallow fun h => hover (h.of_error _)
      exact bind_error hshallow
  | @inFrame β x g _ _ ih =>
    intro m depth hle hover
    dsimp only at hover ⊢
    have hshallow := ih { m with frame := g } depth hle
    cases hr : x @self { m with frame := g } with
    | ok a m₁ =>
      rw [hr] at hshallow
      rw [inFrame_ok hr, inFrame_ok (hshallow (not_overflows_ok a m₁))]
      rfl
    | error e m₁ =>
      rw [hr] at hshallow
      rw [inFrame_error hr] at hover ⊢
      rw [inFrame_error (hshallow fun h => hover (h.of_error _))]
      rfl

/-- The depth makes no difference to a task, as long as there is no overflow. -/
theorem run_transparent (fuel : Nat) {α : Type} (t : Task α) : (run fuel t).Transparent := by
  induction fuel generalizing α with
  | zero => exact fun m depth _ _ => rfl
  | succ fuel ih =>
    cases hcall : t.isCall with
    | false => exact (step_composed t hcall).transparent (run_stays fuel) ih
    | true =>
      cases t with
      | call callee site args =>
        have hinvoke : (invoke (run fuel) callee site args).Transparent :=
          (invoke_composed callee site args).transparent (run_stays fuel) ih
        intro m depth hle hover
        change ¬Overflows (callValue (run fuel) callee site args m) at hover
        change callValue (run fuel) callee site args _ =
          atDepth depth (callValue (run fuel) callee site args m)
        obtain ⟨ha, hdepth, heq⟩ | ⟨-, -, heq⟩ | ⟨-, error, -, heq⟩ :=
          callValue_cases callee site args m
        · rw [heq] at hover ⊢
          rw [callValue_allowed ha (Nat.lt_of_le_of_lt hle hdepth)]
          exact hinvoke.asCall m depth hle hover
        · rw [heq] at hover
          exact absurd ⟨site, m, rfl⟩ hover
        · rw [heq, heq]
          rfl
      | _ => cases hcall

/-! ### Calls under way -/

/-- The evaluation comes to the configuration in the middle of so many calls, with tasks inside one
another up to a bound. -/
inductive Reaches : Nat → Nat → {α : Type} → (Interpreter → Eval α) → Machine → Config → Prop
  | call {fuel : Nat} {α : Type} {x : Interpreter → Eval α} {m : Machine} {c : Config} :
      Calls x (run fuel) m c → Reaches fuel 0 x m c
  | inside {fuel calls : Nat} {α : Type} {x : Interpreter → Eval α} {m : Machine} {c c' : Config} :
      Calls x (run (fuel + 1)) m c →
      Reaches fuel calls (fun self => step self c.task) c.machine c' →
      Reaches (fuel + 1) (c.task.isCall.toNat + calls) x m c'

/-- Whatever is visited is so in the middle of some number of calls. -/
theorem visits_iff_reaches {fuel : Nat} {α : Type} {x : Interpreter → Eval α} {m : Machine}
    {c : Config} : Visits fuel x m c ↔ ∃ calls, Reaches fuel calls x m c := by
  constructor
  · intro h
    induction h with
    | call hc => exact ⟨0, .call hc⟩
    | inside hc _ ih =>
      obtain ⟨calls, hcalls⟩ := ih
      exact ⟨_, .inside hc hcalls⟩
  · rintro ⟨calls, h⟩
    induction h with
    | call hc => exact .call hc
    | inside hc _ ih => exact .inside hc ih

section

variable {Q : {α : Type} → Task α → Prop} {moves watched : Prop} {risks : RuntimeFault → Prop}
variable {α : Type} {x : Interpreter → Eval α} {m : Machine} {c : Config} {fuel : Nat}

/-- A composed evaluation calls its tasks at its own depth. -/
theorem Composed.depth_of_calls (h : Composed Q moves watched risks x) (hc : Calls x (run fuel) m c) :
    c.machine.depth = m.depth :=
  (h.where_called (Evaluation.run_stays fuel) hc).1

/-- The depth at which a task calls other tasks. -/
theorem depth_of_calls_step {β : Type} {t : Task β} (hm : m.depth ≤ Machine.maxDepth)
    (hc : Calls (fun self => step self t) (run fuel) m c) :
    c.machine.depth = m.depth + t.isCall.toNat ∧ c.machine.depth ≤ Machine.maxDepth := by
  cases hcall : t.isCall with
  | false =>
    have hdepth := (step_composed t hcall).depth_of_calls hc
    exact ⟨hdepth, hdepth ▸ hm⟩
  | true =>
    cases t with
    | call callee site args =>
      obtain ⟨-, hlt, hinvoke⟩ := calls_callValue hc
      have hdepth := (invoke_composed callee site args).depth_of_calls hinvoke
      exact ⟨hdepth, hdepth ▸ hlt⟩
    | _ => cases hcall

/-- The depth where an evaluation has got to is the number of calls under way. -/
theorem Reaches.depth_eq {calls depth : Nat} (h : Reaches fuel calls x m c)
    (hx : ∀ fuel c, Calls x (run fuel) m c →
      c.machine.depth = depth ∧ c.machine.depth ≤ Machine.maxDepth) :
    c.machine.depth = depth + calls ∧ c.machine.depth ≤ Machine.maxDepth := by
  induction h generalizing depth with
  | call hc => exact hx _ _ hc
  | @inside fuel calls α x m c c' hc _ ih =>
    obtain ⟨hdepth, hle⟩ := hx _ _ hc
    have hin := ih fun fuel c₁ hc₁ => depth_of_calls_step hle hc₁
    rw [hdepth] at hin
    exact ⟨by omega, hin.2⟩

/-! ### Overflows -/

/-- An evaluation that calls all that another one calls comes to all that the other one does. -/
theorem Reaches.of_calls {β : Type} {x' : Interpreter → Eval β} {m' : Machine} {calls : Nat}
    (h : Reaches fuel calls x m c)
    (hx : ∀ fuel c, Calls x (run fuel) m c → Calls x' (run fuel) m' c) :
    Reaches fuel calls x' m' c := by
  cases h with
  | call hc => exact .call (hx _ _ hc)
  | inside hc hin => exact .inside (hx _ _ hc) hin

/-- An overflow comes from a proper call at the limit. -/
theorem Composed.reaches_overflow (h : Composed Q moves watched risks x) {site : Token}
    {m' : Machine}
    (hfail : x (run fuel) m = .error (.raised ⟨.stackOverflow, site⟩) m') :
    ∃ calls callee args m₁, Reaches fuel calls x m ⟨.call callee site args, m₁⟩ ∧
      callee.arity? = some args.length ∧ Machine.maxDepth ≤ m₁.depth := by
  induction fuel generalizing α Q moves watched risks x m m' with
  | zero =>
    obtain ⟨c, m₁, -, -, hc⟩ := h.exists_calls (by simp) hfail
    cases hc
  | succ fuel ih =>
    obtain ⟨⟨t, m₁⟩, m₂, -, hcalls, hc⟩ := h.exists_calls (by simp) hfail
    change step (run fuel) t m₁ = _ at hc
    have hinside : ∀ {calls callee args m₃},
        Reaches fuel calls (fun self => step self t) m₁ ⟨.call callee site args, m₃⟩ →
        callee.arity? = some args.length → Machine.maxDepth ≤ m₃.depth →
        ∃ calls callee args m₁, Reaches (fuel + 1) calls x m ⟨.call callee site args, m₁⟩ ∧
          callee.arity? = some args.length ∧ Machine.maxDepth ≤ m₁.depth :=
      fun hr ha hd => ⟨_, _, _, _, .inside hcalls hr, ha, hd⟩
    cases hcall : t.isCall with
    | false =>
      obtain ⟨calls, callee, args, m₃, hr, ha, hd⟩ := ih (step_composed t hcall) hc
      exact hinside hr ha hd
    | true =>
      cases t with
      | call callee site' args =>
        change callValue (run fuel) callee site' args m₁ = _ at hc
        obtain ⟨ha, hdepth, heq⟩ | ⟨ha, hdepth, heq⟩ | ⟨-, error, hplain, heq⟩ :=
          callValue_cases callee site' args m₁
        · rw [heq] at hc
          obtain ⟨m₃, hinner⟩ := error_of_asCall hc
          obtain ⟨calls, callee', args', m₄, hr, ha', hd⟩ :=
            ih (invoke_composed callee site' args) hinner
          exact hinside (hr.of_calls fun fuel c hc => hc.callValue ha hdepth) ha' hd
        · rw [heq] at hc
          obtain ⟨hraised, -⟩ := EStateM.Result.error.inj hc
          obtain rfl : site' = site := congrArg RuntimeError.token (Stop.raised.inj hraised)
          exact ⟨0, callee, args, m₁, .call hcalls, ha, hdepth⟩
        · rw [heq] at hc
          obtain ⟨hraised, -⟩ := EStateM.Result.error.inj hc
          have hfault := hplain fun _ => True
          rw [Stop.raised.inj hraised] at hfault
          exact hfault.elim
      | _ => cases hcall

/-- The failure of a task that is called is the failure of the task that calls it. -/
theorem step_fails_of_calls {β : Type} {t : Task β} {self : Interpreter}
    (hc : Calls (fun self => step self t) self m c) {e : Stop} {m₁ : Machine}
    (he : self c.task c.machine = .error e m₁) : ∃ m₂, step self t m = .error e m₂ := by
  cases hcall : t.isCall with
  | false => exact (step_composed t hcall).fails_of_calls hc he
  | true =>
    cases t with
    | call callee site args =>
      obtain ⟨ha, hdepth, hinvoke⟩ := calls_callValue hc
      obtain ⟨m₂, hm₂⟩ := (invoke_composed callee site args).fails_of_calls hinvoke he
      exact ⟨_, (callValue_allowed ha hdepth site _).trans (asCall_error hm₂)⟩
    | _ => cases hcall

/-- A proper call at the limit makes the evaluation overflow, if the bound lets it come to that. -/
theorem Reaches.overflow {calls : Nat} {callee : Value} {site : Token} {args : List Value}
    {m₁ : Machine} (h : Reaches fuel calls x m ⟨.call callee site args, m₁⟩)
    (ha : callee.arity? = some args.length) (hdepth : Machine.maxDepth ≤ m₁.depth)
    (hx : ∀ {self : Interpreter} {c : Config} {e : Stop} {m₁ : Machine}, Calls x self m c →
      self c.task c.machine = .error e m₁ → ∃ m₂, x self m = .error e m₂) :
    (∃ m', x (run fuel) m = .error .outOfFuel m') ∨
      ∃ m', x (run fuel) m = .error (.raised ⟨.stackOverflow, site⟩) m' := by
  generalize hcfg : (⟨.call callee site args, m₁⟩ : Config) = cfg at h
  induction h with
  | @call fuel α x m c hc =>
    subst hcfg
    cases fuel with
    | zero => exact .inl (hx hc rfl)
    | succ fuel => exact .inr (hx hc (callValue_overflow ha hdepth site _))
  | @inside fuel calls α x m c c' hc _ ih =>
    rcases ih (fun hc he => step_fails_of_calls hc he) hcfg with ⟨m', hm'⟩ | ⟨m', hm'⟩
    · exact .inl (hx hc hm')
    · exact .inr (hx hc hm')

end

end Evaluation

namespace Session

open Evaluation Eval

/-! ### Sessions -/

/-- Loading a source leaves the machine where it is. -/
theorem load_stays (s : Session) (name source : String) :
    (s.load name source).2.machine.frame = s.machine.frame ∧
      (s.load name source).2.machine.depth = s.machine.depth := by
  obtain ⟨D, hmachine⟩ := s.load_machine name source
  rw [hmachine]
  exact ⟨rfl, rfl⟩

theorem execute_stays (s : Session) (fuel : Nat) (program : Program) :
    (s.execute fuel program).2.machine.frame = s.machine.frame ∧
      (s.execute fuel program).2.machine.depth = s.machine.depth := by
  have hrun := (runProgram_composed program .undefined).run_stays fuel s.machine
  unfold execute
  cases hr : runProgram (Evaluation.run fuel) program .undefined s.machine with
  | ok v m =>
    rw [hr] at hrun
    exact hrun
  | error e m =>
    rw [hr] at hrun
    cases e <;> exact hrun

/-- One action leaves the machine where it is. -/
theorem perform_stays (s : Session) (a : Action) :
    (s.perform a).machine.frame = s.machine.frame ∧
      (s.perform a).machine.depth = s.machine.depth := by
  cases a with
  | run fuel name source =>
    have hload := s.load_stays name source
    rw [perform, Session.run]
    cases hr : s.load name source with
    | mk r s₁ =>
      rw [hr] at hload
      cases r with
      | error outcome => exact hload
      | ok program =>
        have hrun := s₁.execute_stays fuel program
        exact ⟨hrun.1.trans hload.1, hrun.2.trans hload.2⟩
  | native | takeOutput => exact ⟨rfl, rfl⟩

/-- So do any number of them. -/
theorem after_stays (s : Session) (history : List Action) :
    (s.after history).machine.frame = s.machine.frame ∧
      (s.after history).machine.depth = s.machine.depth := by
  induction history generalizing s with
  | nil => exact ⟨rfl, rfl⟩
  | cons a history ih =>
    obtain ⟨hframe, hdepth⟩ := s.perform_stays a
    exact ⟨(ih (s.perform a)).1.trans hframe, (ih (s.perform a)).2.trans hdepth⟩

/-- However an evaluation ends, the current frame and the depth are afterwards what they were
before: for expressions, statements, properties, calls and loops, for blocks, for what a call does
and the fields it initialises, and for whole programs.  After any history a session is at the
globals, with no call under way. -/
theorem state_restored :
    (∀ (fuel : Nat) {α : Type} (t : Evaluation.Task α), (Evaluation.run fuel t).Stays) ∧
    (∀ (fuel : Nat) (statements : List Stmt),
      (execBlock (Evaluation.run fuel) statements).Stays) ∧
    (∀ (fuel : Nat) (callee : Value) (site : Token) (args : List Value),
      (invoke (Evaluation.run fuel) callee site args).Stays) ∧
    (∀ (fuel : Nat) (frame : FrameId) (ref : Ref) (fields : List FieldDecl),
      (initFields (Evaluation.run fuel) frame ref fields).Stays) ∧
    (∀ (fuel : Nat) (program : Program) (last : Value),
      (runProgram (Evaluation.run fuel) program last).Stays) ∧
    ∀ (prelude : Bool) (input : List UInt8) (limit : Option Nat) (clock : Clock)
      (history : List Action),
      ((start prelude input limit clock).after history).machine.frame = Machine.globalFrame ∧
        ((start prelude input limit clock).after history).machine.depth = 0 := by
  refine ⟨run_stays, fun fuel statements => ?_, fun fuel callee site args => ?_,
    fun fuel frame ref fields => ?_, fun fuel program last => ?_, fun _ _ _ _ history => ?_⟩
  · have hblock : Composed (fun _ => True) True False (fun _ => True)
        fun self => execBlock self statements := execBlock_composed trivial fun _ _ => trivial
    exact hblock.run_stays fuel
  · exact (invoke_composed callee site args).run_stays fuel
  · have hfields : Composed (fun _ => True) True False (fun _ => True) fun self =>
        initFields self frame ref fields :=
      initFields_composed trivial (fun _ => trivial) frame ref fields
    exact hfields.run_stays fuel
  · exact (runProgram_composed program last).run_stays fuel
  · exact after_stays _ history

/-- The limit on the depth of calls shows only in stack overflows.

An evaluation that does not overflow does the same from any smaller depth, down to the depth itself.
In every run of a session the depth is the number of calls under way, which never exceeds the limit;
and a run overflows exactly if, in the middle of as many calls as the limit allows, it comes to a call
of something that takes that number of arguments. -/
theorem depth_limit_transparent (prelude : Bool) (input : List UInt8) (limit : Option Nat)
    (clock : Clock) (history : List Action) {name source : String} {program : Program} {s : Session}
    (hload : ((start prelude input limit clock).after history).load name source = (.ok program, s)) :
    (∀ (fuel : Nat) {α : Type} (t : Evaluation.Task α) (m : Machine) (depth : Nat), depth ≤ m.depth →
      ¬Overflows (Evaluation.run fuel t m) →
      Evaluation.run fuel t { m with depth := depth } = atDepth depth (Evaluation.run fuel t m)) ∧
    ∀ fuel : Nat,
      (∀ c, Visits fuel (fun self => runProgram self program .undefined) s.machine c →
        ∃ calls, Reaches fuel calls (fun self => runProgram self program .undefined) s.machine c) ∧
      (∀ calls c,
        Reaches fuel calls (fun self => runProgram self program .undefined) s.machine c →
        c.machine.depth = calls ∧ calls ≤ Machine.maxDepth) ∧
      ∀ site,
        (∃ m, runProgram (Evaluation.run fuel) program .undefined s.machine =
          .error (.raised ⟨.stackOverflow, site⟩) m) ↔
        (∀ m, runProgram (Evaluation.run fuel) program .undefined s.machine ≠ .error .outOfFuel m) ∧
          ∃ callee args m, Reaches fuel Machine.maxDepth
            (fun self => runProgram self program .undefined) s.machine ⟨.call callee site args, m⟩ ∧
            callee.arity? = some args.length := by
  have hzero : s.machine.depth = 0 := by
    have hload_stays := ((start prelude input limit clock).after history).load_stays name source
    rw [hload] at hload_stays
    exact hload_stays.2.trans (after_stays _ history).2
  have hcomposed := runProgram_composed program .undefined
  have hdepth : ∀ {fuel calls : Nat} {c : Config},
      Reaches fuel calls (fun self => runProgram self program .undefined) s.machine c →
      c.machine.depth = calls ∧ calls ≤ Machine.maxDepth := by
    intro fuel calls c h
    have hfirst : ∀ fuel c, Calls (fun self => runProgram self program .undefined)
        (Evaluation.run fuel) s.machine c →
        c.machine.depth = 0 ∧ c.machine.depth ≤ Machine.maxDepth := by
      intro fuel c hc
      rw [hcomposed.depth_of_calls hc, hzero]
      exact ⟨rfl, Nat.zero_le _⟩
    obtain ⟨heq, hle⟩ := h.depth_eq hfirst
    rw [Nat.zero_add] at heq
    exact ⟨heq, heq ▸ hle⟩
  refine ⟨fun fuel _ t m depth hle hover => run_transparent fuel t m depth hle hover,
    fun fuel => ⟨fun c => visits_iff_reaches.1, fun _ _ => hdepth, fun site => ⟨?_, ?_⟩⟩⟩
  · rintro ⟨m, hm⟩
    obtain ⟨calls, callee, args, m₁, hr, ha, hmax⟩ := hcomposed.reaches_overflow hm
    have hcalls : calls = Machine.maxDepth := by
      obtain ⟨heq, hle⟩ := hdepth hr
      exact Nat.le_antisymm hle (heq ▸ hmax)
    refine ⟨fun m' hm' => ?_, callee, args, m₁, hcalls ▸ hr, ha⟩
    cases hm.symm.trans hm'
  · rintro ⟨hfuel, callee, args, m, hr, ha⟩
    have hmax : Machine.maxDepth ≤ m.depth := Nat.le_of_eq (hdepth hr).1.symm
    rcases hr.overflow ha hmax fun hc he => hcomposed.fails_of_calls hc he with ⟨m', hm'⟩ | h
    · exact absurd hm' (hfuel m')
    · exact h

/-- The program `function f(){f()}`, followed by `f()` on a line of its own. -/
def endlessRecursion : Program :=
  [.functionDecl (.mk (.make .name "f" 1 10 1 none) []
      [.expression (.call (.name 0 (.make .name "f" 1 14 5 none))
          (.make .rightParen ")" 1 16 7 none) []) (.make .name "f" 1 14 5 none)] none),
    .expression (.call (.name 1 (.make .name "f" 2 1 10 none)) (.make .rightParen ")" 2 3 12 none) [])
      (.make .name "f" 2 1 10 none)]

set_option maxRecDepth 100000 in
theorem endlessRecursion_spelled : ∃ tokens,
    tokenizeFrom 1 "function f()\x7bf()\x7d\nf()" = .ok tokens ∧
      parseFrom 0 tokens = .ok (endlessRecursion, 2) :=
  ⟨_, by cbv, by cbv⟩

theorem endlessRecursion_loaded : ∃ s, ((start false [] none (.still 0)).after []).load "main"
    "function f()\x7bf()\x7d\nf()" = (.ok endlessRecursion, s) := by
  obtain ⟨tokens, htokens, hparse⟩ := endlessRecursion_spelled
  obtain ⟨s, hload, -⟩ :=
    load_of_ready (s := start false [] none (.still 0)) rfl "main" htokens hparse rfl
  exact ⟨s, hload⟩

/-- A function that calls itself without end never has more calls under way than the limit; and the
first function of the host, if it yields its argument, does the same in the middle of 1023 calls as
outside of all. -/
theorem endless_recursion_limited :
    (∃ s, ((start false [] none (.still 0)).after []).load "main" "function f()\x7bf()\x7d\nf()" =
        (.ok endlessRecursion, s) ∧
      ∀ fuel calls c,
        Reaches fuel calls (fun self => runProgram self endlessRecursion .undefined) s.machine c →
        c.machine.depth = calls ∧ calls ≤ 1024) ∧
    ∀ (site : Token) (m : Machine),
      Evaluation.run 1 (.call (.native (.mk 0 "same" 1 (.host 0 .null))) site [.null])
          { m with hosts := #[.first], depth := 0 } =
        atDepth 0 (Evaluation.run 1 (.call (.native (.mk 0 "same" 1 (.host 0 .null))) site [.null])
          { m with hosts := #[.first], depth := 1023 }) := by
  obtain ⟨s, hload⟩ := endlessRecursion_loaded
  have htheorem := depth_limit_transparent false [] none (.still 0) [] hload
  refine ⟨⟨s, hload, fun fuel calls c h => (htheorem.2 fuel).2.1 calls c h⟩,
    fun site m => htheorem.1 1 _ { m with hosts := #[.first], depth := 1023 } 0 (Nat.zero_le _) ?_⟩
  exact not_overflows_ok _ _

end Session

end ScopedScript
