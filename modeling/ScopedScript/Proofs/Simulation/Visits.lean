import ScopedScript.Proofs.Simulation.Tasks

/-! # What an evaluation visits

An evaluation hands tasks to its interpreter, on the machine as it is then; a task on a machine is a
`Config`.  That an evaluation *calls* a configuration is said by what would happen otherwise: if the
interpreter stopped there for some reason, the evaluation would stop for that reason, whichever it
is (`Calls`).  `Visits` adds the configurations that are called while the tasks inside are carried
out, to any depth.

If an evaluation simulates itself, everything it visits is in order: the task is alike to some task
on some alike machine (`good_of_visits`).  For a configuration that is not in order cannot be told
from one that stops the evaluation, and no evaluation stops for two reasons. -/

namespace ScopedScript

namespace Evaluation

/-- A task on a machine. -/
structure Config where
  {result : Type}
  task : Task result
  machine : Machine

/-- The node that a task evaluates or executes, if the task is to do just that. -/
def Task.node? : {α : Type} → Task α → Option Node
  | _, .expr e => some (.expr e)
  | _, .stmt s => some (.stmt s)
  | _, _ => none

open Classical in
/-- The interpreter that stops when it comes to a configuration. -/
noncomputable def halting (self : Interpreter) (c : Config) (stop : Stop) : Interpreter :=
  fun t m => if ⟨t, m⟩ = c then .error stop m else self t m

/-- The evaluation hands the configuration to its interpreter. -/
def Calls {α : Type} (x : Interpreter → Eval α) (self : Interpreter) (m : Machine)
    (c : Config) : Prop :=
  ∀ stop, ∃ m', x (halting self c stop) m = .error stop m'

/-- The evaluation comes to the configuration, with tasks inside one another up to a bound. -/
inductive Visits : Nat → {α : Type} → (Interpreter → Eval α) → Machine → Config → Prop
  | call {fuel : Nat} {α : Type} {x : Interpreter → Eval α} {m : Machine} {c : Config} :
      Calls x (run fuel) m c → Visits fuel x m c
  | inside {fuel : Nat} {α : Type} {x : Interpreter → Eval α} {m : Machine} {c c' : Config} :
      Calls x (run (fuel + 1)) m c → Visits fuel (fun self => step self c.task) c.machine c' →
      Visits (fuel + 1) x m c'

/-- What follows the first of several statements. -/
def goOn (self : Interpreter) (ss : List Stmt) : Signal → Eval Signal
  | .returned v => return .returned v
  | .proceed => execAll self ss

theorem execAll_cons (self : Interpreter) (s : Stmt) (ss : List Stmt) :
    execAll self (s :: ss) = self (.stmt s) >>= goOn self ss := by
  rw [execAll]
  congr 1

/-! ### Calls -/

namespace Calls

variable {α β : Type} {x : Interpreter → Eval α} {self : Interpreter} {m m₁ : Machine} {c : Config}

/-- Carrying out a task calls it. -/
theorem task (self : Interpreter) (m : Machine) (t : Task α) :
    Calls (fun self => self t) self m ⟨t, m⟩ := by
  intro stop
  exact ⟨m, if_pos rfl⟩

theorem bind (h : Calls x self m c) (k : Interpreter → α → Eval β) :
    Calls (fun self => x self >>= k self) self m c := by
  intro stop
  obtain ⟨m', hm'⟩ := h stop
  refine ⟨m', ?_⟩
  change EStateM.bind _ _ m = _
  rw [EStateM.bind, hm']

/-- What comes after a step that hands nothing to the interpreter. -/
theorem after {step : Eval α} {a : α} (hs : step m = .ok a m₁) {k : Interpreter → α → Eval β}
    (h : Calls (fun self => k @self a) self m₁ c) :
    Calls (fun self => step >>= k @self) self m c := by
  intro stop
  obtain ⟨m', hm'⟩ := h stop
  refine ⟨m', ?_⟩
  change EStateM.bind _ _ m = _
  rw [EStateM.bind, hs]
  exact hm'

/-- What comes after another task. -/
theorem next {t : Task α} {a : α} (ht : self t m = .ok a m₁)
    (hne : t.node? ≠ c.task.node?) {k : Interpreter → α → Eval β}
    (h : Calls (fun self => k self a) self m₁ c) :
    Calls (fun self => self t >>= k self) self m c := by
  intro stop
  obtain ⟨m', hm'⟩ := h stop
  refine ⟨m', ?_⟩
  have hother : halting self c stop t m = .ok a m₁ := by
    unfold halting
    dsimp only
    rw [if_neg, ht]
    rintro rfl
    exact hne rfl
  change EStateM.bind (halting self c stop t) _ m = _
  rw [EStateM.bind, hother]
  exact hm'

theorem inFrame {g : FrameId} (h : Calls x self { m with frame := g } c) :
    Calls (fun self => Eval.inFrame g (x self)) self m c := by
  intro stop
  obtain ⟨m', hm'⟩ := h stop
  refine ⟨{ m' with frame := m.frame }, ?_⟩
  simp only [Eval.inFrame, hm']

/-- No evaluation that leaves its interpreter out calls anything. -/
theorem not_of_const (r : EStateM.Result Stop Machine α)
    (hx : ∀ stop, x (halting self c stop) m = r) : ¬Calls x self m c := by
  intro hc
  obtain ⟨m₁, h₁⟩ := hc .outOfFuel
  obtain ⟨m₂, h₂⟩ := hc (.raised ⟨.sinkFull, default⟩)
  rw [hx] at h₁ h₂
  obtain ⟨h, -⟩ := EStateM.Result.error.inj (h₁.symm.trans h₂)
  cases h

/-- A task that is carried out calls nothing but itself. -/
theorem of_task {t : Task α} (h : Calls (fun self => self t) self m c) : c = ⟨t, m⟩ := by
  by_contra hne
  refine not_of_const (self t m) (fun stop => ?_) h
  unfold halting
  dsimp only
  rw [if_neg (Ne.symm hne)]

/-- What is called after a step that hands nothing to the interpreter. -/
theorem of_after {step : Eval α} {k : Interpreter → α → Eval β}
    (h : Calls (fun self => step >>= k @self) self m c) :
    ∃ a m₁, step m = .ok a m₁ ∧ Calls (fun self => k @self a) self m₁ c := by
  cases hs : step m with
  | ok a m₁ =>
    refine ⟨a, m₁, rfl, fun stop => ?_⟩
    obtain ⟨m', hm'⟩ := h stop
    change EStateM.bind _ _ m = _ at hm'
    rw [EStateM.bind, hs] at hm'
    exact ⟨m', hm'⟩
  | error e m₁ =>
    refine absurd h (not_of_const (.error e m₁) fun stop => ?_)
    change EStateM.bind _ _ m = _
    rw [EStateM.bind, hs]

theorem of_inFrame {g : FrameId} (h : Calls (fun self => Eval.inFrame g (x @self)) self m c) :
    Calls x self { m with frame := g } c := by
  intro stop
  obtain ⟨m', hm'⟩ := h stop
  dsimp only [Eval.inFrame] at hm'
  generalize x (halting self c stop) { m with frame := g } = r at hm' ⊢
  cases r with
  | ok a m₂ => cases hm'
  | error e m₂ =>
    obtain ⟨rfl, -⟩ := EStateM.Result.error.inj hm'
    exact ⟨m₂, rfl⟩

section

variable {s : Stmt} {ss : List Stmt}

/-- The first statement of a program, if it is no expression statement. -/
theorem program (hs : ∀ e t, s ≠ .expression e t) (last : Value) :
    Calls (fun self => runProgram self (s :: ss) last) self m ⟨.stmt s, m⟩ := by
  have h := (task self m (.stmt s)).bind
    fun self _ => runProgram self ss last
  simpa only [Sims.runProgram_of_ne _ hs] using h

/-- The first of several statements. -/
theorem head : Calls (fun self => execAll self (s :: ss)) self m ⟨.stmt s, m⟩ := by
  simp only [execAll_cons]
  exact (task self m (.stmt s)).bind fun self => goOn self ss

/-- What is called by the statements after the first one. -/
theorem tail (hs : self (.stmt s) m = .ok .proceed m₁) (hne : some (.stmt s) ≠ c.task.node?)
    (h : Calls (fun self => execAll self ss) self m₁ c) :
    Calls (fun self => execAll self (s :: ss)) self m c := by
  simp only [execAll_cons]
  exact next (t := .stmt s) (k := fun self => goOn self ss) hs hne h

/-- What is called by the statements of a block. -/
theorem block (h : Calls (fun self => execAll self ss) self
      { m.pushFrame (.block ss) m.frame [] with frame := m.frames.size } c) :
    Calls (fun self => step self (.stmt (.block ss))) self m c :=
  h.inFrame (m := m.pushFrame (.block ss) m.frame [])

/-- The expression of an expression statement. -/
theorem expression {e : Expr} {t : Token} :
    Calls (fun self => step self (.stmt (.expression e t))) self m ⟨.expr e, m⟩ :=
  (task self m (.expr e)).bind fun _ _ => pure Signal.proceed

end

end Calls

/-! ### Configurations in order -/

/-- The task is alike to some task on some alike machine. -/
def Good (R : Likeness) (c : Config) : Prop :=
  ∃ t' post m', c.machine.Alike R m' ∧
    Task.Alike R c.machine.frames c.machine.frame c.task t' post

section

variable {R : Likeness} {self self' : Interpreter} {c : Config}

/-- Stopping where nothing is in order does not disturb a simulation. -/
theorem Sims.halting (hself : Sims R self self') (hc : ¬Good R c) (stop : Stop) :
    Sims R (halting self c stop) self' := by
  intro α fr f t t' post ht m m' hm hfr hf
  unfold Evaluation.halting
  dsimp only
  split
  · next heq =>
    subst heq hf
    exact absurd ⟨t', post, m', hm, ht.grow hfr⟩ hc
  · exact hself ht hm hfr hf

theorem good_of_calls {α : Type} {x x' : Interpreter → Eval α} {m m' : Machine}
    {post : Array Frame → α → α → Prop} (hself : Sims R self self') (hm : m.Alike R m')
    (hx : ∀ {self self'}, Sims R self self' →
      Sim R m.frames m.frame (x @self) (x' @self') post)
    (h : Calls x self m c) : Good R c := by
  by_contra hc
  -- stopped for any reason, the first evaluation agrees with the second one as it is
  have hagree : ∀ stop : Stop, ∃ e' m₁, x' self' m' = .error e' m₁ ∧ stop.Alike R e' := by
    intro stop
    obtain ⟨m₁, hm₁⟩ := h stop
    have ha := hx (hself.halting hc stop) hm (.refl _) rfl
    rw [hm₁] at ha
    generalize x' self' m' = r' at ha
    cases ha with
    | error _ _ _ he => exact ⟨_, _, rfl, he⟩
  obtain ⟨e₁, m₁, h₁, he₁⟩ := hagree .outOfFuel
  obtain ⟨e₂, m₂, h₂, he₂⟩ := hagree (.raised ⟨.sinkFull, default⟩)
  obtain ⟨rfl, -⟩ := EStateM.Result.error.inj (h₁.symm.trans h₂)
  have hfuel : ∀ e : Stop, e.Alike R .outOfFuel → e = .outOfFuel := by
    intro e he
    cases he
    rfl
  cases he₁
  cases hfuel _ he₂

/-- Everything that is visited is in order. -/
theorem good_of_visits {fuel : Nat} {α : Type} {x : Interpreter → Eval α} {m : Machine}
    (h : Visits fuel x m c) (x' : Interpreter → Eval α) {m' : Machine}
    {post : Array Frame → α → α → Prop} (hm : m.Alike R m')
    (hx : ∀ {self self'}, Sims R self self' →
      Sim R m.frames m.frame (x self) (x' self') post) : Good R c := by
  induction h generalizing m' with
  | call hcalls => exact good_of_calls (sims_run R _) hm hx hcalls
  | inside hcalls _ ih =>
    obtain ⟨t', post', m₁, hm₁, ht⟩ := good_of_calls (sims_run R _) hm hx hcalls
    exact ih (fun self => step self t') hm₁ fun hself => hself.step ht

/-- A node that is to be evaluated has a counterpart. -/
theorem Good.node {c : Config} (hc : Good R c) {n : Node} (hn : c.task.node? = some n) :
    ∃ ctx n', R.node ctx n n' := by
  obtain ⟨t', post, m', -, ht⟩ := hc
  obtain ⟨t, m⟩ := c
  cases ht with
  | expr _ he =>
    obtain rfl := Option.some.inj hn
    exact ⟨_, _, he.node⟩
  | stmt _ hs =>
    obtain rfl := Option.some.inj hn
    exact ⟨_, _, hs.node⟩
  | property _ _ => cases hn
  | call _ _ _ => cases hn
  | loop _ _ _ _ => cases hn

end

end Evaluation

end ScopedScript
