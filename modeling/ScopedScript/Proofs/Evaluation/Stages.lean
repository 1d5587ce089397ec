import ScopedScript.Proofs.Evaluation.Composition

/-! # Later stages

How the frames of a machine go on while an evaluation is under way, and which of them the tasks
inside a task are carried out in.

* An evaluation goes *forward* if whatever it calls leaves the frames at a later stage (`Forward`).
  Then so does the evaluation itself, and what it calls stands between the beginning and the end
  (`Composed.later`, `Composed.later_calls`).  If an evaluation simulates itself, this goes for
  everything that it visits (`later_of_visits`).
* The statements of a block or function are carried out in a frame made for them, inside the current
  frame or that of the closure (`calls_block`, `calls_runBody`); the fields and the constructor of a
  new instance in frames that serve the instance (`calls_instantiate`); everything else in the
  current frame. -/

namespace ScopedScript

/-- Two simulating steps leave later stages. -/
theorem Agree.later {R : Likeness} {fr : Array Frame} {f : FrameId} {α β : Type}
    {post : Array Frame → α → β → Prop} {r : EStateM.Result Stop Machine α}
    {r' : EStateM.Result Stop Machine β} (h : Agree R fr f post r r') :
    R.Grows fr (Eval.leaves r).frames := by
  cases h with
  | ok _ hg _ _ => exact hg
  | error _ hg _ _ => exact hg

namespace Evaluation

open Eval

/-! ### Going forward -/

/-- Whatever the evaluation calls leaves the frames at a later stage. -/
def Forward (watched : Prop) (self : Interpreter) {α : Type} (x : Interpreter → Eval α)
    (m : Machine) : Prop :=
  ∀ c, Calls x self m c → Later watched c.machine.frames (leaves (self c.task c.machine)).frames

section

variable {Q : {α : Type} → Task α → Prop} {moves watched : Prop} {α β : Type}
variable {risks : RuntimeFault → Prop}
variable {x : Interpreter → Eval α} {k : Interpreter → α → Eval β} {self : Interpreter}
variable {m m₁ : Machine} {c : Config}

namespace Forward

theorem first (h : Forward watched self (fun self => x @self >>= k @self) m) :
    Forward watched self x m := fun c hc => h c (hc.bind @k)

theorem rest {a : α} (h : Forward watched self (fun self => x @self >>= k @self) m)
    (hx : Composed Q moves watched risks x) (hr : x @self m = .ok a m₁) :
    Forward watched self (fun self => k @self a) m₁ := fun c hc => h c (hx.calls_rest hr hc)

/-- After a step that hands nothing to the interpreter. -/
theorem after {step : Eval α} {a : α} (h : Forward watched self (fun self => step >>= k @self) m)
    (hs : step m = .ok a m₁) : Forward watched self (fun self => k @self a) m₁ :=
  fun c hc => h c (hc.after hs)

theorem inFrame {g : FrameId} (h : Forward watched self (fun self => Eval.inFrame g (x @self)) m) :
    Forward watched self x { m with frame := g } := fun c hc => h c hc.inFrame

end Forward

namespace Composed

/-- The machine that an evaluation leaves is a later stage. -/
theorem later (h : Composed Q moves watched risks x) (hf : Forward watched @self x m) :
    Later watched m.frames (leaves (x @self m)).frames := by
  induction h generalizing m with
  | elementary hx => exact hx.later m
  | task => exact hf _ (.task _ _ _)
  | @bind β γ x k hx _ ihx ihk =>
    have hfirst := ihx hf.first
    dsimp only
    cases hr : x @self m with
    | ok a m₁ =>
      rw [hr] at hfirst
      rw [bind_ok hr]
      exact hfirst.trans (ihk a (hf.rest hx hr))
    | error e m₁ =>
      rw [hr] at hfirst
      rwa [bind_error hr]
  | @inFrame β x g _ _ ih =>
    have hin := ih hf.inFrame
    dsimp only
    rw [leaves_inFrame]
    exact hin

/-- So is the machine at each of the calls, and the machine in the end after each of them. -/
theorem later_calls (h : Composed Q moves watched risks x) (hf : Forward watched @self x m)
    (hc : Calls x @self m c) :
    Later watched m.frames c.machine.frames ∧
      Later watched (leaves (self c.task c.machine)).frames (leaves (x @self m)).frames := by
  induction h generalizing m with
  | elementary => exact absurd hc (Calls.not_of_const _ fun _ => rfl)
  | task =>
    obtain rfl := hc.of_task
    exact ⟨.refl _, .refl _⟩
  | @bind β γ x k hx hk ihx ihk =>
    dsimp only
    cases hr : x @self m with
    | ok a m₁ =>
      have hto := hx.later hf.first
      have hon := (hk a).later (hf.rest hx hr)
      rw [hr] at hto
      rw [bind_ok hr]
      obtain hc | ⟨a', m₁', hr', hc⟩ := hx.calls_bind hc
      · obtain ⟨hat, hend⟩ := ihx hf.first hc
        rw [hr] at hend
        exact ⟨hat, hend.trans hon⟩
      · obtain ⟨rfl, rfl⟩ := EStateM.Result.ok.inj (hr.symm.trans hr')
        obtain ⟨hat, hend⟩ := ihk a (hf.rest hx hr) hc
        exact ⟨hto.trans hat, hend⟩
    | error e m₁ =>
      obtain hc | ⟨a', m₁', hr', -⟩ := hx.calls_bind hc
      · obtain ⟨hat, hend⟩ := ihx hf.first hc
        rw [hr] at hend
        rw [bind_error hr]
        exact ⟨hat, hend⟩
      · cases hr.symm.trans hr'
  | @inFrame β x g _ _ ih =>
    have hin := ih hf.inFrame hc.of_inFrame
    dsimp only
    rw [leaves_inFrame]
    exact hin

end Composed

/-- A call is made one level deeper, among the same frames. -/
theorem leaves_asCall_frames (x : Eval α) (m : Machine) :
    (leaves (asCall x m)).frames = (leaves (x { m with depth := m.depth + 1 })).frames := by
  unfold asCall
  cases x { m with depth := m.depth + 1 } <;> rfl

/-- Carrying out a task. -/
theorem step_later (t : Task α) (hthis : watched → ∀ n, t.node? = some n → n.SparesThis)
    (hf : Forward watched self (fun self => step self t) m) :
    Later watched m.frames (leaves (step self t m)).frames ∧
      ∀ c, Calls (fun self => step self t) self m c →
        Later watched m.frames c.machine.frames ∧
          Later watched (leaves (self c.task c.machine)).frames (leaves (step self t m)).frames := by
  cases hcall : t.isCall with
  | false =>
    have hcomposed : Composed (fun _ => True) True watched (fun _ => True) fun self => step self t :=
      step_composed_of t hcall (fun _ _ => trivial) hthis fun _ _ _ _ => trivial
    exact ⟨hcomposed.later hf, fun c hc => hcomposed.later_calls hf hc⟩
  | true =>
    cases t with
    | call callee site args =>
      have hcomposed : Composed (fun _ => True) True watched (fun _ => True) fun self =>
          invoke self callee site args :=
        invoke_composed_of trivial (fun _ => trivial) (fun _ => trivial) (fun _ _ _ => trivial)
          (fun d _ => d.bindable) _ _
      change Later watched m.frames (leaves (callValue self callee site args m)).frames ∧ _
      obtain ⟨ha, hdepth, heq⟩ | ⟨-, hdepth, heq⟩ | ⟨ha, error, -, heq⟩ :=
        callValue_cases callee site args m
      · have hinvoke : Forward watched self (fun self => invoke self callee site args)
            { m with depth := m.depth + 1 } := fun c hc => hf c (hc.callValue ha hdepth)
        have hframes : (leaves (step self (.call callee site args) m)).frames =
            (leaves (invoke self callee site args { m with depth := m.depth + 1 })).frames :=
          (congrArg (Machine.frames <| leaves ·) (heq self)).trans (leaves_asCall_frames _ m)
        refine ⟨?_, fun c hc => ?_⟩
        · exact hframes ▸ hcomposed.later hinvoke
        · obtain ⟨-, -, hc⟩ := calls_callValue hc
          exact hframes ▸ hcomposed.later_calls hinvoke hc
      · rw [heq]
        refine ⟨.refl _, fun c hc => ?_⟩
        obtain ⟨-, hlt, -⟩ := calls_callValue hc
        exact absurd hlt (Nat.not_lt.2 hdepth)
      · rw [heq]
        refine ⟨.refl _, fun c hc => ?_⟩
        obtain ⟨ha', -, -⟩ := calls_callValue hc
        exact absurd ha' ha
    | _ => cases hcall

end

/-- Whatever a task does, frames are added to. -/
theorem run_grows (fuel : Nat) {α : Type} (t : Task α) (m : Machine) :
    Later False m.frames (leaves (run fuel t m)).frames := by
  induction fuel generalizing α m with
  | zero => exact .refl _
  | succ fuel ih => exact (step_later t False.elim fun c _ => ih c.task c.machine).1

/-! ### What is visited -/

section

variable {R : Likeness} {c : Config}

/-- What is in order leaves a later stage. -/
theorem Good.later (h : Good R c) (fuel : Nat) :
    Later R.watched c.machine.frames (leaves (run fuel c.task c.machine)).frames := by
  obtain ⟨t', post, m', hm, ht⟩ := h
  exact (sims_run R fuel ht hm (.refl _) rfl).later

/-- Carrying it out goes forward. -/
theorem Good.forward (h : Good R c) (fuel : Nat) :
    Forward R.watched (run fuel) (fun self => step self c.task) c.machine := by
  obtain ⟨t', post, m', hm, ht⟩ := h
  intro c' hc
  have hstep : ∀ {self self'}, Sims R self self' →
      Sim R c.machine.frames c.machine.frame (step self c.task) (step self' t') post :=
    fun hself => hself.step ht
  exact (good_of_calls (sims_run R fuel) hm hstep hc).later fuel

/-- The node that is evaluated spares `this`. -/
theorem Good.spares (h : Good R c) (hw : R.watched) (n : Node) (hn : c.task.node? = some n) :
    n.SparesThis := by
  obtain ⟨t', post, m', -, ht⟩ := h
  obtain ⟨task, machine⟩ := c
  cases ht with
  | expr _ he =>
    obtain rfl := Option.some.inj hn
    exact R.spares he.node hw
  | stmt _ hs =>
    obtain rfl := Option.some.inj hn
    exact R.spares hs.node hw
  | property _ _ | call _ _ _ | loop _ _ _ _ => cases hn

/-- Everything that is visited stands between the beginning and the end. -/
theorem later_of_visits {fuel : Nat} {α : Type} {x : Interpreter → Eval α} {m : Machine}
    (h : Visits fuel x m c) (x' : Interpreter → Eval α) {m' : Machine}
    {post : Array Frame → α → α → Prop} (hm : m.Alike R m')
    (hx : ∀ {self self'}, Sims R self self' → Sim R m.frames m.frame (x self) (x' self') post)
    (hcalls : ∀ fuel c, Forward R.watched (run fuel) x m → Calls x (run fuel) m c →
      Later R.watched m.frames c.machine.frames ∧
        Later R.watched (leaves (run fuel c.task c.machine)).frames
          (leaves (x (run fuel) m)).frames) :
    Later R.watched m.frames c.machine.frames ∧
      Later R.watched c.machine.frames (leaves (x (run fuel) m)).frames := by
  have hforward : ∀ {α : Type} {x x' : Interpreter → Eval α} {m m' : Machine}
      {post : Array Frame → α → α → Prop} (fuel : Nat), m.Alike R m' →
      (∀ {self self'}, Sims R self self' → Sim R m.frames m.frame (x self) (x' self') post) →
      Forward R.watched (run fuel) x m := fun fuel hm hx c hc =>
    (good_of_calls (sims_run R fuel) hm hx hc).later fuel
  induction h generalizing m' with
  | @call fuel _ _ _ c hc =>
    obtain ⟨hto, hon⟩ := hcalls fuel c (hforward fuel hm hx) hc
    exact ⟨hto, ((good_of_calls (sims_run R fuel) hm hx hc).later fuel).trans hon⟩
  | @inside fuel _ _ _ c c' hc _ ih =>
    have hgood := good_of_calls (sims_run R (fuel + 1)) hm hx hc
    obtain ⟨hto, hon⟩ := hcalls (fuel + 1) c (hforward (fuel + 1) hm hx) hc
    have hspares := hgood.spares
    obtain ⟨t', post', m₁, hm₁, ht⟩ := hgood
    obtain ⟨hto', hon'⟩ := ih (fun self => step self t') hm₁ (fun hself => hself.step ht)
      fun fuel c₁ hf hc₁ => (step_later c.task hspares hf).2 c₁ hc₁
    exact ⟨hto.trans hto', hon'.trans hon⟩

end

/-! ### Where tasks are carried out -/

section

variable {fuel : Nat} {m : Machine} {c : Config} {g parent : FrameId}

/-- The statements of a frame that is one of a block or function. -/
theorem calls_statements {ss : List Stmt} (hg : Inside m.frames g parent)
    (hc : Calls (fun self => Eval.inFrame g (execAll self ss)) (run fuel) m c) :
    c.machine.frame = g ∧ Inside c.machine.frames g parent := by
  have hcomposed : Composed (fun _ => True) False False (fun _ => True) fun self => execAll self ss :=
    execAll_composed fun _ _ => trivial
  have hforward : Forward False (run fuel) (fun self => execAll self ss) { m with frame := g } :=
    fun c _ => run_grows fuel c.task c.machine
  have hin := hc.of_inFrame
  obtain ⟨-, hframe⟩ := hcomposed.where_called (run_stays fuel) hin
  obtain ⟨hto, -⟩ := hcomposed.later_calls hforward hin
  exact ⟨hframe id, hg.grow hto.frames⟩

/-- A frame that is made for a block or function is inside its parent. -/
theorem inside_push {region : Region} (hr : ∀ d, region ≠ .receiver d) (vars : Record Value) :
    Inside (m.pushFrame region parent vars).frames m.frames.size parent :=
  ⟨region, vars, Array.getElem?_push_size, hr⟩

/-- The statements of a block are carried out inside the current frame. -/
theorem calls_block {ss : List Stmt}
    (hc : Calls (fun self => step self (.stmt (.block ss))) (run fuel) m c) :
    Inside c.machine.frames c.machine.frame m.frame := by
  have hstatements : Calls (fun self => Eval.inFrame m.frames.size (execAll self ss)) (run fuel)
      (m.pushFrame (.block ss) m.frame []) c := hc
  obtain ⟨hframe, hinside⟩ := calls_statements (inside_push (by simp) _) hstatements
  rwa [hframe]

/-- The body of a function is carried out inside the frame it was made in. -/
theorem calls_runBody {declaration : FunctionDecl} {args : List Value}
    (hc : Calls (fun self => runBody self declaration g args) (run fuel) m c) :
    Inside c.machine.frames c.machine.frame g := by
  obtain ⟨vars, m₁, -, hc⟩ := hc.of_after
  obtain ⟨own, m₂, hown, hc⟩ := hc.of_after
  obtain ⟨rfl, rfl⟩ := EStateM.Result.ok.inj hown
  have hbody : Composed (fun _ => True) True False (fun _ => True) fun self =>
      Eval.inFrame m₁.frames.size (execAll self declaration.body) :=
    .inFrame _ trivial (execAll_composed fun _ _ => trivial)
  obtain hc | ⟨signal, m₃, -, hc⟩ := hbody.calls_bind hc
  · obtain ⟨hframe, hinside⟩ := calls_statements (inside_push (by simp) _) hc
    rwa [hframe]
  · exact absurd hc (Calls.not_of_const _ fun _ => rfl)

theorem calls_runMethod {b : Method} {args : List Value}
    (hc : Calls (fun self => runMethod self b args) (run fuel) m c) :
    Inside c.machine.frames c.machine.frame b.frame := by
  have hbody : Composed (fun _ => True) True False (fun _ => True) fun self =>
      runBody self b.declaration b.frame args :=
    runBody_composed trivial (fun _ => trivial) b.declaration.bindable _ _
  obtain hc | ⟨v, m₁, -, hc⟩ := hbody.calls_bind hc
  · exact calls_runBody hc
  · exact absurd hc (Calls.not_of_const _ fun _ => rfl)

/-- The fields of a new instance are initialised in the frame made for that. -/
theorem calls_initFields {ref : Ref} {fields : List FieldDecl}
    (hc : Calls (fun self => initFields self g ref fields) (run fuel) m c) :
    c.machine.frame = g := by
  induction fields generalizing m with
  | nil => exact absurd hc (Calls.not_of_const _ fun _ => rfl)
  | cons field fields ih =>
    obtain ⟨name, ty, init⟩ := field
    have hinit : Composed (fun _ => True) True False (fun _ => True) fun self =>
        Eval.inFrame g (self (.expr init)) := .inFrame g trivial (.task trivial)
    obtain hc | ⟨v, m₁, -, hc⟩ := hinit.calls_bind hc
    · obtain rfl := hc.of_inFrame.of_task
      rfl
    · obtain ⟨_, m₂, -, hc⟩ := hc.of_after
      exact ih hc

/-! ### Instances -/

variable {i : Instance}

/-- The frame that is made for an instance holds it. -/
theorem heldAt_bindThis (i : Instance) (m : Machine) : ∃ m₁, bindThis i m = .ok m.frames.size m₁ ∧
    HeldAt m₁.frames m.frames.size i :=
  ⟨_, rfl, _, Array.getElem?_push_size, Frame.holds_receiver i⟩

/-- A method is bound to its instance, in a frame that holds it. -/
theorem heldAt_bindMethod (i : Instance) (declaration : FunctionDecl) (m : Machine) :
    ∃ b m₁, bindMethod i declaration m = .ok b m₁ ∧ b.declaration = declaration ∧ b.receiver = i ∧
      HeldAt m₁.frames b.frame i := by
  refine ⟨_, _, rfl, rfl, rfl, ?_⟩
  exact ⟨_, Array.getElem?_push_size, Frame.holds_receiver i⟩

/-- The body of a method is carried out for the instance that the method is bound to. -/
theorem serves_of_calls_runMethod {b : Method} {args : List Value}
    (hb : HeldAt m.frames b.frame i)
    (hf : Forward True (run fuel) (fun self => runMethod self b args) m)
    (hc : Calls (fun self => runMethod self b args) (run fuel) m c) :
    Serves c.machine.frames c.machine.frame i := by
  have hcomposed : Composed (fun _ => True) True True (fun _ => True)
      fun self => runMethod self b args :=
    runMethod_composed trivial (fun _ => trivial) b.declaration.bindable args
  obtain ⟨hto, -⟩ := hcomposed.later_calls hf hc
  exact (calls_runMethod hc).serves (.here ((hto.keeps trivial).held _ _ hb))

theorem calls_construct {args : List Value}
    (hf : Forward True (run fuel) (fun self => construct self i args) m)
    (hc : Calls (fun self => construct self i args) (run fuel) m c) :
    Serves c.machine.frames c.machine.frame i := by
  simp only [construct] at hf hc
  cases hmethod : i.cls.declaration.method? ClassDecl.constructorName with
  | none =>
    rw [hmethod] at hc
    exact absurd hc (Calls.not_of_const _ fun _ => rfl)
  | some declaration =>
    simp only [hmethod] at hf hc
    obtain ⟨b, m₁, hb, -, -, hheld⟩ := heldAt_bindMethod i declaration m
    obtain ⟨b', m₁', hb', hc⟩ := hc.of_after
    obtain ⟨rfl, rfl⟩ := EStateM.Result.ok.inj (hb.symm.trans hb')
    have hbody : Composed (fun _ => True) True False (fun _ => True)
        fun self => runMethod self b args :=
      runMethod_composed trivial (fun _ => trivial) b.declaration.bindable args
    obtain hc | ⟨v, m₂, -, hc⟩ := hbody.calls_bind hc
    · exact serves_of_calls_runMethod hheld (hf.after hb).first hc
    · exact absurd hc (Calls.not_of_const _ fun _ => rfl)

/-- The fields of a new instance are initialised for the instance, and its constructor is carried
out for it. -/
theorem calls_instantiate {k : Class} {args : List Value}
    (hf : Forward True (run fuel) (fun self => instantiate self k args) m)
    (hc : Calls (fun self => instantiate self k args) (run fuel) m c) :
    Serves c.machine.frames c.machine.frame ⟨k, m.heap.records.size⟩ := by
  simp only [instantiate_eq] at hf hc
  obtain ⟨ref, m₁, href, hc⟩ := hc.of_after
  replace hf := hf.after href
  obtain ⟨rfl, rfl⟩ := EStateM.Result.ok.inj href
  cases hempty : k.declaration.fields.isEmpty with
  | true =>
    rw [hempty] at hf hc
    exact calls_construct hf hc
  | false =>
    rw [hempty] at hf hc
    obtain ⟨m₂, hg, hheld⟩ := heldAt_bindThis ⟨k, m.heap.records.size⟩
      { m with heap := { m.heap with records := m.heap.records.push [] } }
    obtain ⟨g, m₂', hg', hc⟩ := hc.of_after
    obtain ⟨rfl, rfl⟩ := EStateM.Result.ok.inj (hg.symm.trans hg')
    replace hf := hf.after hg
    have hfields : Composed (fun _ => True) True True (fun _ => True) fun self =>
        initFields self m.frames.size m.heap.records.size k.declaration.fields :=
      initFields_composed trivial (fun _ => trivial) _ _ _
    obtain hc | ⟨u, m₃, hr, hc⟩ := hfields.calls_bind hc
    · obtain ⟨hto, -⟩ := hfields.later_calls hf.first hc
      rw [calls_initFields hc]
      exact .here ((hto.keeps trivial).held _ _ hheld)
    · exact calls_construct (hf.rest hfields hr) hc

end

end Evaluation

end ScopedScript
