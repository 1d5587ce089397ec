import ScopedScript.Proofs.Simulation.Rules

/-! # Tasks in lockstep

The evaluation of alike trees, on alike machines, goes alike.  `Sims R self self'` says that two
interpreters simulate each other on alike tasks.  If they do, so do the steps that leave the tasks
inside to them (`Sims.step`), whatever the task is; hence `run` with any bound simulates itself
(`Sims.run`), and so does a whole program (`Sims.runProgram`).

The proof goes by the kinds of tasks, with one lemma for each part of the evaluator.  What it
carries along is where it stands: an expression is evaluated in a frame that is aligned with what
surrounds the expression, and a statement that proceeds leaves the frame aligned with the
surroundings after the statement. -/

namespace ScopedScript

namespace Evaluation

open Eval

/-! ### Making an instance -/

/-- What follows the fields of a new instance: its constructor, if the class has one. -/
def construct (self : Interpreter) (i : Instance) (args : List Value) : Eval Value :=
  match i.cls.declaration.method? ClassDecl.constructorName with
  | some declaration => do
    let _ ← runMethod self (← bindMethod i declaration) args
    return .instance i
  | none => return .instance i

theorem instantiate_eq (self : Interpreter) (c : Class) (args : List Value) :
    instantiate self c args = (do
      let ref ← newRecord []
      if c.declaration.fields.isEmpty then construct self ⟨c, ref⟩ args
      else do
        let frame ← bindThis ⟨c, ref⟩
        initFields self frame ref c.declaration.fields
        construct self ⟨c, ref⟩ args) := by
  unfold instantiate construct
  cases c.declaration.fields.isEmpty <;> rfl

/-! ### Alike tasks -/

/-- The signals of two alike statements: when they proceed, the frame is aligned with `ctx`; they
leave a function only in one. -/
inductive Follows (R : Likeness) (f : FrameId) (ctx : Surroundings) (fr : Array Frame) :
    Signal → Signal → Prop
  | proceed : R.At fr f ctx → Follows R f ctx fr .proceed .proceed
  | returned {v v' : Value} : v.Alike R fr v' → (R.tracked → ctx.InFunction) →
      Follows R f ctx fr (.returned v) (.returned v')

theorem Follows.regions {R : Likeness} {f : FrameId} {ctx ctx' : Surroundings} {fr : Array Frame}
    {a b : Signal} (h : Follows R f ctx fr a b) (hr : ctx'.regions = ctx.regions)
    (hctx : R.At fr f ctx → R.At fr f ctx') : Follows R f ctx' fr a b := by
  cases h with
  | proceed h => exact .proceed (hctx h)
  | returned hv hin =>
    refine .returned hv fun ht => ?_
    unfold Surroundings.InFunction
    rw [hr]
    exact hin ht

/-- Tasks that are alike in the frame `f`, with the relation that their results are to have. -/
inductive Task.Alike (R : Likeness) (fr : Array Frame) (f : FrameId) :
    {α : Type} → Task α → Task α → (Array Frame → α → α → Prop) → Prop
  | expr {ctx : Surroundings} {e e' : Expr} : R.At fr f ctx →
      e.Alike R.toTreeLikeness ctx e' → Task.Alike R fr f (.expr e) (.expr e') (Value.Alike R)
  | property {v v' : Value} {t t' : Token} : v.Alike R fr v' → R.token t t' →
      Task.Alike R fr f (.property v t) (.property v' t') (Value.Alike R)
  | call {v v' : Value} {t t' : Token} {vs vs' : List Value} : v.Alike R fr v' → R.token t t' →
      List.Forall₂ (Value.Alike R fr) vs vs' →
      Task.Alike R fr f (.call v t vs) (.call v' t' vs') (Value.Alike R)
  | stmt {sure : Bool} {ctx : Surroundings} {s s' : Stmt} : R.At fr f ctx →
      s.Alike R.toTreeLikeness sure ctx s' →
      Task.Alike R fr f (.stmt s) (.stmt s') (Follows R f (s.after sure ctx))
  | loop {ctx : Surroundings} {e e' : Expr} {s s' : Stmt} {t t' : Token} : R.At fr f ctx →
      e.Alike R.toTreeLikeness ctx e' → s.Alike R.toTreeLikeness false ctx s' → R.token t t' →
      Task.Alike R fr f (.loop e s t) (.loop e' s' t') (Follows R f (s.after false ctx))

theorem Task.Alike.grow {R : Likeness} {fr fr' : Array Frame} {f : FrameId} {α : Type}
    {t t' : Task α} {post : Array Frame → α → α → Prop} (h : Task.Alike R fr f t t' post)
    (hg : R.Grows fr fr') : Task.Alike R fr' f t t' post := by
  cases h with
  | expr hctx he => exact .expr (hctx.grow hg) he
  | property hv ht => exact .property (hv.grow hg) ht
  | call hv ht hvs => exact .call (hv.grow hg) ht (values_grow hvs hg)
  | stmt hctx hs => exact .stmt (hctx.grow hg) hs
  | loop hctx he hs ht => exact .loop (hctx.grow hg) he hs ht

/-- The interpreters simulate each other on alike tasks. -/
def Sims (R : Likeness) (self self' : Interpreter) : Prop :=
  ∀ {α : Type} {fr : Array Frame} {f : FrameId} {t t' : Task α}
    {post : Array Frame → α → α → Prop},
    Task.Alike R fr f t t' post → Sim R fr f (self t) (self' t') post

section

variable {R : Likeness} {fr : Array Frame} {f : FrameId} {ctx : Surroundings}

/-! ### Operators -/

theorem liftAt_sim {t t' : Token} (ht : R.token t t') {r : Except RuntimeFault Value}
    (h : ∀ v, r = .ok v → v.Alike R fr v) :
    Sim R fr f (liftAt t r) (liftAt t' r) (Value.Alike R) := by
  cases r with
  | ok v => exact .pure fun _ hg => (h v rfl).grow hg
  | error fault => exact .raise ht fault

theorem numbers_congr {t t' : Token} (ht : R.token t t') {v v' w w' : Value}
    (hv : v.Alike R fr v') (hw : w.Alike R fr w') : numbers t' v' w' = numbers t v w := by
  have htoken : numbers t' v' w' = numbers t v' w' := by
    unfold numbers
    rw [R.lexeme_eq ht]
  rw [htoken]
  cases hv <;> cases hw <;> rfl

theorem add_congr {v v' w w' : Value} (hv : v.Alike R fr v') (hw : w.Alike R fr w') :
    add v' w' = add v w := by
  cases hv <;> cases hw <;> rfl

/-- A binary operator makes the same of alike values. -/
theorem applyBinary_congr {h h' : Heap} (hh : h.Alike R fr h') {t t' : Token}
    (ht : R.token t t') {v v' w w' : Value} (hv : v.Alike R fr v') (hw : w.Alike R fr w') :
    applyBinary h' t' v' w' = applyBinary h t v w := by
  unfold applyBinary
  rw [R.kind_eq ht, R.lexeme_eq ht, add_congr hv hw, numbers_congr ht hv hw, hv.equal hh hw]

theorem numbers_closed {t : Token} {v w u : Value} {k : Float × Float → Except RuntimeFault Value}
    (hk : ∀ p, k p = .ok u → u.Alike R fr u) (hu : numbers t v w >>= k = .ok u) :
    u.Alike R fr u := by
  cases hn : numbers t v w with
  | error fault =>
    rw [hn] at hu
    cases hu
  | ok p =>
    rw [hn] at hu
    exact hk p hu

/-- What an operator makes holds no trees. -/
theorem applyBinary_closed {h : Heap} {t : Token} {v w u : Value}
    (hu : applyBinary h t v w = .ok u) : u.Alike R fr u := by
  unfold applyBinary at hu
  split at hu
  · unfold add at hu
    split at hu <;> cases hu <;> constructor
  case h_4 =>
    refine numbers_closed (fun p hp => ?_) hu
    simp only [divide] at hp
    split at hp <;> cases hp
    constructor
  case h_9 | h_10 =>
    cases hu
    constructor
  case h_11 => cases hu
  all_goals
    refine numbers_closed (fun p hp => ?_) hu
    cases hp
    constructor

theorem applyUnary_congr {t t' : Token} (ht : R.token t t') {v v' : Value}
    (hv : v.Alike R fr v') : applyUnary t' v' = applyUnary t v := by
  have htype := hv.typeName
  unfold applyUnary
  rw [R.kind_eq ht]
  cases hv <;> first | rfl | split <;> simp_all

theorem applyUnary_closed {t : Token} {v u : Value} (hu : applyUnary t v = .ok u) :
    u.Alike R fr u := by
  unfold applyUnary at hu
  split at hu <;> cases hu <;> constructor

/-! ### Lists, objects and instances -/

theorem position_sim {t t' : Token} (ht : R.name t t') {v v' : Value} (hv : v.Alike R fr v') :
    Sim R fr f (position t v) (position t' v') (fun _ a b => b = a) := by
  have hraise : Sim R fr f
      (do raise t (.indexNotWhole (← inspect fun m => v.text m.heap)) : Eval (Option Nat))
      (do raise t' (.indexNotWhole (← inspect fun m => v'.text m.heap)) : Eval (Option Nat))
      (fun _ a b => b = a) := by
    refine .bind (P := fun _ a b => b = a) (.inspect fun m m' hm hfr _ => ?_) ?_
    · exact Value.Alike.text hm.heap (hv.grow hfr)
    · rintro fr₁ _ shown _ rfl
      exact .raiseNamed ht (.indexNotWhole shown)
  cases hv with
  | num x =>
    simp only [position]
    cases Number.position? x with
    | some p => exact .pure fun _ _ => rfl
    | none => exact .raiseNamed ht (.indexNotWhole (Number.text x))
  | _ => exact hraise

theorem readElement_sim {t t' : Token} (ht : R.name t t') {v v' w w' : Value}
    (hv : v.Alike R fr v') (hw : w.Alike R fr w') :
    Sim R fr f (readElement t v w) (readElement t' v' w') (Value.Alike R) := by
  have htype := hv.typeName
  have hraise : Sim R fr f (raise t (.notIndexable t.lexeme v.typeName))
      (raise t' (.notIndexable t'.lexeme v'.typeName)) (Value.Alike R) := by
    rw [htype]
    exact .raiseNamed ht (.notIndexable "" v.typeName)
  cases hv with
  | list ref =>
    refine .bind (position_sim ht hw) ?_
    rintro fr₁ _ place hg rfl
    cases place with
    | none => exact .pure fun _ _ => .undefined
    | some i => exact .inspect fun m m' hm _ _ => (hm.heap.elements ref).getD i .undefined
  | _ => exact hraise

theorem writeElement_sim {t t' : Token} (ht : R.name t t') {v v' w w' u u' : Value}
    (hv : v.Alike R fr v') (hw : w.Alike R fr w') (hu : u.Alike R fr u') :
    Sim R fr f (writeElement t v w u) (writeElement t' v' w' u') (fun _ _ _ => True) := by
  have htype := hv.typeName
  have hraise : Sim R fr f (raise t (.notAssignable t.lexeme v.typeName) : Eval Unit)
      (raise t' (.notAssignable t'.lexeme v'.typeName) : Eval Unit) (fun _ _ _ => True) := by
    rw [htype]
    exact .raiseNamed ht (.notAssignable "" v.typeName)
  cases hv with
  | list ref =>
    refine .bind (position_sim ht hw) ?_
    rintro fr₁ _ place hg rfl
    refine .bind (P := fun _ a b => b = a)
      (.inspect fun m m' hm _ _ => (hm.heap.elements ref).size_eq) ?_
    rintro fr₂ _ length hg₂ rfl
    cases place.filter (· < length) with
    | some i =>
      refine .update fun m m' hm hfr hf => ⟨hm.withHeap ⟨?_, hm.heap.records⟩, .refl _, hf⟩
      have hu₁ := hu.grow (hg.trans (hg₂.trans hfr))
      exact hm.heap.lists.modify ref fun xs ys _ hxs => hxs.setIfInBounds i hu₁
    | none =>
      refine .bind (P := fun _ a b => b = a) (.inspect fun m m' hm hfr _ => ?_) ?_
      · exact Value.Alike.text hm.heap (hw.grow (hg.trans (hg₂.trans hfr)))
      · rintro fr₃ _ shown _ rfl
        exact .raiseNamed ht (.indexOutOfBounds shown "" length)
  | _ => exact hraise

theorem writeRecord_sim (ref : Ref) (name : String) {v v' : Value} (hv : v.Alike R fr v') :
    Sim R fr f (writeRecord ref name v) (writeRecord ref name v') (fun _ _ _ => True) := by
  refine .update fun m m' hm hfr hf => ⟨hm.withHeap ⟨hm.heap.lists, ?_⟩, .refl _, hf⟩
  exact hm.heap.records.modify ref fun r r' _ hr =>
    hr.set Function.injective_id name (hv.grow hfr)

theorem fieldsOf_sim {t t' : Token} (ht : R.token t t') {v v' : Value} (hv : v.Alike R fr v') :
    Sim R fr f (fieldsOf t v) (fieldsOf t' v') (fun _ a b => b = a) := by
  have htype := hv.typeName
  have hraise : Sim R fr f (raise t (.noFields v.typeName) : Eval Ref)
      (raise t' (.noFields v'.typeName) : Eval Ref) (fun _ a b => b = a) := by
    rw [htype]
    exact .raise ht _
  cases hv with
  | object ref => exact .pure fun _ _ => rfl
  | «instance» hi => exact .pure fun _ _ => hi.fields
  | _ => exact hraise

/-- The frame in which `this` is an instance is aligned with what surrounds the members of the
class. -/
theorem bindThis_sim {i i' : Instance} (hi : i.Alike R fr i') :
    Sim R fr f (bindThis i) (bindThis i') (fun fr₁ g g' => g' = g ∧ HeldAt fr₁ g i ∧
      ∀ ctx, R.At fr i.cls.frame ctx → R.At fr₁ g (ctx.enterClass i.cls.declaration)) := by
  unfold bindThis
  rw [hi.cls.frame]
  have hvars : Record.Alike R fr (R.renamed (.receiver i.cls.declaration))
      [("this", .instance i)] [("this", .instance i')] :=
    .cons ⟨(R.receiver _).symm, .instance hi⟩ .nil
  refine (Sim.newFrame _ _ _ (fun _ => .receiver i) hvars).weaken ?_
  rintro fr₁ _ g hg ⟨rfl, hframe⟩
  refine ⟨rfl, ⟨_, hframe, Frame.holds_receiver i⟩, fun ctx hctx ht => ?_⟩
  refine ((hctx.grow hg) ht).enterClass hframe ?_
  simp [Record.has, Record.get?_cons]

theorem bindMethod_sim {i i' : Instance} (hi : i.Alike R fr i') {d d' : FunctionDecl}
    (hctx : R.At fr i.cls.frame ctx)
    (hd : d.Alike R.toTreeLikeness (ctx.enterClass i.cls.declaration) d') :
    Sim R fr f (bindMethod i d) (bindMethod i' d')
      (fun fr₁ b b' => b.Alike R fr₁ b' ∧ b.declaration = d) := by
  refine .bind (bindThis_sim hi) ?_
  rintro fr₁ _ g hg ⟨rfl, hheld, hg₁⟩
  refine .bind Sim.newIdentity ?_
  rintro fr₂ _ n hg₂ rfl
  refine .pure fun fr₃ hg₃ => ⟨⟨rfl, rfl, hi.grow (hg.trans (hg₂.trans hg₃)), ?_, ?_⟩, rfl⟩
  · exact fun hw => ((hg₂.trans hg₃).keeps hw).held _ _ hheld
  · exact ⟨_, (hg₁ ctx hctx).grow (hg₂.trans hg₃), hd⟩

theorem instanceProperty_sim {i i' : Instance} (hi : i.Alike R fr i') {t t' : Token}
    (ht : R.token t t') :
    Sim R fr f (instanceProperty i t) (instanceProperty i' t') (Value.Alike R) := by
  unfold instanceProperty
  rw [R.lexeme_eq ht, hi.fields]
  refine .bind (P := fun fr₁ => Option.Rel (Value.Alike R fr₁))
    (.inspect fun m m' hm _ _ => (hm.heap.record _).get? Function.injective_id _)
    fun fr₁ a b hg hab => ?_
  cases hab with
  | some hv => exact .pure fun _ hg₁ => hv.grow hg₁
  | none =>
    obtain ⟨ctx, hctx, hc⟩ := hi.cls.declaration
    have hm := hc.method? t.lexeme
    dsimp only
    generalize i.cls.declaration.method? t.lexeme = d, i'.cls.declaration.method? t.lexeme = d'
      at hm
    cases hm with
    | none => exact .raise ht _
    | some hd =>
      refine .bind (bindMethod_sim (hi.grow hg) (hctx.grow hg) hd) fun fr₂ b b' _ hb => ?_
      exact .pure fun _ hg₂ => (Value.Alike.method hb.1).grow hg₂

theorem objectProperty_sim (ref : Ref) {t t' : Token} (ht : R.token t t') :
    Sim R fr f (objectProperty ref t) (objectProperty ref t') (Value.Alike R) := by
  unfold objectProperty
  rw [R.lexeme_eq ht]
  refine .bind (P := fun fr₁ => Option.Rel (Value.Alike R fr₁))
    (.inspect fun m m' hm _ _ => (hm.heap.record _).get? Function.injective_id _)
    fun fr₁ a b hg hab => ?_
  exact (Sim.orRaise (.raise ht _) hab).weaken fun _ _ _ hg₁ hv => hv.grow hg₁

theorem globalClass?_rel {m m' : Machine} (hm : m.Alike R m') (name : String) :
    Option.Rel (Class.Alike R m.frames) (globalClass? m name) (globalClass? m' name) := by
  have hv := hm.get? fun _ hframe => hm.globalName hframe name
  unfold globalClass?
  generalize (m.vars Machine.globalFrame).get? name = a,
    (m'.vars Machine.globalFrame).get? name = b at hv
  cases hv with
  | none => exact .none
  | some hv =>
    cases hv with
    | cls hc => exact .some hc
    | _ => exact .none

/-- Binding parameters: all of them are in the record in the end, if there are enough values. -/
theorem bindParameters_sim {renamed : String → String} (hinj : Function.Injective renamed)
    (hsame : ¬R.spelled → ∀ x, renamed x = x) {ps ps' : List Parameter}
    (hps : List.Forall₂ (Parameter.Alike R.toTreeLikeness) ps ps')
    (hnames : List.Forall₂ (fun p p' => p'.name = renamed p.name) ps ps') {vs vs' : List Value}
    (hvs : List.Forall₂ (Value.Alike R fr) vs vs') (hlen : ps.length = vs.length)
    {r r' : Record Value} (hr : Record.Alike R fr renamed r r') :
    Sim R fr f (bindParameters ps vs r) (bindParameters ps' vs' r') (fun fr₁ a b =>
      Record.Alike R fr₁ renamed a b ∧ (∀ x, r.has x = true → a.has x = true) ∧
        (R.spelled → ∀ p ∈ ps, a.has p.left.lexeme = true)) := by
  induction hps generalizing vs vs' r r' with
  | nil =>
    cases hvs with
    | nil => exact .pure fun _ hg => ⟨hr.grow hg, fun _ hx => hx, by simp⟩
    | cons _ _ => simp at hlen
  | @cons p p' ps ps' hp _ ih =>
    cases hvs with
    | nil => simp at hlen
    | @cons v v' vs vs' hv hvs =>
      obtain ⟨hname, hnames⟩ := List.forall₂_cons.1 hnames
      simp only [bindParameters]
      rw [hname, hr.has hinj]
      split
      · by_cases hs : R.spelled
        · rw [← hname, hp.spelled hs, hp.spelled' hs]
          exact .raiseNamed hp.left (.parameterDeclared "")
        · rw [hsame hs]
          exact .raise ((R.unspelled hs).1 hp.left) _
      · refine (ih hnames hvs (by simpa using hlen) (hr.set hinj p.name hv)).weaken ?_
        rintro fr₁ a b _ ⟨hab, hkeep, hmore⟩
        refine ⟨hab, fun x hx => hkeep x (Record.has_set_of_has _ _ hx), ?_⟩
        rintro hs q hq
        rcases List.mem_cons.1 hq with rfl | hq
        · exact hkeep _ (hp.spelled hs ▸ Record.has_set_self _ _ _)
        · exact hmore hs q hq

/-! ### Natives -/

theorem readLine_sim {t t' : Token} (ht : R.token t t') :
    Sim R fr f (readLine t) (readLine t') (Value.Alike R) := by
  refine .bind (.inspect_eq (g := fun m => splitLine m.input) fun m m' hm => ?_) ?_
  · rw [hm.input]
  rintro fr₁ _ ⟨line, rest⟩ _ rfl
  refine .bind (.update fun m m' hm _ hf => ⟨hm.withInput rest, .refl _, hf⟩) ?_
  rintro fr₂ - - - -
  cases decodeText? line with
  | none => exact .raise ht _
  | some text =>
    refine .pure fun _ _ => ?_
    split
    · exact .undefined
    · exact .str _

theorem printLine_sim {t t' : Token} (ht : R.token t t') (text : String) :
    Sim R fr f (printLine t text) (printLine t' text) (Value.Alike R) := by
  have hfeed : Sim R fr f (do write t "\n"; return Value.undefined)
      (do write t' "\n"; return Value.undefined) (Value.Alike R) :=
    .bind (.write ht _) fun _ _ _ _ _ => .pure fun _ _ => .undefined
  simp only [printLine]
  split
  · exact .bind (.write ht _) fun _ _ _ hg _ => hfeed.grow hg
  · exact hfeed

theorem lengthOf_sim {t t' : Token} (ht : R.token t t') {v v' : Value} (hv : v.Alike R fr v') :
    Sim R fr f (lengthOf t v) (lengthOf t' v') (Value.Alike R) := by
  have htype := hv.typeName
  have hraise : Sim R fr f (raise t (.lenNeedsSequence v.typeName))
      (raise t' (.lenNeedsSequence v'.typeName)) (Value.Alike R) := by
    rw [htype]
    exact .raise ht _
  cases hv with
  | list ref =>
    refine .bind (.inspect_eq fun m m' hm => (hm.heap.elements ref).size_eq) ?_
    rintro fr₁ _ n _ rfl
    exact .pure fun _ _ => .num _
  | str s => exact .pure fun _ _ => .num _
  | _ => exact hraise

theorem pushElement_sim {t t' : Token} (ht : R.token t t') {v v' w w' : Value}
    (hv : v.Alike R fr v') (hw : w.Alike R fr w') :
    Sim R fr f (pushElement t v w) (pushElement t' v' w') (Value.Alike R) := by
  have htype := hv.typeName
  have hraise : Sim R fr f (raise t (.pushNeedsList v.typeName))
      (raise t' (.pushNeedsList v'.typeName)) (Value.Alike R) := by
    rw [htype]
    exact .raise ht _
  cases hv with
  | list ref =>
    refine .bind (.update fun m m' hm hfr hf => ⟨hm.withHeap ⟨?_, hm.heap.records⟩, .refl _, hf⟩)
      fun fr₁ _ _ _ _ => lengthOf_sim ht (.list ref)
    exact hm.heap.lists.modify ref fun xs ys _ hxs => hxs.push (hw.grow hfr)
  | _ => exact hraise

theorem readClock_sim {t t' : Token} (ht : R.token t t') :
    Sim R fr f (readClock t) (readClock t') (Value.Alike R) := by
  refine .bind (.inspect_eq (g := fun m => m.clock m.ticks) fun m m' hm => ?_) ?_
  · rw [hm.clock, hm.ticks]
  rintro fr₁ _ reading _ rfl
  refine .bind (.update fun m m' hm _ hf => ⟨?_, .refl _, hf⟩) ?_
  · rw [hm.ticks]
    exact hm.withTicks _
  rintro fr₂ - - - -
  cases reading with
  | none => exact .raise ht _
  | some x => exact .pure fun _ _ => .num _

theorem deliver_sim {a a' : HostAnswer}
    (h : a.Related (Value.Alike R fr) R.reported a') :
    Sim R fr f (deliver a) (deliver a') (Value.Alike R) := by
  intro m m' hm hfr hf
  cases h with
  | value hv hh =>
    exact .ok (hm.withHeap ((Heap.alike_iff_related.2 hh).grow hfr)) (.refl _) hf (hv.grow hfr)
  | error message ht hh =>
    exact .error (hm.withHeap ((Heap.alike_iff_related.2 hh).grow hfr)) (.refl _) hf
      (.reported message ht)

/-- A function of the host, which cannot tell alike values apart. -/
theorem callHost_sim (index : Nat) {v v' : Value} (hv : v.Alike R fr v') {t t' : Token}
    (ht : R.token t t') {vs vs' : List Value} (hvs : List.Forall₂ (Value.Alike R fr) vs vs') :
    Sim R fr f (callHost index v t vs) (callHost index v' t' vs') (Value.Alike R) := by
  refine .bind (P := fun _ a b => b = a ∧ ∀ host, a = some host → host.Respects R.token R.reported)
    (.inspect fun m m' hm _ _ => ⟨by rw [hm.hosts], fun host hhost =>
      hm.fits host (Array.mem_of_getElem? hhost)⟩) ?_
  rintro fr₁ _ host hg ⟨rfl, hfits⟩
  cases host with
  | none => exact .pure fun _ _ => .undefined
  | some host =>
    exact .bind (.inspect fun m m' hm hfr _ => (hfits host rfl).related
      (Value.alike_indiscernible R m.frames) ht (hv.grow (hg.trans hfr))
      (values_grow hvs (hg.trans hfr)) (Heap.alike_iff_related.1 hm.heap))
      fun fr₂ a a' _ ha => deliver_sim ha

/-- A native that holds no value of its own. -/
theorem runNative_sim {action : NativeAction} (hp : action.isPlain = true) {t t' : Token}
    (ht : R.token t t') {vs vs' : List Value} (hvs : List.Forall₂ (Value.Alike R fr) vs vs') :
    Sim R fr f (runNative action t vs) (runNative action t' vs') (Value.Alike R) := by
  have hdefault : Sim R fr f (pure Value.undefined) (pure Value.undefined) (Value.Alike R) :=
    .pure fun _ _ => .undefined
  cases action with
  | host index v => cases hp
  | map => cases hvs <;> exact hdefault
  | print =>
    cases hvs with
    | nil => exact hdefault
    | cons hv _ =>
      refine .bind (P := fun _ a b => b = a)
        (.inspect fun m m' hm hfr _ => Value.Alike.text hm.heap (hv.grow hfr)) ?_
      rintro fr₁ _ text _ rfl
      exact printLine_sim ht text
  | readLine => cases hvs <;> exact readLine_sim ht
  | len =>
    cases hvs with
    | nil => exact hdefault
    | cons hv _ => exact lengthOf_sim ht hv
  | push =>
    cases hvs with
    | nil => exact hdefault
    | cons hv hvs =>
      cases hvs with
      | nil => exact hdefault
      | cons hw _ => exact pushElement_sim ht hv hw
  | clock => cases hvs <;> exact readClock_sim ht

end

/-! ### Expressions -/

namespace Sims

variable {R : Likeness} {self self' : Interpreter} (hself : Sims R self self')
variable {fr : Array Frame} {f : FrameId} {ctx : Surroundings}

include hself

theorem evalExprs (hctx : R.At fr f ctx) {es es' : List Expr}
    (hes : List.Forall₂ (Expr.Alike R.toTreeLikeness ctx) es es') :
    Sim R fr f (evalExprs self es) (evalExprs self' es')
      (fun fr₁ => List.Forall₂ (Value.Alike R fr₁)) := by
  induction hes generalizing fr with
  | nil => exact .pure fun _ _ => .nil
  | cons he _ ih =>
    refine .bind (hself (.expr hctx he)) fun fr₁ v v' hg hv => ?_
    refine .bind (ih (hctx.grow hg)) fun fr₂ vs vs' hg₂ hvs => ?_
    exact .pure fun fr₃ hg₃ => .cons (hv.grow (hg₂.trans hg₃)) (values_grow hvs hg₃)

theorem evalEntries (hctx : R.At fr f ctx) {es es' : List Entry}
    (hes : entriesAlike R.toTreeLikeness ctx es es') :
    Sim R fr f (evalEntries self es) (evalEntries self' es') (fun fr₁ => Record.Alike R fr₁ id) := by
  induction es generalizing fr es' with
  | nil =>
    subst hes
    exact .pure fun _ _ => .nil
  | cons entry es ih =>
    obtain ⟨key, value⟩ := entry
    obtain ⟨key', value', ds, rfl, ht, hv, hds⟩ := hes
    refine .bind (hself (.expr hctx hv)) fun fr₁ v v' hg hv => ?_
    refine .bind (ih (hctx.grow hg) hds) fun fr₂ r r' hg₂ hr => ?_
    exact .pure fun fr₃ hg₃ => .cons ⟨R.lexeme_eq ht, hv.grow (hg₂.trans hg₃)⟩ (hr.grow hg₃)

theorem evalBinary (hctx : R.At fr f ctx) {left left' right right' : Expr} {t t' : Token}
    (hl : left.Alike R.toTreeLikeness ctx left') (ht : R.token t t')
    (hr : right.Alike R.toTreeLikeness ctx right') :
    Sim R fr f (evalBinary self left t right) (evalBinary self' left' t' right')
      (Value.Alike R) := by
  refine .bind (hself (.expr hctx hl)) fun fr₁ v v' hg hv => ?_
  refine .bind (hself (.expr (hctx.grow hg) hr)) fun fr₂ w w' hg₂ hw => ?_
  refine .bind (P := fun fr₃ a b => b = a ∧ ∀ u, a = .ok u → u.Alike R fr₃ u)
    (.inspect fun m m' hm hfr _ => ⟨?_, fun u => applyBinary_closed⟩) ?_
  · exact applyBinary_congr hm.heap ht (hv.grow (hg₂.trans hfr)) (hw.grow hfr)
  · rintro fr₃ _ r _ ⟨rfl, hr⟩
    exact liftAt_sim ht hr

omit hself in
theorem logicalOperand {t t' : Token} (ht : R.token t t') {v v' : Value}
    (hv : v.Alike R fr v') :
    Sim R fr f (logicalOperand t v) (logicalOperand t' v') (fun _ a b => b = a) := by
  have htype := hv.typeName
  have hraise : Sim R fr f (raise t (.booleanOperand t.lexeme v.typeName) : Eval Bool)
      (raise t' (.booleanOperand t'.lexeme v'.typeName) : Eval Bool) (fun _ a b => b = a) := by
    rw [R.lexeme_eq ht, htype]
    exact .raise ht _
  cases hv with
  | bool b => exact .pure fun _ _ => rfl
  | _ => exact hraise

theorem evalLogical (hctx : R.At fr f ctx) {left left' right right' : Expr} {t t' : Token}
    (hl : left.Alike R.toTreeLikeness ctx left') (ht : R.token t t')
    (hr : right.Alike R.toTreeLikeness ctx right') :
    Sim R fr f (evalLogical self left t right) (evalLogical self' left' t' right')
      (Value.Alike R) := by
  refine .bind (hself (.expr hctx hl)) fun fr₁ v v' hg hv => ?_
  refine .bind (logicalOperand ht hv) ?_
  rintro fr₂ _ b hg₂ rfl
  have hdec : decides t' b = decides t b := by
    unfold decides
    rw [R.kind_eq ht]
  rw [hdec]
  split
  · exact .pure fun _ _ => .bool b
  · refine .bind (hself (.expr (hctx.grow (hg.trans hg₂)) hr)) fun fr₃ w w' hg₃ hw => ?_
    refine .bind (logicalOperand ht hw) ?_
    rintro fr₄ _ c hg₄ rfl
    exact .pure fun _ _ => .bool c

theorem evalUnary (hctx : R.At fr f ctx) {operand operand' : Expr} {t t' : Token}
    (ht : R.token t t') (ho : operand.Alike R.toTreeLikeness ctx operand') :
    Sim R fr f (evalUnary self t operand) (evalUnary self' t' operand') (Value.Alike R) := by
  refine .bind (hself (.expr hctx ho)) fun fr₁ v v' hg hv => ?_
  rw [applyUnary_congr ht hv]
  exact liftAt_sim ht fun u => applyUnary_closed

theorem evalLiteral (hctx : R.At fr f ctx) {v v' : LiteralValue}
    (hv : v.Alike R.toTreeLikeness ctx v') :
    Sim R fr f (evalLiteral self v) (evalLiteral self' v') (Value.Alike R) := by
  cases v with
  | list elements =>
    obtain ⟨elements', rfl, hes⟩ := hv
    refine .bind (hself.evalExprs hctx (exprsAlike_iff.1 hes)) fun fr₁ vs vs' _ hvs => ?_
    exact .newList hvs
  | emptyObject =>
    cases hv
    refine .bind (.newRecord .nil) ?_
    rintro fr₁ _ ref _ rfl
    exact .pure fun _ _ => .object ref
  | num x =>
    cases hv
    exact .pure fun _ _ => .num x
  | str s =>
    cases hv
    exact .pure fun _ _ => .str s
  | bool b =>
    cases hv
    exact .pure fun _ _ => .bool b
  | null =>
    cases hv
    exact .pure fun _ _ => .null
  | undefined =>
    cases hv
    exact .pure fun _ _ => .undefined

theorem evalObject (hctx : R.At fr f ctx) {es es' : List Entry}
    (hes : entriesAlike R.toTreeLikeness ctx es es') :
    Sim R fr f (evalObject self es) (evalObject self' es') (Value.Alike R) := by
  refine .bind (hself.evalEntries hctx hes) fun fr₁ r r' hg hr => ?_
  refine .bind (.newRecord hr) ?_
  rintro fr₂ _ ref _ rfl
  exact .pure fun _ _ => .object ref

omit hself in
theorem evalFunction (hctx : R.At fr f ctx) {d d' : FunctionDecl}
    (hd : d.Alike R.toTreeLikeness ctx d') :
    Sim R fr f (evalFunction d) (evalFunction d') (Value.Alike R) := by
  refine .bind .newIdentity ?_
  rintro fr₁ _ n hg rfl
  refine .bind .frame ?_
  rintro fr₂ _ _ hg₂ ⟨rfl, rfl⟩
  refine .pure fun fr₃ hg₃ => .function ⟨rfl, rfl, rfl, ctx, ?_, hd⟩
  exact hctx.grow (hg.trans (hg₂.trans hg₃))

theorem evalCall (hctx : R.At fr f ctx) {callee callee' : Expr} {t t' : Token}
    {args args' : List Expr} (hc : callee.Alike R.toTreeLikeness ctx callee')
    (ht : R.token t t') (ha : exprsAlike R.toTreeLikeness ctx args args') :
    Sim R fr f (evalCall self callee t args) (evalCall self' callee' t' args')
      (Value.Alike R) := by
  refine .bind (hself (.expr hctx hc)) fun fr₁ v v' hg hv => ?_
  refine .bind (hself.evalExprs (hctx.grow hg) (exprsAlike_iff.1 ha)) fun fr₂ vs vs' hg₂ hvs => ?_
  exact hself (.call (hv.grow hg₂) ht hvs)

theorem evalGet (hctx : R.At fr f ctx) {object object' : Expr} {t t' : Token}
    (ho : object.Alike R.toTreeLikeness ctx object') (ht : R.token t t') :
    Sim R fr f (evalGet self object t) (evalGet self' object' t') (Value.Alike R) :=
  .bind (hself (.expr hctx ho)) fun _ _ _ _ hv => hself (.property hv ht)

theorem evalSet (hctx : R.At fr f ctx) {object object' value value' : Expr} {t t' : Token}
    (ho : object.Alike R.toTreeLikeness ctx object') (ht : R.token t t')
    (hv : value.Alike R.toTreeLikeness ctx value') :
    Sim R fr f (evalSet self object t value) (evalSet self' object' t' value')
      (Value.Alike R) := by
  refine .bind (hself (.expr hctx ho)) fun fr₁ o o' hg ho => ?_
  refine .bind (fieldsOf_sim ht ho) ?_
  rintro fr₂ _ ref hg₂ rfl
  refine .bind (hself (.expr (hctx.grow (hg.trans hg₂)) hv)) fun fr₃ v v' hg₃ hv => ?_
  rw [R.lexeme_eq ht]
  refine .bind (writeRecord_sim ref _ hv) fun fr₄ _ _ hg₄ _ => ?_
  exact .pure fun _ hg₅ => hv.grow (hg₄.trans hg₅)

/-- The case of an expression. -/
theorem evalExpr (hctx : R.At fr f ctx) {e e' : Expr} (he : e.Alike R.toTreeLikeness ctx e') :
    Sim R fr f (evalExpr self e) (evalExpr self' e') (Value.Alike R) := by
  cases e with
  | grouping inner =>
    obtain ⟨_, inner', rfl, hi⟩ := he
    exact hself (.expr hctx hi)
  | binary left operator right =>
    obtain ⟨_, left', operator', right', rfl, ht, hl, hr⟩ := he
    have hlog : isLogical operator' = isLogical operator := by
      unfold isLogical
      rw [R.kind_eq ht]
    simp only [Evaluation.evalExpr, hlog]
    split
    · exact hself.evalLogical hctx hl ht hr
    · exact hself.evalBinary hctx hl ht hr
  | unary operator operand =>
    obtain ⟨_, operator', operand', rfl, ht, ho⟩ := he
    exact hself.evalUnary hctx ht ho
  | literal kind value =>
    obtain ⟨_, value', rfl, hv⟩ := he
    exact hself.evalLiteral hctx hv
  | name id token =>
    obtain ⟨hn, id', token', rfl, ht⟩ := he
    exact .readVariable hctx hn rfl rfl ht
  | this id keyword =>
    obtain ⟨hn, id', keyword', rfl, ht⟩ := he
    exact .readVariable hctx hn rfl rfl ht
  | function token declaration =>
    obtain ⟨_, token', declaration', rfl, _, hd⟩ := he
    exact evalFunction hctx hd
  | call callee paren args =>
    obtain ⟨_, callee', paren', args', rfl, ht, hc, ha⟩ := he
    exact hself.evalCall hctx hc ht ha
  | index id name index =>
    obtain ⟨hn, id', name', index', rfl, ht, hi⟩ := he
    refine .bind (.readVariable hctx hn rfl rfl ht) fun fr₁ v v' hg hv => ?_
    refine .bind (hself (.expr (hctx.grow hg) hi)) fun fr₂ w w' hg₂ hw => ?_
    exact readElement_sim ht (hv.grow hg₂) hw
  | get object name =>
    obtain ⟨_, object', name', rfl, ht, ho⟩ := he
    exact hself.evalGet hctx ho ht
  | set object name value =>
    obtain ⟨_, object', name', value', rfl, ht, ho, hv⟩ := he
    exact hself.evalSet hctx ho ht hv
  | object brace entries =>
    obtain ⟨_, brace', entries', rfl, _, hes⟩ := he
    exact hself.evalObject hctx hes
  | assign id name value =>
    obtain ⟨hn, id', name', value', rfl, ht, hv⟩ := he
    have hthis : R.watched → name.lexeme ≠ "this" := fun hw => (R.spares hn hw).assigns _ _ _ rfl
    refine .bind (hself (.expr hctx hv)) fun fr₁ v v' hg hv => ?_
    refine .bind (.writeVariable (hctx.grow hg) hn rfl rfl ht hthis hv) fun fr₂ _ _ hg₂ _ => ?_
    exact .pure fun _ hg₃ => hv.grow (hg₂.trans hg₃)

/-- Reading a property of a value through an instance made from it. -/
theorem wrapped {v : Value} (hv : v.Alike R fr v) {t t' : Token} (ht : R.token t t')
    (wrapper : String) : Sim R fr f
      (do match ← inspect (globalClass? · wrapper) with
        | none => raise t (.noWrapper t.lexeme v.typeName wrapper)
        | some c => self (.property (← self (.call (.cls c) t [v])) t))
      (do match ← inspect (globalClass? · wrapper) with
        | none => raise t' (.noWrapper t'.lexeme v.typeName wrapper)
        | some c => self' (.property (← self' (.call (.cls c) t' [v])) t')) (Value.Alike R) := by
  refine .bind (P := fun fr₁ => Option.Rel (Class.Alike R fr₁))
    (.inspect fun m m' hm _ _ => globalClass?_rel hm wrapper) fun fr₁ a b hg hab => ?_
  cases hab with
  | none =>
    simp only [R.lexeme_eq ht]
    exact .raise ht _
  | some hc =>
    refine .bind (hself (.call (.cls hc) ht (.cons (hv.grow hg) .nil))) fun fr₂ w w' _ hw => ?_
    exact hself (.property hw ht)

/-- The case of a property. -/
theorem property {v v' : Value} (hv : v.Alike R fr v') {t t' : Token} (ht : R.token t t') :
    Sim R fr f (property self v t) (property self' v' t') (Value.Alike R) := by
  have htype := hv.typeName
  have hraise : Sim R fr f (raise t (.noProperties v.typeName))
      (raise t' (.noProperties v'.typeName)) (Value.Alike R) := by
    rw [htype]
    exact .raise ht _
  cases hv with
  | «instance» hi => exact instanceProperty_sim hi ht
  | object ref => exact objectProperty_sim ref ht
  | list ref => exact hself.wrapped (.list ref) ht "Array"
  | str s => exact hself.wrapped (.str s) ht "String"
  | _ => exact hraise

/-! ### Statements -/

theorem execAll {sure : Bool} (hctx : R.At fr f ctx) {ss ss' : List Stmt}
    (hss : stmtsAlike R.toTreeLikeness sure ctx ss ss') :
    Sim R fr f (execAll self ss) (execAll self' ss') (Follows R f (stmtsAfter sure ctx ss)) := by
  induction ss generalizing fr ctx ss' with
  | nil =>
    subst hss
    exact .pure fun _ hg => .proceed (hctx.grow hg)
  | cons s ss ih =>
    obtain ⟨t, ts, rfl, ht, hts⟩ := hss
    refine .bind (hself (.stmt hctx ht)) fun fr₁ a b hg hab => ?_
    cases hab with
    | returned hv hin =>
      refine .pure fun _ hg₁ => .returned (hv.grow hg₁) fun ht => ?_
      obtain ⟨d, hd⟩ := hin ht
      refine ⟨d, ?_⟩
      rwa [stmtsAfter, (stmtsAfter_extends _ _ _).regions]
    | proceed hctx₁ => exact ih hctx₁ hts

theorem execBlock (hctx : R.At fr f ctx) {ss ss' : List Stmt}
    (hss : stmtsAlike R.toTreeLikeness true (ctx.enterBlock ss) ss ss') :
    Sim R fr f (execBlock self ss) (execBlock self' ss') (Follows R f ctx) := by
  refine .bind .frame ?_
  rintro fr₁ _ _ hg ⟨rfl, rfl⟩
  refine .bind (.newFrame _ _ _ (fun _ _ h => by cases h) .nil) ?_
  rintro fr₂ _ g hg₂ ⟨rfl, hframe⟩
  have hctx₂ := hctx.grow (hg.trans hg₂)
  have hin : R.At fr₂ g (ctx.enterBlock ss) := fun ht => (hctx₂ ht).enterBlock hframe
  refine (Sim.inFrame (hself.execAll hin hss)).weaken fun fr₃ a b hg₃ hab => ?_
  cases hab with
  | proceed _ => exact .proceed (hctx₂.grow hg₃)
  | returned hv hret =>
    refine .returned hv fun ht => ?_
    obtain ⟨d, hd⟩ := hret ht
    rw [(stmtsAfter_extends _ _ _).regions] at hd
    exact ⟨d, by simpa [Surroundings.regions, Surroundings.enterBlock] using hd⟩

omit hself in
theorem evalInit_of_ne (self : Interpreter) {s : Stmt} (h : ∀ e t, s ≠ .expression e t) :
    Evaluation.evalInit self (some s) =
      (do let _ ← self (.stmt s); return Value.undefined) := by
  cases s with
  | expression e t => exact absurd rfl (h e t)
  | _ => rfl

theorem evalInit {sure : Bool} (hctx : R.At fr f ctx) {o o' : Option Stmt}
    (ho : optionAlike R.toTreeLikeness sure ctx o o') :
    Sim R fr f (evalInit self o) (evalInit self' o') (Value.Alike R) := by
  cases o with
  | none =>
    cases ho
    exact .pure fun _ _ => .undefined
  | some s =>
    obtain ⟨s', rfl, hs⟩ := ho
    obtain ⟨e, t, e', t', rfl, rfl, he⟩ | ⟨hne, hne'⟩ := hs.expression_or
    · exact hself (.expr hctx he)
    · rw [evalInit_of_ne self hne, evalInit_of_ne self' hne']
      exact .bind (hself (.stmt hctx hs)) fun _ _ _ _ _ => .pure fun _ _ => .undefined

omit hself in
theorem execReturn_of_ne (self : Interpreter) {s : Stmt} (h : ∀ e t, s ≠ .expression e t) :
    Evaluation.execReturn self s = pure (.returned .undefined) := by
  cases s with
  | expression e t => exact absurd rfl (h e t)
  | _ => rfl

theorem execReturn {sure : Bool} (hctx : R.At fr f ctx) {s s' : Stmt}
    (hs : s.Alike R.toTreeLikeness sure ctx s') {ctx₁ : Surroundings}
    (hin : R.tracked → ctx₁.InFunction) :
    Sim R fr f (execReturn self s) (execReturn self' s') (Follows R f ctx₁) := by
  obtain ⟨e, t, e', t', rfl, rfl, he⟩ | ⟨hne, hne'⟩ := hs.expression_or
  · refine .bind (hself (.expr hctx he)) fun fr₁ v v' _ hv => ?_
    exact .pure fun _ hg => .returned (hv.grow hg) hin
  · rw [execReturn_of_ne self hne, execReturn_of_ne self' hne']
    exact .pure fun _ _ => .returned .undefined hin

theorem evalCondition (hctx : R.At fr f ctx) {e e' : Expr} {t t' : Token}
    (he : e.Alike R.toTreeLikeness ctx e') (ht : R.token t t') :
    Sim R fr f (evalCondition self e t) (evalCondition self' e' t') (fun _ a b => b = a) := by
  refine .bind (hself (.expr hctx he)) fun fr₁ v v' hg hv => ?_
  have htype := hv.typeName
  have hraise : Sim R fr₁ f (raise t (.conditionType t.lexeme v.typeName) : Eval Bool)
      (raise t' (.conditionType t'.lexeme v'.typeName) : Eval Bool) (fun _ a b => b = a) := by
    rw [R.lexeme_eq ht, htype]
    exact .raise ht _
  cases hv with
  | bool b => exact .pure fun _ _ => rfl
  | _ => exact hraise

theorem execCond (hctx : R.At fr f ctx) {e e' : Expr} {t t' : Token} {s s' : Stmt}
    {o o' : Option Stmt} (ht : R.token t t') (he : e.Alike R.toTreeLikeness ctx e')
    (hs : s.Alike R.toTreeLikeness false ctx s')
    (ho : optionAlike R.toTreeLikeness false (s.after false ctx) o o') :
    Sim R fr f (execCond self t e s o) (execCond self' t' e' s' o')
      (Follows R f (optionAfter false (s.after false ctx) o)) := by
  refine .bind (hself.evalCondition hctx he ht) ?_
  rintro fr₁ _ b hg rfl
  have hctx₁ := hctx.grow hg
  cases b with
  | true =>
    refine (hself (.stmt hctx₁ hs)).weaken fun fr₂ a b _ hab => ?_
    exact hab.regions (optionAfter_extends _ _ _).regions fun h => h.optionAfter_unsure o
  | false =>
    have hctx₂ := hctx₁.after_unsure s
    cases o with
    | none =>
      cases ho
      exact .pure fun _ hg₂ => .proceed ((hctx₂.optionAfter_unsure none).grow hg₂)
    | some s₂ =>
      obtain ⟨s₂', rfl, hs₂⟩ := ho
      simp only [optionAfter]
      exact hself (.stmt hctx₂ hs₂)

/-- The case of a loop.  Each iteration starts in the same surroundings. -/
theorem execLoop (hctx : R.At fr f ctx) {e e' : Expr} {s s' : Stmt} {t t' : Token}
    (he : e.Alike R.toTreeLikeness ctx e') (hs : s.Alike R.toTreeLikeness false ctx s')
    (ht : R.token t t') :
    Sim R fr f (execLoop self e s t) (execLoop self' e' s' t')
      (Follows R f (s.after false ctx)) := by
  refine .bind (hself.evalCondition hctx he ht) ?_
  rintro fr₁ _ b hg rfl
  have hctx₁ := hctx.grow hg
  cases b with
  | false => exact .pure fun _ hg₂ => .proceed ((hctx₁.after_unsure s).grow hg₂)
  | true =>
    refine .bind (hself (.stmt hctx₁ hs)) fun fr₂ a b hg₂ hab => ?_
    cases hab with
    | returned hv hin => exact .pure fun _ hg₃ => .returned (hv.grow hg₃) hin
    | proceed _ => exact hself (.loop (hctx₁.grow hg₂) he hs ht)

theorem execProperties (hctx : R.At fr f ctx) {ps ps' : List StmtEntry}
    (hps : propertiesAlike R.toTreeLikeness false ctx ps ps') :
    Sim R fr f (execProperties self ps) (execProperties self' ps')
      (Follows R f (propertiesAfter false ctx ps)) := by
  induction ps generalizing fr ctx ps' with
  | nil =>
    subst hps
    exact .pure fun _ hg => .proceed (by simpa only [propertiesAfter] using hctx.grow hg)
  | cons entry ps ih =>
    obtain ⟨key, s⟩ := entry
    obtain ⟨key', t, ts, rfl, _, ht, hts⟩ := hps
    refine .bind (hself (.stmt hctx ht)) fun fr₁ _ _ hg _ => ?_
    simp only [propertiesAfter]
    exact ih ((hctx.grow hg).after_unsure s) hts

omit hself in
theorem execFunction (hctx : R.At fr f ctx) (sure : Bool) {d d' : FunctionDecl}
    (hn : R.node ctx (.stmt (.functionDecl d)) (.stmt (.functionDecl d')))
    (hd : d.Alike R.toTreeLikeness (ctx.introduce d.name.lexeme sure) d') :
    Sim R fr f (execFunction d) (execFunction d')
      (Follows R f (ctx.introduce d.name.lexeme sure)) := by
  refine .bind .newIdentity ?_
  rintro fr₁ _ n hg rfl
  refine .bind .frame ?_
  rintro fr₂ _ _ hg₂ ⟨rfl, rfl⟩
  have hctx₂ := hctx.grow (hg.trans hg₂)
  have hname := R.unnamed hd.name
  refine .bind (.declareVariable hname (fun hw => (R.spares hn hw).declares _ rfl)
    (fun fr₃ hg₃ frame => ?_) fun fr₃ hg₃ hhas => ?_) fun fr₃ _ _ hg₃ hhas => ?_
  · exact R.declared hn rfl rfl hname (hctx₂.grow hg₃)
  · exact .function ⟨rfl, rfl, rfl, _, (hctx₂.grow hg₃).introduced sure hhas, hd⟩
  · exact .pure fun _ hg₄ => .proceed (((hctx₂.grow hg₃).introduced sure hhas).grow hg₄)

omit hself in
theorem execClass (hctx : R.At fr f ctx) (sure : Bool) {d d' : ClassDecl}
    (hn : R.node ctx (.stmt (.classDecl d)) (.stmt (.classDecl d')))
    (hd : d.Alike R.toTreeLikeness (ctx.introduce d.name.lexeme sure) d') :
    Sim R fr f (execClass d) (execClass d')
      (Follows R f (ctx.introduce d.name.lexeme sure)) := by
  refine .bind .newIdentity ?_
  rintro fr₁ _ n hg rfl
  refine .bind .frame ?_
  rintro fr₂ _ _ hg₂ ⟨rfl, rfl⟩
  have hctx₂ := hctx.grow (hg.trans hg₂)
  have hname := R.unnamed hd.name
  refine .bind (.declareVariable hname (fun hw => (R.spares hn hw).declares _ rfl)
    (fun fr₃ hg₃ frame => ?_) fun fr₃ hg₃ hhas => ?_) fun fr₃ _ _ hg₃ hhas => ?_
  · exact R.declared hn rfl rfl hname (hctx₂.grow hg₃)
  · exact .cls ⟨rfl, rfl, _, (hctx₂.grow hg₃).introduced sure hhas, hd⟩
  · exact .pure fun _ hg₄ => .proceed (((hctx₂.grow hg₃).introduced sure hhas).grow hg₄)

theorem execVariable (hctx : R.At fr f ctx) (sure : Bool) {t t' : Token} {kind : DeclarationKind}
    {ty ty' : Option Ty} {o o' : Option Stmt}
    (hn : R.node ctx (.stmt (.variable t kind ty o)) (.stmt (.variable t' kind ty' o')))
    (ht : R.name t t')
    (ho : optionAlike R.toTreeLikeness false (ctx.declare t.lexeme .pending) o o') :
    Sim R fr f (do let v ← Evaluation.evalInit self o; declareVariable t v; return .proceed)
      (do let v ← Evaluation.evalInit self' o'; declareVariable t' v; return .proceed)
      (Follows R f (.declare t.lexeme (.ofSure sure)
        (optionAfter false (.declare t.lexeme .pending ctx) o))) := by
  refine .bind (hself.evalInit (hctx.pending _) ho) fun fr₁ v v' hg hv => ?_
  refine .bind (.declareVariable ht (fun hw => (R.spares hn hw).declares _ rfl)
    (fun fr₂ hg₂ frame => ?_) fun _ hg₂ _ => hv.grow hg₂) fun fr₂ _ _ hg₂ hhas => ?_
  · exact R.declared hn rfl rfl ht (hctx.grow (hg.trans hg₂))
  refine .pure fun fr₃ hg₃ => .proceed (.grow ?_ hg₃)
  exact (((hctx.grow (hg.trans hg₂)).pending _).optionAfter_unsure o).declared _ hhas

/-- The case of a statement. -/
theorem exec {sure : Bool} (hctx : R.At fr f ctx) {s s' : Stmt}
    (hs : s.Alike R.toTreeLikeness sure ctx s') :
    Sim R fr f (exec self s) (exec self' s') (Follows R f (s.after sure ctx)) := by
  cases s with
  | empty =>
    obtain ⟨_, rfl⟩ := hs
    exact .pure fun _ hg => .proceed (by simpa only [Stmt.after] using hctx.grow hg)
  | block ss =>
    obtain ⟨_, ss', rfl, hss⟩ := hs
    simp only [Stmt.after]
    exact hself.execBlock hctx hss
  | expression e token =>
    obtain ⟨_, e', token', rfl, _, he⟩ := hs
    simp only [Stmt.after]
    refine .bind (hself (.expr hctx he)) fun fr₁ _ _ hg _ => ?_
    exact .pure fun _ hg₁ => .proceed (hctx.grow (hg.trans hg₁))
  | «variable» name kind ty init =>
    obtain ⟨hn, name', ty', init', rfl, ht, _, ho⟩ := hs
    simp only [Stmt.after]
    exact hself.execVariable hctx sure hn ht ho
  | indexAssign id name index value =>
    obtain ⟨hn, id', name', index', value', rfl, ht, hi, hv⟩ := hs
    simp only [Stmt.after]
    refine .bind (.readVariable hctx hn rfl rfl ht) fun fr₁ v v' hg hv₁ => ?_
    refine .bind (hself (.expr (hctx.grow hg) hi)) fun fr₂ w w' hg₂ hw => ?_
    have hctx₂ := hctx.grow (hg.trans hg₂)
    refine .bind (hself (.expr hctx₂ hv)) fun fr₃ u u' hg₃ hu => ?_
    refine .bind (writeElement_sim ht (hv₁.grow (hg₂.trans hg₃)) (hw.grow hg₃) hu)
      fun fr₄ _ _ hg₄ _ => ?_
    exact .pure fun _ hg₅ => .proceed (hctx₂.grow (hg₃.trans (hg₄.trans hg₅)))
  | functionDecl d =>
    obtain ⟨hn, d', rfl, hd⟩ := hs
    simp only [Stmt.after]
    exact execFunction hctx sure hn hd
  | cond keyword condition thenBranch elseBranch =>
    obtain ⟨_, keyword', condition', thenBranch', elseBranch', rfl, ht, hc, hb, he⟩ := hs
    simp only [Stmt.after]
    exact hself.execCond hctx ht hc hb he
  | loop condition body token =>
    obtain ⟨_, condition', body', token', rfl, ht, hc, hb⟩ := hs
    simp only [Stmt.after]
    exact hself (.loop hctx hc hb ht)
  | returns keyword value =>
    obtain ⟨hn, keyword', value', rfl, _, hv⟩ := hs
    refine hself.execReturn hctx hv fun ht => ?_
    unfold Surroundings.InFunction
    rw [(Stmt.after_extends _ _ _).regions]
    exact R.returns hn ht
  | object properties =>
    obtain ⟨_, properties', rfl, hps⟩ := hs
    simp only [Stmt.after]
    exact hself.execProperties hctx hps
  | classDecl d =>
    obtain ⟨hn, d', rfl, hd⟩ := hs
    simp only [Stmt.after]
    exact execClass hctx sure hn hd

/-! ### Calls -/

theorem runBody {g : FrameId} {d d' : FunctionDecl} (hctx : R.At fr g ctx)
    (hd : d.Alike R.toTreeLikeness ctx d') {vs vs' : List Value}
    (hvs : List.Forall₂ (Value.Alike R fr) vs vs') (hlen : d.arity = vs.length) :
    Sim R fr f (runBody self d g vs) (runBody self' d' g vs') (Value.Alike R) := by
  refine .bind (bindParameters_sim (R.injective _) (fun hs => (R.unspelled hs).2 _) hd.params
    hd.renamed hvs hlen .nil) ?_
  rintro fr₁ vars vars' hg ⟨hvars, _, hparams⟩
  refine .bind (.newFrame _ _ _ (fun _ _ h => by cases h) hvars) ?_
  rintro fr₂ _ own hg₂ ⟨rfl, hframe⟩
  have hctx₂ := hctx.grow (hg.trans hg₂)
  have hin : R.At fr₂ own (ctx.enterFunction d) := fun ht =>
    (hctx₂ ht).enterFunction hframe (hparams (R.spells ht))
  refine .bind (Sim.inFrame (hself.execAll hin hd.body)) fun fr₃ a b hg₃ hab => ?_
  cases hab with
  | proceed _ => exact .pure fun _ _ => .undefined
  | returned hv _ => exact .pure fun _ hg₄ => hv.grow hg₄

theorem runMethod {b b' : Method} (hb : b.Alike R fr b') {vs vs' : List Value}
    (hvs : List.Forall₂ (Value.Alike R fr) vs vs') (hlen : b.declaration.arity = vs.length) :
    Sim R fr f (runMethod self b vs) (runMethod self' b' vs') (Value.Alike R) := by
  obtain ⟨ctx, hctx, hd⟩ := hb.declaration
  simp only [Evaluation.runMethod]
  rw [hb.frame]
  refine .bind (hself.runBody hctx hd hvs hlen) fun fr₁ v v' hg hv => ?_
  have hcons : b'.isConstructor = b.isConstructor := by
    unfold Method.isConstructor
    rw [R.lexeme_eq hd.name]
  rw [hcons]
  refine .pure fun fr₂ hg₂ => ?_
  split
  · exact .instance (hb.receiver.grow (hg.trans hg₂))
  · exact hv.grow hg₂

theorem initFields {g : FrameId} (hctx : R.At fr g ctx) (ref : Ref) {fs fs' : List FieldDecl}
    (hfs : fieldsAlike R.toTreeLikeness ctx fs fs') :
    Sim R fr f (initFields self g ref fs) (initFields self' g ref fs') (fun _ _ _ => True) := by
  induction fs generalizing fr fs' with
  | nil =>
    subst hfs
    exact .pure fun _ _ => trivial
  | cons field fs ih =>
    obtain ⟨name, ty, init⟩ := field
    obtain ⟨name', ty', init', gs, rfl, ht, _, hi, hgs⟩ := hfs
    refine .bind (Sim.inFrame (hself (.expr hctx hi))) fun fr₁ v v' hg hv => ?_
    rw [R.lexeme_eq ht]
    refine .bind (writeRecord_sim ref _ hv) fun fr₂ _ _ hg₂ _ => ?_
    exact ih (hctx.grow (hg.trans hg₂)) hgs

theorem construct {i i' : Instance} (hi : i.Alike R fr i') {vs vs' : List Value}
    (hvs : List.Forall₂ (Value.Alike R fr) vs vs')
    (hlen : i.cls.declaration.arity = vs.length) :
    Sim R fr f (construct self i vs) (construct self' i' vs') (Value.Alike R) := by
  obtain ⟨ctx, hctx, hc⟩ := hi.cls.declaration
  have hm := hc.method? ClassDecl.constructorName
  unfold Evaluation.construct
  unfold ClassDecl.arity at hlen
  generalize i.cls.declaration.method? _ = d, i'.cls.declaration.method? _ = d' at hm hlen
  cases hm with
  | none => exact .pure fun _ hg => .instance (hi.grow hg)
  | some hd =>
    refine .bind (bindMethod_sim hi hctx hd) ?_
    rintro fr₁ b b' hg ⟨hb, hbd⟩
    refine .bind (hself.runMethod hb (values_grow hvs hg) (hbd ▸ hlen)) fun fr₂ _ _ hg₂ _ => ?_
    exact .pure fun _ hg₃ => .instance (hi.grow (hg.trans (hg₂.trans hg₃)))

omit hself in
theorem fieldsAlike_isEmpty {fs fs' : List FieldDecl}
    (h : fieldsAlike R.toTreeLikeness ctx fs fs') : fs'.isEmpty = fs.isEmpty := by
  cases fs with
  | nil =>
    subst h
    rfl
  | cons field fs =>
    obtain ⟨name, ty, init⟩ := field
    obtain ⟨_, _, _, _, rfl, _⟩ := h
    rfl

theorem instantiate {c c' : Class} (hc : c.Alike R fr c') {vs vs' : List Value}
    (hvs : List.Forall₂ (Value.Alike R fr) vs vs') (hlen : c.declaration.arity = vs.length) :
    Sim R fr f (instantiate self c vs) (instantiate self' c' vs') (Value.Alike R) := by
  obtain ⟨ctx, hctx, hd⟩ := hc.declaration
  rw [instantiate_eq, instantiate_eq]
  refine .bind (.newRecord .nil) ?_
  rintro fr₁ _ ref hg rfl
  have hi : Instance.Alike R fr₁ ⟨c, ref⟩ ⟨c', ref⟩ := ⟨hc.grow hg, rfl⟩
  have hrest := hself.construct hi (values_grow hvs hg) hlen (f := f)
  rw [fieldsAlike_isEmpty hd.fields]
  split
  · exact hrest
  · refine .bind (bindThis_sim hi) ?_
    rintro fr₂ _ g hg₂ ⟨rfl, -, hthis⟩
    refine .bind (hself.initFields (hthis ctx (hctx.grow hg)) ref hd.fields) fun fr₃ _ _ hg₃ _ => ?_
    exact hrest.grow (hg₂.trans hg₃)

theorem callEach {v v' : Value} (hv : v.Alike R fr v') {t t' : Token} (ht : R.token t t')
    {vs vs' : List Value} (hvs : List.Forall₂ (Value.Alike R fr) vs vs') :
    Sim R fr f (callEach self v t vs) (callEach self' v' t' vs')
      (fun fr₁ => List.Forall₂ (Value.Alike R fr₁)) := by
  induction vs generalizing fr vs' with
  | nil =>
    cases hvs
    exact .pure fun _ _ => .nil
  | cons w ws ih =>
    cases hvs with
    | cons hw hws =>
      refine .bind (hself (.call hv ht (.cons hw .nil))) fun fr₁ u u' hg hu => ?_
      refine .bind (ih (hv.grow hg) (values_grow hws hg)) fun fr₂ us us' hg₂ hus => ?_
      exact .pure fun fr₃ hg₃ => .cons (hu.grow (hg₂.trans hg₃)) (values_grow hus hg₃)

theorem mapList {t t' : Token} (ht : R.token t t') {vs vs' : List Value}
    (hvs : List.Forall₂ (Value.Alike R fr) vs vs') :
    Sim R fr f (mapList self t vs) (mapList self' t' vs') (Value.Alike R) := by
  cases hvs with
  | nil => exact .pure fun _ _ => .undefined
  | @cons v v' vs vs' hv hvs =>
    have htype := hv.typeName
    have hraise : Sim R fr f (raise t (.mapNeedsList v.typeName))
        (raise t' (.mapNeedsList v'.typeName)) (Value.Alike R) := by
      rw [htype]
      exact .raise ht _
    cases hvs with
    | nil => cases hv <;> exact hraise
    | @cons w w' vs vs' hw _ =>
      cases hv with
      | list ref =>
        refine .bind (P := fun fr₁ => List.Forall₂ (Value.Alike R fr₁))
          (.inspect fun m m' hm _ _ => hm.heap.elements ref) fun fr₁ us us' hg hus => ?_
        refine .bind (hself.callEach (hw.grow hg) ht hus) fun fr₂ ws ws' _ hws => ?_
        exact .newList hws
      | _ => exact hraise

theorem invoke {v v' : Value} (hv : v.Alike R fr v') {t t' : Token} (ht : R.token t t')
    {vs vs' : List Value} (hvs : List.Forall₂ (Value.Alike R fr) vs vs')
    (hlen : v.arity? = some vs.length) :
    Sim R fr f (invoke self v t vs) (invoke self' v' t' vs') (Value.Alike R) := by
  cases hv with
  | @function c c' hc =>
    obtain ⟨ctx, hctx, hd⟩ := hc.declaration
    simp only [Evaluation.invoke]
    rw [hc.frame]
    exact hself.runBody hctx hd hvs (Option.some.inj hlen)
  | method hb => exact hself.runMethod hb hvs (Option.some.inj hlen)
  | cls hc => exact hself.instantiate hc hvs (Option.some.inj hlen)
  | host hu => exact callHost_sim _ hu ht hvs
  | @native _ _ _ action hp =>
    cases action with
    | map => exact hself.mapList ht hvs
    | _ => exact runNative_sim hp ht hvs
  | _ => exact .pure fun _ _ => .undefined

/-- The case of a call. -/
theorem callValue {v v' : Value} (hv : v.Alike R fr v') {t t' : Token} (ht : R.token t t')
    {vs vs' : List Value} (hvs : List.Forall₂ (Value.Alike R fr) vs vs') :
    Sim R fr f (callValue self v t vs) (callValue self' v' t' vs') (Value.Alike R) := by
  simp only [Evaluation.callValue]
  rw [hv.arity?, hv.typeName]
  cases ha : v.arity? with
  | none => exact .raise ht _
  | some arity =>
    rw [← hvs.length_eq]
    dsimp only
    split
    · exact .raise ht _
    · next hlen =>
      refine .bind (.inspect_eq fun m m' hm => hm.depth) ?_
      rintro fr₁ _ depth hg rfl
      split
      · exact .raise ht _
      · have hlen : v.arity? = some vs.length := by rw [ha, not_not.1 hlen]
        exact .asCall (hself.invoke (hv.grow hg) ht (values_grow hvs hg) hlen)

/-! ### Running -/

/-- One step preserves simulation. -/
theorem step : Sims R (step self) (step self') := by
  intro α fr f t t' post h
  cases h with
  | expr hctx he => exact hself.evalExpr hctx he
  | property hv ht => exact hself.property hv ht
  | call hv ht hvs => exact hself.callValue hv ht hvs
  | stmt hctx hs => exact hself.exec hctx hs
  | loop hctx he hs ht => exact hself.execLoop hctx he hs ht

omit hself in
theorem runProgram_of_ne (self : Interpreter) {s : Stmt} (h : ∀ e t, s ≠ .expression e t)
    (ss : Program) (last : Value) :
    Evaluation.runProgram self (s :: ss) last =
      (do let _ ← self (.stmt s); Evaluation.runProgram self ss last) := by
  cases s with
  | expression e t => exact absurd rfl (h e t)
  | _ => rfl

/-- Running a program: the values in the end are alike, and the frame is aligned with what follows
the program. -/
theorem runProgram {sure : Bool} (hctx : R.At fr f ctx) (hout : ¬ctx.InFunction) {p p' : Program}
    (hp : stmtsAlike R.toTreeLikeness sure ctx p p') {v v' : Value} (hv : v.Alike R fr v') :
    Sim R fr f (runProgram self p v) (runProgram self' p' v')
      (fun fr₁ v v' => v.Alike R fr₁ v' ∧ R.At fr₁ f (stmtsAfter sure ctx p)) := by
  induction p generalizing fr ctx p' v v' with
  | nil =>
    subst hp
    exact .pure fun _ hg => ⟨hv.grow hg, hctx.grow hg⟩
  | cons s ss ih =>
    obtain ⟨t, ts, rfl, ht, hts⟩ := hp
    have hout₁ : ¬(s.after sure ctx).InFunction := by
      unfold Surroundings.InFunction
      rw [(Stmt.after_extends _ _ _).regions]
      exact hout
    simp only [stmtsAfter]
    obtain ⟨e, t, e', t', rfl, rfl, he⟩ | ⟨hne, hne'⟩ := ht.expression_or
    · simp only [Stmt.after] at hts hout₁ ⊢
      refine .bind (hself (.expr hctx he)) fun fr₁ w w' hg hw => ?_
      exact ih (hctx.grow hg) hout₁ hts hw
    · rw [runProgram_of_ne self hne, runProgram_of_ne self' hne']
      refine .bind (hself (.stmt hctx ht)) fun fr₁ a b hg hab => ih ?_ hout₁ hts (hv.grow hg)
      cases hab with
      | proceed hctx₁ => exact hctx₁
      | returned _ hin => exact fun ht => absurd (hin ht) hout₁

end Sims

/-- Any number of steps simulate themselves. -/
theorem sims_run (R : Likeness) (fuel : Nat) : Sims R (run fuel) (run fuel) := by
  induction fuel with
  | zero => exact fun _ => .outOfFuel
  | succ fuel ih => exact ih.step

end Evaluation

end ScopedScript
