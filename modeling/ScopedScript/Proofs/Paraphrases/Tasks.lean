import ScopedScript.Proofs.Paraphrases.Values
import ScopedScript.Proofs.Simulation.Tasks

/-! # Tasks that correspond

The evaluation of trees that say the same, on matching machines, goes in step, as long as groupings
do not count: an interpreter spends a level of tasks on a grouping, and one of the trees may have
groupings where the other has none.  So the tasks are compared without the groupings around them.
If two interpreters are in step on corresponding tasks, the steps that leave the tasks inside to them
are in step on tasks that stand in no grouping (`Corresponding.step`).

There is one lemma for each part of the evaluator. -/

namespace ScopedScript

namespace Evaluation

open Eval

/-- Signals that correspond. -/
inductive Signal.Matches (link : NodeId → NodeId → Prop) : Signal → Signal → Prop
  | proceed : Signal.Matches link .proceed .proceed
  | returned {v v' : Value} : v.Matches link v' → Signal.Matches link (.returned v) (.returned v')

/-- Tasks that correspond, with the relation that their results are to have. -/
inductive Task.Corresponds (link : NodeId → NodeId → Prop) :
    {α : Type} → Task α → Task α → (α → α → Prop) → Prop
  | expr {e e' : Expr} : e.Paraphrases link e' →
      Task.Corresponds link (.expr e) (.expr e') (Value.Matches link)
  | property {v v' : Value} {t t' : Token} : v.Matches link v' → t.SameWord t' →
      Task.Corresponds link (.property v t) (.property v' t') (Value.Matches link)
  | call {v v' : Value} {t t' : Token} {vs vs' : List Value} : v.Matches link v' → t.SameWord t' →
      List.Forall₂ (Value.Matches link) vs vs' →
      Task.Corresponds link (.call v t vs) (.call v' t' vs') (Value.Matches link)
  | stmt {s s' : Stmt} : s.Paraphrases link s' →
      Task.Corresponds link (.stmt s) (.stmt s') (Signal.Matches link)
  | loop {e e' : Expr} {s s' : Stmt} {t t' : Token} : e.Paraphrases link e' →
      s.Paraphrases link s' → t.SameWord t' →
      Task.Corresponds link (.loop e s t) (.loop e' s' t') (Signal.Matches link)

/-- The interpreters are in step on corresponding tasks. -/
def Corresponding (link : NodeId → NodeId → Prop) (self self' : Interpreter) : Prop :=
  ∀ {α : Type} {t t' : Task α} {post : α → α → Prop},
    Task.Corresponds link t t' post → InStep link (self t) (self' t') post

section

variable {link : NodeId → NodeId → Prop}

/-! ### Operators -/

/-- A value that holds no tree corresponds to itself. -/
theorem liftAt_inStep {t t' : Token} (ht : t.SameWord t') {r : Except RuntimeFault Value}
    (h : ∀ v, r = .ok v → v.Matches link v) :
    InStep link (liftAt t r) (liftAt t' r) (Value.Matches link) := by
  cases r with
  | ok v => exact .pure (h v rfl)
  | error fault => exact .raise ht fault

theorem numbers_matches {t t' : Token} (ht : t.SameWord t') {v v' w w' : Value}
    (hv : v.Matches link v') (hw : w.Matches link w') : numbers t' v' w' = numbers t v w := by
  have htoken : numbers t' v' w' = numbers t v' w' := by
    unfold numbers
    rw [ht.lexeme]
  rw [htoken]
  cases hv <;> cases hw <;> rfl

theorem add_matches {v v' w w' : Value} (hv : v.Matches link v') (hw : w.Matches link w') :
    add v' w' = add v w := by
  cases hv <;> cases hw <;> rfl

/-- A binary operator makes the same of values that correspond. -/
theorem applyBinary_matches {h h' : Heap} (hh : h.Matches link h') {t t' : Token}
    (ht : t.SameWord t') {v v' w w' : Value} (hv : v.Matches link v') (hw : w.Matches link w') :
    applyBinary h' t' v' w' = applyBinary h t v w := by
  unfold applyBinary
  rw [ht.kind, ht.lexeme, add_matches hv hw, numbers_matches ht hv hw, hv.equal hh hw]

theorem numbers_treeless {t : Token} {v w u : Value} {k : Float × Float → Except RuntimeFault Value}
    (hk : ∀ p, k p = .ok u → u.Matches link u) (hu : numbers t v w >>= k = .ok u) :
    u.Matches link u := by
  cases hn : numbers t v w with
  | error fault =>
    rw [hn] at hu
    cases hu
  | ok p =>
    rw [hn] at hu
    exact hk p hu

/-- What an operator makes holds no trees. -/
theorem applyBinary_treeless {h : Heap} {t : Token} {v w u : Value}
    (hu : applyBinary h t v w = .ok u) : u.Matches link u := by
  unfold applyBinary at hu
  split at hu
  · unfold add at hu
    split at hu <;> cases hu <;> constructor
  case h_4 =>
    refine numbers_treeless (fun p hp => ?_) hu
    simp only [divide] at hp
    split at hp <;> cases hp
    constructor
  case h_9 | h_10 =>
    cases hu
    constructor
  case h_11 => cases hu
  all_goals
    refine numbers_treeless (fun p hp => ?_) hu
    cases hp
    constructor

theorem applyUnary_matches {t t' : Token} (ht : t.SameWord t') {v v' : Value}
    (hv : v.Matches link v') : applyUnary t' v' = applyUnary t v := by
  have htype := hv.typeName
  unfold applyUnary
  rw [ht.kind]
  cases hv <;> first | rfl | split <;> simp_all

theorem applyUnary_treeless {t : Token} {v u : Value} (hu : applyUnary t v = .ok u) :
    u.Matches link u := by
  unfold applyUnary at hu
  split at hu <;> cases hu <;> constructor

theorem logicalOperand_inStep {t t' : Token} (ht : t.SameWord t') {v v' : Value}
    (hv : v.Matches link v') :
    InStep link (logicalOperand t v) (logicalOperand t' v') (fun a b => b = a) := by
  have htype := hv.typeName
  cases hv with
  | bool b => exact .pure rfl
  | _ => exact .raise_eq ht (by rw [ht.lexeme, htype])

/-! ### Lists, objects and instances -/

section

variable {t t' : Token} (ht : t.SameWord t')

include ht

theorem position_inStep {v v' : Value} (hv : v.Matches link v') :
    InStep link (position t v) (position t' v') (fun a b => b = a) := by
  have hraise : InStep link
      (do raise t (.indexNotWhole (← inspect fun m => v.text m.heap)) : Eval (Option Nat))
      (do raise t' (.indexNotWhole (← inspect fun m => v'.text m.heap)) : Eval (Option Nat))
      (fun a b => b = a) := by
    refine .bind (.inspect_eq fun m m' hm => hv.text hm.heap) ?_
    rintro _ shown rfl
    exact .raise ht _
  cases hv with
  | num x =>
    simp only [position]
    cases Number.position? x with
    | some p => exact .pure rfl
    | none => exact .raise ht _
  | _ => exact hraise

theorem readElement_inStep {v v' w w' : Value} (hv : v.Matches link v') (hw : w.Matches link w') :
    InStep link (readElement t v w) (readElement t' v' w') (Value.Matches link) := by
  have htype := hv.typeName
  cases hv with
  | list ref =>
    refine .bind (position_inStep ht hw) ?_
    rintro _ place rfl
    cases place with
    | none => exact .pure .undefined
    | some i => exact .inspect fun m m' hm => (hm.heap.elements ref).getD i .undefined
  | _ => exact .raise_eq ht (by rw [ht.lexeme, htype])

theorem writeElement_inStep {v v' w w' u u' : Value} (hv : v.Matches link v')
    (hw : w.Matches link w') (hu : u.Matches link u') :
    InStep link (writeElement t v w u) (writeElement t' v' w' u') (fun _ _ => True) := by
  have htype := hv.typeName
  cases hv with
  | list ref =>
    refine .bind (position_inStep ht hw) ?_
    rintro _ place rfl
    refine .bind (.inspect_eq fun m m' hm => (hm.heap.elements ref).size_eq) ?_
    rintro _ length rfl
    cases place.filter (· < length) with
    | some i =>
      refine .update fun m m' hm => hm.withHeap ⟨?_, hm.heap.records⟩
      exact hm.heap.lists.modify ref fun xs ys _ hxs => hxs.setIfInBounds i hu
    | none =>
      refine .bind (.inspect_eq fun m m' hm => hw.text hm.heap) ?_
      rintro _ shown rfl
      exact .raise_eq ht (by rw [ht.lexeme])
  | _ => exact .raise_eq ht (by rw [ht.lexeme, htype])

omit ht in
theorem writeRecord_inStep (ref : Ref) (name : String) {v v' : Value} (hv : v.Matches link v') :
    InStep link (writeRecord ref name v) (writeRecord ref name v') (fun _ _ => True) := by
  refine .update fun m m' hm => hm.withHeap ⟨hm.heap.lists, ?_⟩
  exact hm.heap.records.modify ref fun r r' _ hr => hr.set name hv

theorem fieldsOf_inStep {v v' : Value} (hv : v.Matches link v') :
    InStep link (fieldsOf t v) (fieldsOf t' v') (fun a b => b = a) := by
  have htype := hv.typeName
  cases hv with
  | object ref => exact .pure rfl
  | «instance» hi => exact .pure hi.fields
  | _ => exact .raise_eq ht (by rw [htype])

omit ht in
theorem bindThis_inStep {i i' : Instance} (hi : i.Matches link i') :
    InStep link (bindThis i) (bindThis i') (fun g g' => g' = g) := by
  unfold bindThis
  rw [hi.cls.frame]
  exact .newFrame _ _ _ (.cons ⟨rfl, .instance hi⟩ .nil)

omit ht in
theorem bindMethod_inStep {i i' : Instance} (hi : i.Matches link i') {d d' : FunctionDecl}
    (hd : d.Paraphrases link d') :
    InStep link (bindMethod i d) (bindMethod i' d') (Method.Matches link) := by
  refine .bind (bindThis_inStep hi) ?_
  rintro _ g rfl
  refine .bind .newIdentity ?_
  rintro _ n rfl
  exact .pure ⟨rfl, rfl, hi, hd⟩

theorem instanceProperty_inStep {i i' : Instance} (hi : i.Matches link i') :
    InStep link (instanceProperty i t) (instanceProperty i' t') (Value.Matches link) := by
  unfold instanceProperty
  rw [ht.lexeme, hi.fields]
  refine .bind (P := Option.Rel (Value.Matches link))
    (.inspect fun m m' hm => (hm.heap.record _).get? _) fun a b hab => ?_
  cases hab with
  | some hv => exact .pure hv
  | none =>
    have hm := hi.cls.declaration.method? t.lexeme
    dsimp only
    generalize i.cls.declaration.method? t.lexeme = d, i'.cls.declaration.method? t.lexeme = d'
      at hm
    cases hm with
    | none => exact .raise ht _
    | some hd => exact .bind (bindMethod_inStep hi hd) fun b b' hb => .pure (.method hb)

theorem objectProperty_inStep (ref : Ref) :
    InStep link (objectProperty ref t) (objectProperty ref t') (Value.Matches link) := by
  unfold objectProperty
  rw [ht.lexeme]
  exact .bind (P := Option.Rel (Value.Matches link))
    (.inspect fun m m' hm => (hm.heap.record _).get? _) fun a b hab => .orRaise ht rfl hab

omit ht in
theorem globalClass?_matches {m m' : Machine} (hm : m.Matches link m') (name : String) :
    Option.Rel (Class.Matches link) (globalClass? m name) (globalClass? m' name) := by
  have hv := hm.get? Machine.globalFrame name
  unfold globalClass?
  generalize (m.vars Machine.globalFrame).get? name = a,
    (m'.vars Machine.globalFrame).get? name = b at hv
  cases hv with
  | none => exact .none
  | some hv =>
    cases hv with
    | cls hc => exact .some hc
    | _ => exact .none

omit ht in
theorem bindParameters_inStep {ps ps' : List Parameter}
    (hps : List.Forall₂ Parameter.Paraphrases ps ps') {vs vs' : List Value}
    (hvs : List.Forall₂ (Value.Matches link) vs vs') {r r' : Record Value}
    (hr : Record.Matches link r r') :
    InStep link (bindParameters ps vs r) (bindParameters ps' vs' r') (Record.Matches link) := by
  induction hps generalizing vs vs' r r' with
  | nil => cases hvs <;> exact .pure hr
  | cons hp _ ih =>
    cases hvs with
    | nil => exact .pure hr
    | cons hv hvs =>
      simp only [bindParameters]
      rw [hp.name, hr.has]
      split
      · exact .raise hp.left _
      · exact ih hvs (hr.set _ hv)

/-! ### Natives -/

theorem readLine_inStep : InStep link (readLine t) (readLine t') (Value.Matches link) := by
  refine .bind (.inspect_eq fun m m' hm => by rw [hm.input]) ?_
  rintro _ ⟨line, rest⟩ rfl
  refine .bind (.update fun m m' hm => hm.withInput rest) fun _ _ _ => ?_
  cases decodeText? line with
  | none => exact .raise ht _
  | some text =>
    refine .pure ?_
    split
    · exact .undefined
    · exact .str _

theorem printLine_inStep (text : String) :
    InStep link (printLine t text) (printLine t' text) (Value.Matches link) := by
  have hfeed : InStep link (do write t "\n"; return Value.undefined)
      (do write t' "\n"; return Value.undefined) (Value.Matches link) :=
    .bind (.write ht _) fun _ _ _ => .pure .undefined
  simp only [printLine]
  split
  · exact .bind (.write ht _) fun _ _ _ => hfeed
  · exact hfeed

theorem lengthOf_inStep {v v' : Value} (hv : v.Matches link v') :
    InStep link (lengthOf t v) (lengthOf t' v') (Value.Matches link) := by
  have htype := hv.typeName
  cases hv with
  | list ref =>
    refine .bind (.inspect_eq fun m m' hm => (hm.heap.elements ref).size_eq) ?_
    rintro _ n rfl
    exact .pure (.num _)
  | str s => exact .pure (.num _)
  | _ => exact .raise_eq ht (by rw [htype])

theorem pushElement_inStep {v v' w w' : Value} (hv : v.Matches link v') (hw : w.Matches link w') :
    InStep link (pushElement t v w) (pushElement t' v' w') (Value.Matches link) := by
  have htype := hv.typeName
  cases hv with
  | list ref =>
    refine .bind (.update fun m m' hm => hm.withHeap ⟨?_, hm.heap.records⟩)
      fun _ _ _ => lengthOf_inStep ht (.list ref)
    exact hm.heap.lists.modify ref fun xs ys _ hxs => hxs.push hw
  | _ => exact .raise_eq ht (by rw [htype])

theorem readClock_inStep : InStep link (readClock t) (readClock t') (Value.Matches link) := by
  refine .bind (.inspect_eq (g := fun m => m.clock m.ticks) fun m m' hm => ?_) ?_
  · rw [hm.clock, hm.ticks]
  rintro _ reading rfl
  refine .bind (.update fun m m' hm => ?_) fun _ _ _ => ?_
  · rw [hm.ticks]
    exact hm.withTicks _
  cases reading with
  | none => exact .raise ht _
  | some x => exact .pure (.num _)

omit ht in
theorem deliver_inStep {a a' : HostAnswer}
    (h : a.Related (Value.Matches link) Token.SameWord a') :
    InStep link (deliver a) (deliver a') (Value.Matches link) := by
  intro m m' hm
  cases h with
  | value hv hh => exact .ok (hm.withHeap (Heap.matches_iff_related.2 hh)) hv
  | error message ht hh => exact .error (hm.withHeap (Heap.matches_iff_related.2 hh)) (.raised _ ht)

/-- A function of the host, which sees of the token at most the word. -/
theorem callHost_inStep (index : Nat) {v v' : Value} (hv : v.Matches link v') {vs vs' : List Value}
    (hvs : List.Forall₂ (Value.Matches link) vs vs') :
    InStep link (callHost index v t vs) (callHost index v' t' vs') (Value.Matches link) := by
  refine .bind (P := fun a b => b = a ∧ ∀ host, a = some host → host.ReadsWord)
    (.inspect fun m m' hm => ⟨by rw [hm.hosts], fun host hhost =>
      hm.fits host (Array.mem_of_getElem? hhost)⟩) ?_
  rintro _ found ⟨rfl, hfits⟩
  cases found with
  | none => exact .pure .undefined
  | some host =>
    exact .bind (.inspect fun m m' hm => (hfits host rfl).related (Value.matches_indiscernible link)
      ht hv hvs (Heap.matches_iff_related.1 hm.heap)) fun a a' ha => deliver_inStep ha

/-- A native that holds no value of its own. -/
theorem runNative_inStep {action : NativeAction} (hp : action.isPlain = true) {vs vs' : List Value}
    (hvs : List.Forall₂ (Value.Matches link) vs vs') :
    InStep link (runNative action t vs) (runNative action t' vs') (Value.Matches link) := by
  have hdefault : InStep link (pure Value.undefined) (pure Value.undefined) (Value.Matches link) :=
    .pure .undefined
  cases action with
  | host index v => cases hp
  | map => cases hvs <;> exact hdefault
  | print =>
    cases hvs with
    | nil => exact hdefault
    | cons hv _ =>
      refine .bind (.inspect_eq fun m m' hm => hv.text hm.heap) ?_
      rintro _ text rfl
      exact printLine_inStep ht text
  | readLine => cases hvs <;> exact readLine_inStep ht
  | len =>
    cases hvs with
    | nil => exact hdefault
    | cons hv _ => exact lengthOf_inStep ht hv
  | push =>
    cases hvs with
    | nil => exact hdefault
    | cons hv hvs =>
      cases hvs with
      | nil => exact hdefault
      | cons hw _ => exact pushElement_inStep ht hv hw
  | clock => cases hvs <;> exact readClock_inStep ht

end

end

/-! ### Expressions -/

namespace Corresponding

variable {link : NodeId → NodeId → Prop} {self self' : Interpreter}
variable (hself : Corresponding link self self')

include hself

theorem evalExprs {es es' : List Expr} (hes : List.Forall₂ (Expr.Paraphrases link) es es') :
    InStep link (evalExprs self es) (evalExprs self' es') (List.Forall₂ (Value.Matches link)) := by
  induction hes with
  | nil => exact .pure .nil
  | cons he _ ih =>
    refine .bind (hself (.expr he)) fun v v' hv => ?_
    exact .bind ih fun vs vs' hvs => .pure (.cons hv hvs)

theorem evalEntries {es es' : List Entry} (hes : entriesParaphrase link es es') :
    InStep link (evalEntries self es) (evalEntries self' es') (Record.Matches link) := by
  induction es generalizing es' with
  | nil =>
    subst hes
    exact .pure .nil
  | cons entry es ih =>
    obtain ⟨key, value⟩ := entry
    obtain ⟨key', value', ds, rfl, ht, hv, hds⟩ := hes
    refine .bind (hself (.expr hv)) fun v v' hv => ?_
    exact .bind (ih hds) fun r r' hr => .pure (.cons ⟨ht.lexeme, hv⟩ hr)

section

variable {t t' : Token} (ht : t.SameWord t') {left left' right right' : Expr}

include ht

theorem evalBinary (hl : left.Paraphrases link left') (hr : right.Paraphrases link right') :
    InStep link (evalBinary self left t right) (evalBinary self' left' t' right')
      (Value.Matches link) := by
  refine .bind (hself (.expr hl)) fun v v' hv => ?_
  refine .bind (hself (.expr hr)) fun w w' hw => ?_
  refine .bind (P := fun a b => b = a ∧ ∀ u, a = .ok u → u.Matches link u)
    (.inspect fun m m' hm => ⟨applyBinary_matches hm.heap ht hv hw, fun u => applyBinary_treeless⟩) ?_
  rintro r _ ⟨rfl, hr⟩
  exact liftAt_inStep ht hr

theorem evalLogical (hl : left.Paraphrases link left') (hr : right.Paraphrases link right') :
    InStep link (evalLogical self left t right) (evalLogical self' left' t' right')
      (Value.Matches link) := by
  refine .bind (hself (.expr hl)) fun v v' hv => ?_
  refine .bind (logicalOperand_inStep ht hv) ?_
  rintro _ b rfl
  have hdec : decides t' b = decides t b := by
    unfold decides
    rw [ht.kind]
  rw [hdec]
  split
  · exact .pure (.bool b)
  · refine .bind (hself (.expr hr)) fun w w' hw => ?_
    refine .bind (logicalOperand_inStep ht hw) ?_
    rintro _ c rfl
    exact .pure (.bool c)

theorem evalUnary (ho : left.Paraphrases link left') :
    InStep link (evalUnary self t left) (evalUnary self' t' left') (Value.Matches link) := by
  refine .bind (hself (.expr ho)) fun v v' hv => ?_
  rw [applyUnary_matches ht hv]
  exact liftAt_inStep ht fun u => applyUnary_treeless

theorem evalCall {args args' : List Expr} (hc : left.Paraphrases link left')
    (ha : exprsParaphrase link args args') :
    InStep link (evalCall self left t args) (evalCall self' left' t' args')
      (Value.Matches link) := by
  refine .bind (hself (.expr hc)) fun v v' hv => ?_
  refine .bind (hself.evalExprs (exprsParaphrase_iff.1 ha)) fun vs vs' hvs => ?_
  exact hself (.call hv ht hvs)

theorem evalGet (ho : left.Paraphrases link left') :
    InStep link (evalGet self left t) (evalGet self' left' t') (Value.Matches link) :=
  .bind (hself (.expr ho)) fun _ _ hv => hself (.property hv ht)

theorem evalSet (ho : left.Paraphrases link left') (hv : right.Paraphrases link right') :
    InStep link (evalSet self left t right) (evalSet self' left' t' right')
      (Value.Matches link) := by
  refine .bind (hself (.expr ho)) fun o o' ho => ?_
  refine .bind (fieldsOf_inStep ht ho) ?_
  rintro _ ref rfl
  refine .bind (hself (.expr hv)) fun v v' hv => ?_
  rw [ht.lexeme]
  exact .bind (writeRecord_inStep ref _ hv) fun _ _ _ => .pure hv

end

theorem evalLiteral {v v' : LiteralValue} (hv : v.Paraphrases link v') :
    InStep link (evalLiteral self v) (evalLiteral self' v') (Value.Matches link) := by
  cases v with
  | list elements =>
    obtain ⟨elements', rfl, hes⟩ := hv
    exact .bind (hself.evalExprs (exprsParaphrase_iff.1 hes)) fun vs vs' hvs => .newList hvs
  | emptyObject =>
    cases hv
    refine .bind (.newRecord .nil) ?_
    rintro _ ref rfl
    exact .pure (.object ref)
  | num x =>
    cases hv
    exact .pure (.num x)
  | str s =>
    cases hv
    exact .pure (.str s)
  | bool b =>
    cases hv
    exact .pure (.bool b)
  | null =>
    cases hv
    exact .pure .null
  | undefined =>
    cases hv
    exact .pure .undefined

theorem evalObject {es es' : List Entry} (hes : entriesParaphrase link es es') :
    InStep link (evalObject self es) (evalObject self' es') (Value.Matches link) := by
  refine .bind (hself.evalEntries hes) fun r r' hr => ?_
  refine .bind (.newRecord hr) ?_
  rintro _ ref rfl
  exact .pure (.object ref)

omit hself in
theorem evalFunction {d d' : FunctionDecl} (hd : d.Paraphrases link d') :
    InStep link (evalFunction d) (evalFunction d') (Value.Matches link) := by
  refine .bind .newIdentity ?_
  rintro _ n rfl
  refine .bind .frame ?_
  rintro _ f rfl
  exact .pure (.function ⟨rfl, rfl, rfl, hd⟩)

/-- The case of an expression, without the groupings around it. -/
theorem evalExpr : (e : Expr) → {e' : Expr} → e.Paraphrases link e' →
    InStep link (evalExpr self e.bare) (evalExpr self' e'.bare) (Value.Matches link)
  | .grouping inner, _, hi => evalExpr inner hi
  | .binary left operator right, _, ⟨left', operator', right', he, ht, hl, hr⟩ => by
    have hlog : isLogical operator' = isLogical operator := by
      unfold isLogical
      rw [ht.kind]
    simp only [he, Expr.bare, Evaluation.evalExpr, hlog]
    split
    · exact hself.evalLogical ht hl hr
    · exact hself.evalBinary ht hl hr
  | .unary .., _, ⟨_, _, he, ht, ho⟩ => he ▸ hself.evalUnary ht ho
  | .literal .., _, ⟨_, he, hv⟩ => he ▸ hself.evalLiteral hv
  | .name .., _, ⟨_, _, he, hid, ht⟩ => he ▸ .readVariable hid ht
  | .this .., _, ⟨_, _, he, hid, ht⟩ => he ▸ .readVariable hid ht
  | .function .., _, ⟨_, _, he, _, hd⟩ => he ▸ evalFunction hd
  | .call .., _, ⟨_, _, _, he, ht, hc, ha⟩ => he ▸ hself.evalCall ht hc ha
  | .index .., _, ⟨_, _, _, he, hid, ht, hi⟩ => by
    rw [he]
    refine .bind (.readVariable hid ht) fun v v' hv => ?_
    exact .bind (hself (.expr hi)) fun w w' hw => readElement_inStep ht hv hw
  | .get .., _, ⟨_, _, he, ht, ho⟩ => he ▸ hself.evalGet ht ho
  | .set .., _, ⟨_, _, _, he, ht, ho, hv⟩ => he ▸ hself.evalSet ht ho hv
  | .object .., _, ⟨_, _, he, _, hes⟩ => he ▸ hself.evalObject hes
  | .assign .., _, ⟨_, _, _, he, hid, ht, hv⟩ => by
    rw [he]
    refine .bind (hself (.expr hv)) fun v v' hv => ?_
    exact .bind (.writeVariable hid ht hv) fun _ _ _ => .pure hv
termination_by structural x => x

/-- Reading a property of a value through an instance made from it. -/
theorem wrapped {v : Value} (hv : v.Matches link v) {t t' : Token} (ht : t.SameWord t')
    (wrapper : String) : InStep link
      (do match ← inspect (globalClass? · wrapper) with
        | none => raise t (.noWrapper t.lexeme v.typeName wrapper)
        | some c => self (.property (← self (.call (.cls c) t [v])) t))
      (do match ← inspect (globalClass? · wrapper) with
        | none => raise t' (.noWrapper t'.lexeme v.typeName wrapper)
        | some c => self' (.property (← self' (.call (.cls c) t' [v])) t'))
      (Value.Matches link) := by
  refine .bind (P := Option.Rel (Class.Matches link))
    (.inspect fun m m' hm => globalClass?_matches hm wrapper) fun a b hab => ?_
  cases hab with
  | none => exact .raise_eq ht (by rw [ht.lexeme])
  | some hc =>
    exact .bind (hself (.call (.cls hc) ht (.cons hv .nil))) fun w w' hw => hself (.property hw ht)

/-- The case of a property. -/
theorem property {v v' : Value} (hv : v.Matches link v') {t t' : Token} (ht : t.SameWord t') :
    InStep link (property self v t) (property self' v' t') (Value.Matches link) := by
  have htype := hv.typeName
  cases hv with
  | «instance» hi => exact instanceProperty_inStep ht hi
  | object ref => exact objectProperty_inStep ht ref
  | list ref => exact hself.wrapped (.list ref) ht "Array"
  | str s => exact hself.wrapped (.str s) ht "String"
  | _ => exact .raise_eq ht (by rw [htype])

/-! ### Statements -/

theorem execAll {ss ss' : List Stmt} (hss : List.Forall₂ (Stmt.Paraphrases link) ss ss') :
    InStep link (execAll self ss) (execAll self' ss') (Signal.Matches link) := by
  induction hss with
  | nil => exact .pure .proceed
  | cons hs _ ih =>
    refine .bind (hself (.stmt hs)) fun a b hab => ?_
    cases hab with
    | returned hv => exact .pure (.returned hv)
    | proceed => exact ih

theorem execBlock {ss ss' : List Stmt} (hss : stmtsParaphrase link ss ss') :
    InStep link (execBlock self ss) (execBlock self' ss') (Signal.Matches link) := by
  refine .bind .frame ?_
  rintro _ f rfl
  refine .bind (.newFrame _ _ _ .nil) ?_
  rintro _ g rfl
  exact .inFrame g (hself.execAll (stmtsParaphrase_iff.1 hss))

theorem evalInit {o o' : Option Stmt} (ho : optionParaphrase link o o') :
    InStep link (evalInit self o) (evalInit self' o') (Value.Matches link) := by
  cases o with
  | none =>
    cases ho
    exact .pure .undefined
  | some s =>
    obtain ⟨s', rfl, hs⟩ := ho
    obtain ⟨e, t, e', t', rfl, rfl, he⟩ | ⟨hne, hne'⟩ := hs.expression_or
    · exact hself (.expr he)
    · rw [Sims.evalInit_of_ne self hne, Sims.evalInit_of_ne self' hne']
      exact .bind (hself (.stmt hs)) fun _ _ _ => .pure .undefined

theorem execReturn {s s' : Stmt} (hs : s.Paraphrases link s') :
    InStep link (execReturn self s) (execReturn self' s') (Signal.Matches link) := by
  obtain ⟨e, t, e', t', rfl, rfl, he⟩ | ⟨hne, hne'⟩ := hs.expression_or
  · exact .bind (hself (.expr he)) fun v v' hv => .pure (.returned hv)
  · rw [Sims.execReturn_of_ne self hne, Sims.execReturn_of_ne self' hne']
    exact .pure (.returned .undefined)

theorem evalCondition {e e' : Expr} {t t' : Token} (he : e.Paraphrases link e')
    (ht : t.SameWord t') :
    InStep link (evalCondition self e t) (evalCondition self' e' t') (fun a b => b = a) := by
  refine .bind (hself (.expr he)) fun v v' hv => ?_
  have htype := hv.typeName
  cases hv with
  | bool b => exact .pure rfl
  | _ => exact .raise_eq ht (by rw [ht.lexeme, htype])

theorem execCond {e e' : Expr} {t t' : Token} {s s' : Stmt} {o o' : Option Stmt}
    (ht : t.SameWord t') (he : e.Paraphrases link e') (hs : s.Paraphrases link s')
    (ho : optionParaphrase link o o') :
    InStep link (execCond self t e s o) (execCond self' t' e' s' o') (Signal.Matches link) := by
  refine .bind (hself.evalCondition he ht) ?_
  rintro _ b rfl
  cases b with
  | true => exact hself (.stmt hs)
  | false =>
    cases o with
    | none =>
      cases ho
      exact .pure .proceed
    | some s₂ =>
      obtain ⟨s₂', rfl, hs₂⟩ := ho
      exact hself (.stmt hs₂)

/-- The case of a loop. -/
theorem execLoop {e e' : Expr} {s s' : Stmt} {t t' : Token} (he : e.Paraphrases link e')
    (hs : s.Paraphrases link s') (ht : t.SameWord t') :
    InStep link (execLoop self e s t) (execLoop self' e' s' t') (Signal.Matches link) := by
  refine .bind (hself.evalCondition he ht) ?_
  rintro _ b rfl
  cases b with
  | false => exact .pure .proceed
  | true =>
    refine .bind (hself (.stmt hs)) fun a b hab => ?_
    cases hab with
    | returned hv => exact .pure (.returned hv)
    | proceed => exact hself (.loop he hs ht)

theorem execProperties {ps ps' : List StmtEntry} (hps : propertiesParaphrase link ps ps') :
    InStep link (execProperties self ps) (execProperties self' ps') (Signal.Matches link) := by
  induction ps generalizing ps' with
  | nil =>
    subst hps
    exact .pure .proceed
  | cons entry ps ih =>
    obtain ⟨key, s⟩ := entry
    obtain ⟨key', t, ts, rfl, _, ht, hts⟩ := hps
    exact .bind (hself (.stmt ht)) fun _ _ _ => ih hts

omit hself in
/-- Declaring what has been made with a new identity in the current frame. -/
theorem declared {t t' : Token} (ht : t.SameWord t') {make make' : Nat → FrameId → Value}
    (h : ∀ n f, (make n f).Matches link (make' n f)) : InStep link
      (do
        let identity ← newIdentity
        let frame ← inspect (·.frame)
        declareVariable t (make identity frame)
        return .proceed)
      (do
        let identity ← newIdentity
        let frame ← inspect (·.frame)
        declareVariable t' (make' identity frame)
        return .proceed) (Signal.Matches link) := by
  refine .bind .newIdentity ?_
  rintro _ n rfl
  refine .bind .frame ?_
  rintro _ f rfl
  exact .bind (.declareVariable ht (h n f)) fun _ _ _ => .pure .proceed

/-- The case of a statement. -/
theorem exec {s s' : Stmt} (hs : s.Paraphrases link s') :
    InStep link (exec self s) (exec self' s') (Signal.Matches link) := by
  cases s with
  | empty =>
    obtain rfl := hs
    exact .pure .proceed
  | block ss =>
    obtain ⟨ss', rfl, hss⟩ := hs
    exact hself.execBlock hss
  | expression e token =>
    obtain ⟨e', token', rfl, _, he⟩ := hs
    exact .bind (hself (.expr he)) fun _ _ _ => .pure .proceed
  | «variable» name kind ty init =>
    obtain ⟨name', ty', init', rfl, ht, ho⟩ := hs
    refine .bind (hself.evalInit ho) fun v v' hv => ?_
    exact .bind (.declareVariable ht hv) fun _ _ _ => .pure .proceed
  | indexAssign id name index value =>
    obtain ⟨id', name', index', value', rfl, hid, ht, hi, hv⟩ := hs
    refine .bind (.readVariable hid ht) fun v v' hv₁ => ?_
    refine .bind (hself (.expr hi)) fun w w' hw => ?_
    refine .bind (hself (.expr hv)) fun u u' hu => ?_
    exact .bind (writeElement_inStep ht hv₁ hw hu) fun _ _ _ => .pure .proceed
  | functionDecl d =>
    obtain ⟨d', rfl, hd⟩ := hs
    exact declared hd.name fun n f => .function ⟨rfl, rfl, rfl, hd⟩
  | cond keyword condition thenBranch elseBranch =>
    obtain ⟨keyword', condition', thenBranch', elseBranch', rfl, ht, hc, hb, he⟩ := hs
    exact hself.execCond ht hc hb he
  | loop condition body token =>
    obtain ⟨condition', body', token', rfl, ht, hc, hb⟩ := hs
    exact hself (.loop hc hb ht)
  | returns keyword value =>
    obtain ⟨keyword', value', rfl, _, hv⟩ := hs
    exact hself.execReturn hv
  | object properties =>
    obtain ⟨properties', rfl, hps⟩ := hs
    exact hself.execProperties hps
  | classDecl d =>
    obtain ⟨d', rfl, hd⟩ := hs
    exact declared hd.name fun n f => .cls ⟨rfl, rfl, hd⟩

/-! ### Calls -/

theorem runBody (g : FrameId) {d d' : FunctionDecl} (hd : d.Paraphrases link d')
    {vs vs' : List Value} (hvs : List.Forall₂ (Value.Matches link) vs vs') :
    InStep link (runBody self d g vs) (runBody self' d' g vs') (Value.Matches link) := by
  refine .bind (bindParameters_inStep hd.params hvs .nil) fun vars vars' hvars => ?_
  refine .bind (.newFrame _ _ _ hvars) ?_
  rintro _ own rfl
  refine .bind (.inFrame own (hself.execAll (stmtsParaphrase_iff.1 hd.body))) fun a b hab => ?_
  cases hab with
  | proceed => exact .pure .undefined
  | returned hv => exact .pure hv

theorem runMethod {b b' : Method} (hb : b.Matches link b') {vs vs' : List Value}
    (hvs : List.Forall₂ (Value.Matches link) vs vs') :
    InStep link (runMethod self b vs) (runMethod self' b' vs') (Value.Matches link) := by
  simp only [Evaluation.runMethod]
  rw [hb.frame]
  refine .bind (hself.runBody _ hb.declaration hvs) fun v v' hv => ?_
  have hcons : b'.isConstructor = b.isConstructor := by
    unfold Method.isConstructor
    rw [hb.declaration.name.lexeme]
  rw [hcons]
  refine .pure ?_
  split
  · exact .instance hb.receiver
  · exact hv

theorem initFields (g : FrameId) (ref : Ref) {fs fs' : List FieldDecl}
    (hfs : fieldsParaphrase link fs fs') :
    InStep link (initFields self g ref fs) (initFields self' g ref fs') (fun _ _ => True) := by
  induction fs generalizing fs' with
  | nil =>
    subst hfs
    exact .pure trivial
  | cons field fs ih =>
    obtain ⟨name, ty, init⟩ := field
    obtain ⟨name', ty', init', gs, rfl, ht, hi, hgs⟩ := hfs
    refine .bind (.inFrame g (hself (.expr hi))) fun v v' hv => ?_
    rw [ht.lexeme]
    exact .bind (writeRecord_inStep ref _ hv) fun _ _ _ => ih hgs

theorem construct {i i' : Instance} (hi : i.Matches link i') {vs vs' : List Value}
    (hvs : List.Forall₂ (Value.Matches link) vs vs') :
    InStep link (construct self i vs) (construct self' i' vs') (Value.Matches link) := by
  have hm := hi.cls.declaration.method? ClassDecl.constructorName
  unfold Evaluation.construct
  generalize i.cls.declaration.method? _ = d, i'.cls.declaration.method? _ = d' at hm
  cases hm with
  | none => exact .pure (.instance hi)
  | some hd =>
    refine .bind (bindMethod_inStep hi hd) fun b b' hb => ?_
    exact .bind (hself.runMethod hb hvs) fun _ _ _ => .pure (.instance hi)

omit hself in
theorem fieldsParaphrase_isEmpty {fs fs' : List FieldDecl} (h : fieldsParaphrase link fs fs') :
    fs'.isEmpty = fs.isEmpty := by
  cases fs with
  | nil =>
    subst h
    rfl
  | cons field fs =>
    obtain ⟨name, ty, init⟩ := field
    obtain ⟨_, _, _, _, rfl, _⟩ := h
    rfl

theorem instantiate {c c' : Class} (hc : c.Matches link c') {vs vs' : List Value}
    (hvs : List.Forall₂ (Value.Matches link) vs vs') :
    InStep link (instantiate self c vs) (instantiate self' c' vs') (Value.Matches link) := by
  rw [instantiate_eq, instantiate_eq]
  refine .bind (.newRecord .nil) ?_
  rintro _ ref rfl
  have hi : Instance.Matches link ⟨c, ref⟩ ⟨c', ref⟩ := ⟨hc, rfl⟩
  have hrest := hself.construct hi hvs
  rw [fieldsParaphrase_isEmpty hc.declaration.fields]
  split
  · exact hrest
  · refine .bind (bindThis_inStep hi) ?_
    rintro _ g rfl
    exact .bind (hself.initFields g ref hc.declaration.fields) fun _ _ _ => hrest

section

variable {t t' : Token} (ht : t.SameWord t') {v v' : Value} {vs vs' : List Value}

include ht

theorem callEach (hv : v.Matches link v') (hvs : List.Forall₂ (Value.Matches link) vs vs') :
    InStep link (callEach self v t vs) (callEach self' v' t' vs')
      (List.Forall₂ (Value.Matches link)) := by
  induction hvs with
  | nil => exact .pure .nil
  | cons hw _ ih =>
    refine .bind (hself (.call hv ht (.cons hw .nil))) fun u u' hu => ?_
    exact .bind ih fun us us' hus => .pure (.cons hu hus)

theorem mapList (hvs : List.Forall₂ (Value.Matches link) vs vs') :
    InStep link (mapList self t vs) (mapList self' t' vs') (Value.Matches link) := by
  cases hvs with
  | nil => exact .pure .undefined
  | cons hv hvs =>
    have htype := hv.typeName
    cases hvs with
    | nil => cases hv <;> exact .raise_eq ht (by rw [htype])
    | cons hw _ =>
      cases hv with
      | list ref =>
        refine .bind (P := List.Forall₂ (Value.Matches link))
          (.inspect fun m m' hm => hm.heap.elements ref) fun us us' hus => ?_
        exact .bind (hself.callEach ht hw hus) fun ws ws' hws => .newList hws
      | _ => exact .raise_eq ht (by rw [htype])

theorem invoke (hv : v.Matches link v') (hvs : List.Forall₂ (Value.Matches link) vs vs') :
    InStep link (invoke self v t vs) (invoke self' v' t' vs') (Value.Matches link) := by
  cases hv with
  | function hc =>
    simp only [Evaluation.invoke]
    rw [hc.frame]
    exact hself.runBody _ hc.declaration hvs
  | method hb => exact hself.runMethod hb hvs
  | cls hc => exact hself.instantiate hc hvs
  | host hu => exact callHost_inStep ht _ hu hvs
  | @native n hp =>
    obtain ⟨identity, name, arity, action⟩ := n
    cases action with
    | map => exact hself.mapList ht hvs
    | _ => exact runNative_inStep ht hp hvs
  | _ => exact .pure .undefined

/-- The case of a call. -/
theorem callValue (hv : v.Matches link v') (hvs : List.Forall₂ (Value.Matches link) vs vs') :
    InStep link (callValue self v t vs) (callValue self' v' t' vs') (Value.Matches link) := by
  simp only [Evaluation.callValue]
  rw [hv.arity?, hv.typeName]
  cases v.arity? with
  | none => exact .raise ht _
  | some arity =>
    rw [← hvs.length_eq]
    dsimp only
    split
    · exact .raise ht _
    · refine .bind (.inspect_eq fun m m' hm => hm.depth) ?_
      rintro _ depth rfl
      split
      · exact .raise ht _
      · exact .asCall (hself.invoke ht hv hvs)

end

/-! ### Running -/

/-- Running a program. -/
theorem runProgram {p p' : Program} (hp : List.Forall₂ (Stmt.Paraphrases link) p p') {v v' : Value}
    (hv : v.Matches link v') :
    InStep link (runProgram self p v) (runProgram self' p' v') (Value.Matches link) := by
  induction hp generalizing v v' with
  | nil => exact .pure hv
  | cons hs _ ih =>
    obtain ⟨e, t, e', t', rfl, rfl, he⟩ | ⟨hne, hne'⟩ := hs.expression_or
    · exact .bind (hself (.expr he)) fun w w' hw => ih hw
    · rw [Sims.runProgram_of_ne self hne, Sims.runProgram_of_ne self' hne']
      exact .bind (hself (.stmt hs)) fun _ _ _ => ih hv

end Corresponding

end Evaluation

end ScopedScript
