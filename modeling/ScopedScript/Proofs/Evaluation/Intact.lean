import ScopedScript.Proofs.Evaluation.References

/-! # Evaluation keeps machines intact

Whatever is evaluated, of well-formed trees on an intact machine, leaves an intact machine on a heap
that has evolved.  The proof goes by the parts of the evaluator; in each the tasks inside are left
to two interpreters that do the same and uphold this (`UpholdsTasks`).

* `upholds_run` and `UpholdsTasks.runProgram` are what follows for the evaluator itself.
* `intact_of_visits` says that everything an evaluation comes to is in order.  An interpreter that
  stops at a configuration out of order would do the same as one that does not, so no such
  configuration is called. -/

namespace ScopedScript

namespace Evaluation

open Eval

/-! ### Operators -/

/-- What an operator makes is no reference. -/
theorem applyBinary_in {h h' : Heap} {t : Token} {v w u : Value}
    (hu : applyBinary h t v w = .ok u) : u.In h' := by
  have hnumbers : ∀ {k : Float × Float → Except RuntimeFault Value},
      (∀ p, k p = .ok u → u.In h') → numbers t v w >>= k = .ok u → u.In h' := by
    intro k hk hu
    cases hn : numbers t v w with
    | error fault =>
      rw [hn] at hu
      cases hu
    | ok p =>
      rw [hn] at hu
      exact hk p hu
  unfold applyBinary at hu
  split at hu
  · unfold add at hu
    split at hu <;> cases hu <;> constructor
  case h_4 =>
    refine hnumbers (fun p hp => ?_) hu
    simp only [divide] at hp
    split at hp <;> cases hp
    constructor
  case h_9 | h_10 =>
    cases hu
    constructor
  case h_11 => cases hu
  all_goals
    refine hnumbers (fun p hp => ?_) hu
    cases hp
    constructor

theorem applyUnary_in {h : Heap} {t : Token} {v u : Value} (hu : applyUnary t v = .ok u) :
    u.In h := by
  unfold applyUnary at hu
  split at hu <;> cases hu <;> constructor

section

variable {h : Heap}

theorem liftAt_upholds (t : Token) {r : Except RuntimeFault Value}
    (hr : ∀ v, r = .ok v → ∀ h' : Heap, v.In h') :
    Upholds h (liftAt t r) (liftAt t r) Value.In := by
  cases r with
  | ok v => exact .pure fun h' _ => hr v rfl h'
  | error fault => exact .raise t fault

theorem logicalOperand_upholds (t : Token) (v : Value) :
    Upholds h (logicalOperand t v) (logicalOperand t v) fun _ _ => True := by
  cases v with
  | bool b => exact .pure fun _ _ => trivial
  | _ => exact .raise _ _

/-! ### Lists, objects and instances -/

theorem position_upholds (t : Token) (v : Value) :
    Upholds h (position t v) (position t v) fun _ _ => True := by
  have hraise : Upholds h
      (do raise t (.indexNotWhole (← inspect fun m => v.text m.heap)) : Eval (Option Nat))
      (do raise t (.indexNotWhole (← inspect fun m => v.text m.heap))) fun _ _ => True :=
    .bind (P := fun _ _ => True) (.inspect fun _ _ _ => trivial) fun _ _ _ _ => .raise _ _
  cases v with
  | num x =>
    simp only [position]
    cases Number.position? x with
    | some p => exact .pure fun _ _ => trivial
    | none => exact .raise _ _
  | _ => exact hraise

theorem readElement_upholds (t : Token) (v w : Value) :
    Upholds h (readElement t v w) (readElement t v w) Value.In := by
  cases v with
  | list ref =>
    refine .bind (position_upholds t w) fun h₁ place _ _ => ?_
    cases place with
    | none => exact .pure fun _ _ => .undefined
    | some i =>
      refine .inspect fun m hm _ => ?_
      rw [Array.getD_eq_getD_getElem?]
      cases hv : (m.heap.elements ref)[i]? with
      | none => exact .undefined
      | some v => exact hm.elements ref v (Array.mem_of_getElem? hv)
  | _ => exact .raise _ _

theorem writeElement_upholds (t : Token) (v w : Value) {u : Value} (hu : u.In h) :
    Upholds h (writeElement t v w u) (writeElement t v w u) fun _ _ => True := by
  cases v with
  | list ref =>
    refine .bind (position_upholds t w) fun h₁ place hg _ => ?_
    refine .bind (P := fun _ _ => True) (.inspect fun _ _ _ => trivial) fun h₂ length hg₂ _ => ?_
    cases place.filter (· < length) with
    | some i =>
      refine .update fun _ hm hg₃ => hm.modifyList ref fun xs hxs v hv => ?_
      rcases Array.mem_or_eq_of_mem_setIfInBounds hv with hv | rfl
      · exact hxs v hv
      · exact hu.grow (hg.trans (hg₂.trans hg₃))
    | none =>
      exact .bind (P := fun _ _ => True) (.inspect fun _ _ _ => trivial) fun _ _ _ _ => .raise _ _
  | _ => exact .raise _ _

theorem writeRecord_upholds (ref : Ref) (name : String) {v : Value} (hv : v.In h) :
    Upholds h (writeRecord ref name v) (writeRecord ref name v) fun _ _ => True :=
  .update fun _ hm hg => ⟨.write _ _ _ _, hm.writeRecord ref name (hv.grow hg)⟩

theorem fieldsOf_upholds (t : Token) {v : Value} (hv : v.In h) :
    Upholds h (fieldsOf t v) (fieldsOf t v) fun h' ref => ref < h'.records.size := by
  cases hv with
  | object href => exact .pure fun _ hg => Nat.lt_of_lt_of_le href hg.records
  | «instance» hi => exact .pure fun _ hg => Nat.lt_of_lt_of_le hi.fields hg.records
  | _ => exact .raise _ _

theorem bindThis_upholds {i : Instance} (hi : i.In h) :
    Upholds h (bindThis i) (bindThis i) fun _ _ => True := by
  refine .newFrame _ _ fun p hp => ?_
  obtain rfl := List.mem_singleton.1 hp
  exact .instance hi

theorem bindMethod_upholds {i : Instance} (hi : i.In h) {d : FunctionDecl} (hd : Sited d.sites) :
    Upholds h (bindMethod i d) (bindMethod i d)
      fun h' b => Sited b.declaration.sites ∧ b.receiver.In h' := by
  refine .bind (bindThis_upholds hi) fun h₁ f hg _ => .bind .newIdentity fun h₂ n hg₂ _ => ?_
  exact .pure fun h₃ hg₃ => ⟨hd, hi.grow (hg.trans (hg₂.trans hg₃))⟩

theorem instanceProperty_upholds {i : Instance} (hi : i.In h) (t : Token) :
    Upholds h (instanceProperty i t) (instanceProperty i t) Value.In := by
  refine .bind (P := fun h' o => ∀ v, o = some v → v.In h')
    (.inspect fun m hm _ v hv => (hm.record _).get? hv) fun h₁ o hg ho => ?_
  cases o with
  | some v => exact .pure fun _ hg₂ => (ho v rfl).grow hg₂
  | none =>
    cases hd : i.cls.declaration.method? t.lexeme with
    | none =>
      dsimp only
      exact .raise _ _
    | some d =>
      dsimp only
      refine .bind (bindMethod_upholds (hi.grow hg) (hi.cls.method? hd)) fun h₂ b _ hb => ?_
      exact .pure fun _ hg₃ => .method hb.1 (hb.2.grow hg₃)

theorem objectProperty_upholds (ref : Ref) (t : Token) :
    Upholds h (objectProperty ref t) (objectProperty ref t) Value.In := by
  refine .bind (P := fun h' o => ∀ v, o = some v → v.In h')
    (.inspect fun m hm _ v hv => (hm.record _).get? hv) fun h₁ o _ ho => ?_
  exact .orRaise _ _ fun v hv _ hg => (ho v hv).grow hg

theorem globalClass?_sited {m : Machine} (hm : m.Intact) {name : String} {c : Class}
    (hc : globalClass? m name = some c) : Sited c.declaration.sites := by
  unfold globalClass? at hc
  split at hc
  · next hv =>
    obtain rfl := Option.some.inj hc
    have hin := (hm.vars _).get? hv
    cases hin with
    | cls hd => exact hd
  · cases hc

theorem bindParameters_upholds {ps : List Parameter} {vs : List Value} {r : Record Value}
    (hvs : ∀ v ∈ vs, v.In h) (hr : Record.In h r) :
    Upholds h (bindParameters ps vs r) (bindParameters ps vs r) Record.In := by
  induction ps generalizing vs r with
  | nil => exact .pure fun _ hg => hr.grow hg
  | cons p ps ih =>
    cases vs with
    | nil => exact .pure fun _ hg => hr.grow hg
    | cons v vs =>
      simp only [bindParameters]
      split
      · exact .raise _ _
      · exact ih (fun w hw => hvs w (List.mem_cons_of_mem _ hw))
          (hr.set _ (hvs v List.mem_cons_self))

/-! ### Natives -/

theorem readLine_upholds (t : Token) : Upholds h (readLine t) (readLine t) Value.In := by
  refine .bind (P := fun _ _ => True) (.inspect fun _ _ _ => trivial) fun h₁ lines _ _ => ?_
  refine .bind (.update fun m hm _ => ⟨.refl _, hm.frames, hm.lists, hm.records, hm.keys, hm.hosts⟩)
    fun h₂ _ _ _ => ?_
  cases decodeText? lines.1 with
  | none => exact .raise _ _
  | some text =>
    refine .pure fun _ _ => ?_
    split
    · exact .undefined
    · exact .str _

theorem printLine_upholds (t : Token) (text : String) :
    Upholds h (printLine t text) (printLine t text) Value.In := by
  have hfeed : Upholds h (do write t "\n"; return Value.undefined)
      (do write t "\n"; return Value.undefined) Value.In :=
    .bind (.write t _) fun _ _ _ _ => .pure fun _ _ => .undefined
  simp only [printLine]
  split
  · exact .bind (.write t _) fun _ _ hg _ => hfeed.grow hg
  · exact hfeed

theorem lengthOf_upholds (t : Token) (v : Value) :
    Upholds h (lengthOf t v) (lengthOf t v) Value.In := by
  cases v with
  | list ref =>
    exact .bind (P := fun _ _ => True) (.inspect fun _ _ _ => trivial) fun _ _ _ _ =>
      .pure fun _ _ => .num _
  | str s => exact .pure fun _ _ => .num _
  | _ => exact .raise _ _

theorem pushElement_upholds (t : Token) (v : Value) {w : Value} (hw : w.In h) :
    Upholds h (pushElement t v w) (pushElement t v w) Value.In := by
  cases v with
  | list ref =>
    refine .bind (.update fun _ hm hg => hm.modifyList ref fun xs hxs u hu => ?_)
      fun _ _ _ _ => lengthOf_upholds t _
    rcases Array.mem_push.1 hu with hu | rfl
    · exact hxs u hu
    · exact hw.grow hg
  | _ => exact .raise _ _

theorem readClock_upholds (t : Token) : Upholds h (readClock t) (readClock t) Value.In := by
  refine .bind (P := fun _ _ => True) (.inspect fun _ _ _ => trivial) fun h₁ reading _ _ => ?_
  refine .bind (.update fun m hm _ =>
    ⟨.refl _, hm.frames, hm.lists, hm.records, hm.keys, hm.hosts⟩) fun h₂ _ _ _ => ?_
  cases reading with
  | none => exact .raise _ _
  | some x => exact .pure fun _ _ => .num x

theorem callHost_upholds (index : Nat) {v : Value} (hv : v.In h) (t : Token) {vs : List Value}
    (hvs : ∀ w ∈ vs, w.In h) :
    Upholds h (callHost index v t vs) (callHost index v t vs) Value.In := by
  intro m hm hg
  refine ⟨rfl, ?_⟩
  cases hf : m.hosts[index]? with
  | none =>
    rw [callHost_of_none hf]
    exact .ok hm (.refl _) .undefined
  | some f =>
    rw [callHost_of_some hf]
    obtain ⟨hg₁, hm₁, hresult⟩ := hm.answer (hm.hosts f (Array.mem_of_getElem? hf)) t (hv.grow hg)
      (values_in_grow hvs hg)
    generalize f.run t v vs m.heap = a at hg₁ hm₁ hresult
    obtain ⟨result, heap⟩ := a
    cases result with
    | ok w => exact .ok hm₁ hg₁ (hresult w rfl)
    | error e => exact .error hm₁ hg₁

theorem runNative_upholds {n : Native} (hn : (Value.native n).In h) (t : Token) {vs : List Value}
    (hvs : ∀ v ∈ vs, v.In h) :
    Upholds h (runNative n.action t vs) (runNative n.action t vs) Value.In := by
  have hdefault : Upholds h (pure Value.undefined) (pure Value.undefined) Value.In :=
    .pure fun _ _ => .undefined
  have htext : ∀ {k : String → Eval Value}, (∀ h' s, Upholds h' (k s) (k s) Value.In) →
      ∀ g : Machine → String, Upholds h (inspect g >>= k) (inspect g >>= k) Value.In :=
    fun hk g => .bind (P := fun _ _ => True) (.inspect fun _ _ _ => trivial) fun h' s _ _ => hk h' s
  obtain ⟨identity, name, arity, action⟩ := n
  cases action with
  | host index v =>
    cases hn with
    | native hplain => cases hplain
    | host hv => cases vs <;> exact callHost_upholds index hv t hvs
  | map => cases vs <;> exact hdefault
  | print =>
    cases vs with
    | nil => exact hdefault
    | cons v vs => exact htext (fun _ s => printLine_upholds t s) _
  | readLine => cases vs <;> exact readLine_upholds t
  | len =>
    cases vs with
    | nil => exact hdefault
    | cons v vs => exact lengthOf_upholds t v
  | push =>
    match vs, hvs with
    | [], _ | [_], _ => exact hdefault
    | v :: w :: _, hvs => exact pushElement_upholds t v (hvs w (by simp))
  | clock => cases vs <;> exact readClock_upholds t

end

/-! ### Tasks -/

/-- Tasks of well-formed trees on values of the heap, with what is asked of their results. -/
inductive Task.In (h : Heap) : {α : Type} → Task α → (Heap → α → Prop) → Prop
  | expr {e : Expr} : Sited e.sites → Task.In h (.expr e) Value.In
  | property {v : Value} {t : Token} : v.In h → Task.In h (.property v t) Value.In
  | call {v : Value} {t : Token} {vs : List Value} : v.In h → (∀ w ∈ vs, w.In h) →
      Task.In h (.call v t vs) Value.In
  | stmt {s : Stmt} : Sited s.sites → Task.In h (.stmt s) Signal.In
  | loop {e : Expr} {s : Stmt} {t : Token} : Sited e.sites → Sited s.sites →
      Task.In h (.loop e s t) Signal.In

theorem Task.In.grow {h h' : Heap} {α : Type} {t : Task α} {post : Heap → α → Prop}
    (ht : Task.In h t post) (hg : h.Evolves h') : Task.In h' t post := by
  cases ht with
  | expr he => exact .expr he
  | property hv => exact .property (hv.grow hg)
  | call hv hvs => exact .call (hv.grow hg) (values_in_grow hvs hg)
  | stmt hs => exact .stmt hs
  | loop he hs => exact .loop he hs

theorem Task.In.expr_sited {h : Heap} {α : Type} {t : Task α} {post : Heap → α → Prop}
    (ht : Task.In h t post) {e : Expr} (he : t.node? = some (.expr e)) : Sited e.sites := by
  cases ht with
  | expr hsited =>
    cases he
    exact hsited
  | property _ | call _ _ | stmt _ | loop _ _ => cases he

/-- The interpreters do the same with tasks in order, and uphold what is asked. -/
def UpholdsTasks (self self' : Interpreter) : Prop :=
  ∀ {α : Type} {h : Heap} {t : Task α} {post : Heap → α → Prop},
    Task.In h t post → Upholds h (self t) (self' t) post

namespace UpholdsTasks

variable {self self' : Interpreter} (hself : UpholdsTasks self self') {h : Heap}

include hself

/-! ### Expressions -/

theorem evalExprs {es : List Expr} (hes : Sited fun outer => exprsSites outer es) :
    Upholds h (evalExprs self es) (evalExprs self' es) fun h' vs => ∀ v ∈ vs, v.In h' := by
  induction es generalizing h with
  | nil => exact .pure fun _ _ => by simp
  | cons e es ih =>
    refine .bind (hself (.expr hes.left)) fun h₁ v hg hv => ?_
    refine .bind (ih hes.right) fun h₂ vs hg₂ hvs => .pure fun h₃ hg₃ => ?_
    exact List.forall_mem_cons.2 ⟨hv.grow (hg₂.trans hg₃), values_in_grow hvs hg₃⟩

/-- The record of an object literal has the keys of the literal. -/
theorem evalEntries {es : List Entry} (hes : Sited fun outer => entriesSites outer es) :
    Upholds h (evalEntries self es) (evalEntries self' es)
      fun h' r => Record.In h' r ∧ Record.keys r = entryKeys es := by
  induction es generalizing h with
  | nil => exact .pure fun _ _ => ⟨.nil, rfl⟩
  | cons entry es ih =>
    obtain ⟨key, value⟩ := entry
    refine .bind (hself (.expr hes.left)) fun h₁ v hg hv => ?_
    refine .bind (ih hes.right) fun h₂ r hg₂ hr => .pure fun h₃ hg₃ => ⟨?_, ?_⟩
    · exact List.forall_mem_cons.2 ⟨hv.grow (hg₂.trans hg₃), hr.1.grow hg₃⟩
    · rw [Record.keys_cons, hr.2]
      rfl

theorem evalBinary {left right : Expr} (t : Token) (hl : Sited left.sites)
    (hr : Sited right.sites) :
    Upholds h (evalBinary self left t right) (evalBinary self' left t right) Value.In := by
  refine .bind (hself (.expr hl)) fun h₁ v _ _ => .bind (hself (.expr hr)) fun h₂ w _ _ => ?_
  refine .bind (P := fun _ r => ∀ u, r = .ok u → ∀ h' : Heap, u.In h')
    (.inspect fun _ _ _ u hu _ => applyBinary_in hu) fun h₃ r _ hr => ?_
  exact liftAt_upholds t hr

theorem evalLogical {left right : Expr} (t : Token) (hl : Sited left.sites)
    (hr : Sited right.sites) :
    Upholds h (evalLogical self left t right) (evalLogical self' left t right) Value.In := by
  refine .bind (hself (.expr hl)) fun h₁ v _ _ => ?_
  refine .bind (logicalOperand_upholds t v) fun h₂ b _ _ => ?_
  split
  · exact .pure fun _ _ => .bool b
  · refine .bind (hself (.expr hr)) fun h₃ w _ _ => ?_
    exact .bind (logicalOperand_upholds t w) fun h₄ c _ _ => .pure fun _ _ => .bool c

theorem evalUnary {operand : Expr} (t : Token) (ho : Sited operand.sites) :
    Upholds h (evalUnary self t operand) (evalUnary self' t operand) Value.In :=
  .bind (hself (.expr ho)) fun _ _ _ _ => liftAt_upholds t fun _ hu _ => applyUnary_in hu

theorem evalLiteral {v : LiteralValue} (hv : Sited v.sites) :
    Upholds h (evalLiteral self v) (evalLiteral self' v) Value.In := by
  cases v with
  | list elements =>
    refine .bind (hself.evalExprs hv) fun h₁ vs _ hvs => .newList fun v hv => ?_
    exact hvs v (by simpa using hv)
  | emptyObject =>
    refine .bind (.newRecord .nil .nil) fun h₁ ref _ href => .pure fun _ hg => ?_
    exact .object (Nat.lt_of_lt_of_le href hg.records)
  | num x => exact .pure fun _ _ => .num x
  | str s => exact .pure fun _ _ => .str s
  | bool b => exact .pure fun _ _ => .bool b
  | null => exact .pure fun _ _ => .null
  | undefined => exact .pure fun _ _ => .undefined

/-- The keys of a literal are distinct, and so are the names in the object that it makes. -/
theorem evalObject {es : List Entry} (hes : Sited fun outer => entriesSites outer es)
    (hkeys : (entryKeys es).Nodup) :
    Upholds h (evalObject self es) (evalObject self' es) Value.In := by
  refine .bind (hself.evalEntries hes) fun h₁ r hg hr => ?_
  have hnodup : (Record.keys r).Nodup := by rwa [hr.2]
  exact .bind (.newRecord hr.1 hnodup) fun h₂ ref _ href => .pure fun _ hg =>
    .object (Nat.lt_of_lt_of_le href hg.records)

omit hself in
theorem evalFunction {d : FunctionDecl} (hd : Sited d.sites) :
    Upholds h (evalFunction d) (evalFunction d) Value.In :=
  .bind .newIdentity fun _ _ _ _ => .bind (P := fun _ _ => True) (.inspect fun _ _ _ => trivial)
    fun _ _ _ _ => .pure fun _ _ => .function hd

theorem evalCall {callee : Expr} (t : Token) {args : List Expr} (hc : Sited callee.sites)
    (ha : Sited fun outer => exprsSites outer args) :
    Upholds h (evalCall self callee t args) (evalCall self' callee t args) Value.In := by
  refine .bind (hself (.expr hc)) fun h₁ v hg hv => ?_
  refine .bind (hself.evalExprs ha) fun h₂ vs hg₂ hvs => ?_
  exact hself (.call (hv.grow hg₂) hvs)

theorem evalSet {object value : Expr} (t : Token) (ho : Sited object.sites)
    (hv : Sited value.sites) :
    Upholds h (evalSet self object t value) (evalSet self' object t value) Value.In := by
  refine .bind (hself (.expr ho)) fun h₁ o _ ho => .bind (fieldsOf_upholds t ho) fun h₂ ref _ _ => ?_
  refine .bind (hself (.expr hv)) fun h₃ v _ hv => ?_
  refine .bind (writeRecord_upholds ref _ hv) fun h₄ _ hg₄ _ => .pure fun h₅ hg₅ => ?_
  exact hv.grow (hg₄.trans hg₅)

theorem evalAssign (id : NodeId) (t : Token) {value : Expr} (hv : Sited value.sites) :
    Upholds h (evalAssign self id t value) (evalAssign self' id t value) Value.In := by
  refine .bind (hself (.expr hv)) fun h₁ v _ hv => ?_
  refine .bind (.writeVariable id t hv) fun h₂ _ hg₂ _ => .pure fun h₃ hg₃ => ?_
  exact hv.grow (hg₂.trans hg₃)

/-- The case of an expression. -/
theorem evalExpr {e : Expr} (he : Sited e.sites) :
    Upholds h (evalExpr self e) (evalExpr self' e) Value.In := by
  cases e with
  | grouping inner => exact hself (.expr he.below)
  | binary left operator right =>
    simp only [Evaluation.evalExpr]
    split
    · exact hself.evalLogical _ he.below.left he.below.right
    · exact hself.evalBinary _ he.below.left he.below.right
  | unary operator operand => exact hself.evalUnary _ he.below
  | literal kind value => exact hself.evalLiteral he.below
  | name id token => exact .readVariable id token
  | this id keyword => exact .readVariable id keyword
  | function token declaration => exact evalFunction he.below.within
  | call callee paren args => exact hself.evalCall _ he.below.left he.below.right
  | index id name index =>
    refine .bind (.readVariable id name) fun h₁ v _ _ => ?_
    exact .bind (hself (.expr he.below)) fun h₂ w _ _ => readElement_upholds name v w
  | get object name =>
    exact .bind (hself (.expr he.below)) fun h₁ v _ hv => hself (.property hv)
  | set object name value => exact hself.evalSet _ he.below.right he.below.left
  | object brace entries => exact hself.evalObject he.below he.node
  | assign id name value => exact hself.evalAssign id name he.below

/-- The case of a property. -/
theorem property {v : Value} (hv : v.In h) (t : Token) :
    Upholds h (property self v t) (property self' v t) Value.In := by
  have hargs : ∀ h₁, h.Evolves h₁ → ∀ w ∈ [v], w.In h₁ := fun _ hg =>
    List.forall_mem_singleton.2 (hv.grow hg)
  cases hv with
  | «instance» hi => exact instanceProperty_upholds hi t
  | object _ => exact objectProperty_upholds _ t
  | list _ | str _ =>
    refine .bind (P := fun _ o => ∀ c, o = some c → Sited c.declaration.sites)
      (.inspect fun m hm _ c hc => globalClass?_sited hm hc) fun h₁ o hg ho => ?_
    cases o with
    | none => exact .raise _ _
    | some c =>
      exact .bind (hself (.call (.cls (ho c rfl)) (hargs h₁ hg))) fun h₂ w _ hw =>
        hself (.property hw)
  | _ => exact .raise _ _

/-! ### Statements -/

theorem execAll {ss : List Stmt} (hss : Sited fun outer => stmtsSites outer ss) :
    Upholds h (execAll self ss) (execAll self' ss) Signal.In := by
  induction ss generalizing h with
  | nil => exact .pure fun _ _ => trivial
  | cons s ss ih =>
    refine .bind (hself (.stmt hss.left)) fun h₁ signal _ hsignal => ?_
    cases signal with
    | returned v => exact .pure fun _ hg => Value.In.grow hsignal hg
    | proceed => exact ih hss.right

theorem execBlock {ss : List Stmt} (hss : Sited fun outer => stmtsSites outer ss) :
    Upholds h (execBlock self ss) (execBlock self' ss) Signal.In := by
  refine .bind (P := fun _ _ => True) (.inspect fun _ _ _ => trivial) fun h₁ f _ _ => ?_
  exact .bind (.newFrame _ _ .nil) fun h₂ g _ _ => (hself.execAll hss).inFrame g

theorem evalInit {init : Option Stmt} (hinit : Sited fun outer => optionSites outer init) :
    Upholds h (evalInit self init) (evalInit self' init) Value.In := by
  unfold Evaluation.evalInit
  split
  · exact hself (.expr hinit.below)
  · exact .bind (hself (.stmt hinit)) fun _ _ _ _ => .pure fun _ _ => .undefined
  · exact .pure fun _ _ => .undefined

theorem evalCondition {condition : Expr} (hc : Sited condition.sites) (t : Token) :
    Upholds h (evalCondition self condition t) (evalCondition self' condition t)
      fun _ _ => True := by
  refine .bind (hself (.expr hc)) fun h₁ v _ _ => ?_
  cases v with
  | bool b => exact .pure fun _ _ => trivial
  | _ => exact .raise _ _

theorem execCond (t : Token) {condition : Expr} {thenBranch : Stmt} {elseBranch : Option Stmt}
    (hc : Sited condition.sites) (hthen : Sited thenBranch.sites)
    (helse : Sited fun outer => optionSites outer elseBranch) :
    Upholds h (execCond self t condition thenBranch elseBranch)
      (execCond self' t condition thenBranch elseBranch) Signal.In := by
  refine .bind (hself.evalCondition hc t) fun h₁ b _ _ => ?_
  split
  · exact hself (.stmt hthen)
  · cases elseBranch with
    | none => exact .pure fun _ _ => trivial
    | some s => exact hself (.stmt helse)

theorem execLoop {condition : Expr} {body : Stmt} (t : Token) (hc : Sited condition.sites)
    (hb : Sited body.sites) :
    Upholds h (execLoop self condition body t) (execLoop self' condition body t) Signal.In := by
  refine .bind (hself.evalCondition hc t) fun h₁ b _ _ => ?_
  split
  · refine .bind (hself (.stmt hb)) fun h₂ signal _ hsignal => ?_
    cases signal with
    | returned v => exact .pure fun _ hg => Value.In.grow hsignal hg
    | proceed => exact hself (.loop hc hb)
  · exact .pure fun _ _ => trivial

theorem execProperties {ps : List StmtEntry} (hps : Sited fun outer => propertiesSites outer ps) :
    Upholds h (execProperties self ps) (execProperties self' ps) Signal.In := by
  induction ps generalizing h with
  | nil => exact .pure fun _ _ => trivial
  | cons p ps ih =>
    obtain ⟨key, s⟩ := p
    exact .bind (hself (.stmt hps.left)) fun _ _ _ _ => ih hps.right

theorem execReturn {s : Stmt} (hs : Sited s.sites) :
    Upholds h (execReturn self s) (execReturn self' s) Signal.In := by
  unfold Evaluation.execReturn
  split
  · exact .bind (hself (.expr hs.below)) fun h₁ v _ hv => .pure fun _ hg => hv.grow hg
  · exact .pure fun _ _ => .undefined

/-- The case of a statement. -/
theorem exec {s : Stmt} (hs : Sited s.sites) :
    Upholds h (exec self s) (exec self' s) Signal.In := by
  have hdeclare : ∀ {h' : Heap} (t : Token) {v : Value}, v.In h' → Upholds h'
      (do declareVariable t v; return Signal.proceed)
      (do declareVariable t v; return Signal.proceed) Signal.In :=
    fun t v hv => .bind (.declareVariable t hv) fun _ _ _ _ => .pure fun _ _ => trivial
  cases s with
  | empty => exact .pure fun _ _ => trivial
  | block statements => exact hself.execBlock hs.below
  | expression e token =>
    exact .bind (hself (.expr hs.below)) fun _ _ _ _ => .pure fun _ _ => trivial
  | «variable» name kind ty init =>
    exact .bind (hself.evalInit hs.below.within) fun h₁ v _ hv => hdeclare name hv
  | indexAssign id name index value =>
    refine .bind (.readVariable id name) fun h₁ target _ _ => ?_
    refine .bind (hself (.expr hs.below.left)) fun h₂ i _ _ => ?_
    refine .bind (hself (.expr hs.below.right)) fun h₃ v _ hv => ?_
    exact .bind (writeElement_upholds name target i hv) fun _ _ _ _ => .pure fun _ _ => trivial
  | functionDecl declaration =>
    refine .bind .newIdentity fun h₁ n _ _ => ?_
    refine .bind (P := fun _ _ => True) (.inspect fun _ _ _ => trivial) fun h₂ f _ _ => ?_
    exact hdeclare _ (.function hs.below.within)
  | cond keyword condition thenBranch elseBranch =>
    exact hself.execCond keyword hs.below.left hs.below.right.left hs.below.right.right
  | loop condition body token => exact hself (.loop hs.below.left hs.below.right)
  | returns keyword value => exact hself.execReturn hs.below
  | object properties => exact hself.execProperties hs.below
  | classDecl declaration =>
    refine .bind .newIdentity fun h₁ n _ _ => ?_
    refine .bind (P := fun _ _ => True) (.inspect fun _ _ _ => trivial) fun h₂ f _ _ => ?_
    exact hdeclare _ (.cls hs.below.within)

/-! ### Calls -/

theorem runBody {d : FunctionDecl} (hd : Sited d.sites) (f : FrameId) {vs : List Value}
    (hvs : ∀ v ∈ vs, v.In h) :
    Upholds h (runBody self d f vs) (runBody self' d f vs) Value.In := by
  refine .bind (bindParameters_upholds hvs .nil) fun h₁ vars _ hvars => ?_
  refine .bind (.newFrame _ _ hvars) fun h₂ g _ _ => ?_
  refine .bind ((hself.execAll hd.body).inFrame g) fun h₃ signal _ hsignal => ?_
  cases signal with
  | returned v => exact .pure fun _ hg => Value.In.grow hsignal hg
  | proceed => exact .pure fun _ _ => .undefined

theorem runMethod {b : Method} (hd : Sited b.declaration.sites) (hi : b.receiver.In h)
    {vs : List Value} (hvs : ∀ v ∈ vs, v.In h) :
    Upholds h (runMethod self b vs) (runMethod self' b vs) Value.In := by
  refine .bind (hself.runBody hd b.frame hvs) fun h₁ v hg hv => .pure fun h₂ hg₂ => ?_
  split
  · exact .instance (hi.grow (hg.trans hg₂))
  · exact hv.grow hg₂

theorem initFields (f : FrameId) (ref : Ref) {fields : List FieldDecl}
    (hfields : Sited fun outer => fieldsSites outer fields) :
    Upholds h (initFields self f ref fields) (initFields self' f ref fields) fun _ _ => True := by
  induction fields generalizing h with
  | nil => exact .pure fun _ _ => trivial
  | cons field fields ih =>
    obtain ⟨name, ty, init⟩ := field
    refine .bind ((hself (.expr hfields.left)).inFrame f) fun h₁ v _ hv => ?_
    exact .bind (writeRecord_upholds ref _ hv) fun h₂ _ _ _ => ih hfields.right

theorem construct {i : Instance} (hi : i.In h) {vs : List Value} (hvs : ∀ v ∈ vs, v.In h) :
    Upholds h (construct self i vs) (construct self' i vs) Value.In := by
  unfold Evaluation.construct
  cases hd : i.cls.declaration.method? ClassDecl.constructorName with
  | none => exact .pure fun _ hg => .instance (hi.grow hg)
  | some d =>
    refine .bind (bindMethod_upholds hi (hi.cls.method? hd)) fun h₁ b hg hb => ?_
    refine .bind (hself.runMethod hb.1 hb.2 (values_in_grow hvs hg)) fun h₂ _ hg₂ _ => ?_
    exact .pure fun _ hg₃ => .instance (hi.grow (hg.trans (hg₂.trans hg₃)))

theorem instantiate {c : Class} (hc : Sited c.declaration.sites) {vs : List Value}
    (hvs : ∀ v ∈ vs, v.In h) :
    Upholds h (instantiate self c vs) (instantiate self' c vs) Value.In := by
  rw [instantiate_eq, instantiate_eq]
  refine .bind (.newRecord .nil .nil) fun h₁ ref hg href => ?_
  have hi : Instance.In h₁ ⟨c, ref⟩ := ⟨href, hc⟩
  split
  · exact hself.construct hi (values_in_grow hvs hg)
  · refine .bind (bindThis_upholds hi) fun h₂ f hg₂ _ => ?_
    refine .bind (hself.initFields f ref hc.fields) fun h₃ _ hg₃ _ => ?_
    exact hself.construct (hi.grow (hg₂.trans hg₃)) (values_in_grow hvs (hg.trans (hg₂.trans hg₃)))

theorem callEach {f : Value} (hf : f.In h) (t : Token) {vs : List Value} (hvs : ∀ v ∈ vs, v.In h) :
    Upholds h (callEach self f t vs) (callEach self' f t vs) fun h' ws => ∀ w ∈ ws, w.In h' := by
  induction vs generalizing h with
  | nil => exact .pure fun _ _ => by simp
  | cons v vs ih =>
    obtain ⟨hv, hvs⟩ := List.forall_mem_cons.1 hvs
    refine .bind (hself (.call hf (List.forall_mem_singleton.2 hv))) fun h₁ w hg hw => ?_
    refine .bind (ih (hf.grow hg) (values_in_grow hvs hg)) fun h₂ ws hg₂ hws => ?_
    exact .pure fun _ hg₃ =>
      List.forall_mem_cons.2 ⟨hw.grow (hg₂.trans hg₃), values_in_grow hws hg₃⟩

theorem mapList (t : Token) {vs : List Value} (hvs : ∀ v ∈ vs, v.In h) :
    Upholds h (mapList self t vs) (mapList self' t vs) Value.In := by
  unfold Evaluation.mapList
  split
  · next ref f vs =>
    refine .bind (P := fun h' xs => ∀ v ∈ xs, v.In h')
      (.inspect fun m hm _ v hv => hm.elements ref v (by simpa using hv)) fun h₁ xs hg hxs => ?_
    have hf : f.In h₁ := (hvs f (by simp)).grow hg
    refine .bind (hself.callEach hf t hxs) fun h₂ ws _ hws => .newList fun w hw => ?_
    exact hws w (by simpa using hw)
  · exact .raise _ _
  · exact .pure fun _ _ => .undefined

/-- What a call does, once it is allowed. -/
theorem invoke {v : Value} (hv : v.In h) (t : Token) {vs : List Value} (hvs : ∀ w ∈ vs, w.In h) :
    Upholds h (invoke self v t vs) (invoke self' v t vs) Value.In := by
  have hnative : ∀ n : Native, (Value.native n).In h →
      Upholds h (Evaluation.invoke self (.native n) t vs)
        (Evaluation.invoke self' (.native n) t vs) Value.In := by
    intro n hn
    obtain ⟨identity, name, arity, action⟩ := n
    cases action with
    | map => exact hself.mapList t hvs
    | _ => exact runNative_upholds hn t hvs
  cases hv with
  | function hd => exact hself.runBody hd _ hvs
  | method hd hi => exact hself.runMethod hd hi hvs
  | native hn => exact hnative _ (.native hn)
  | host hv => exact hnative _ (.host hv)
  | cls hd => exact hself.instantiate hd hvs
  | _ => exact .pure fun _ _ => .undefined

/-- The case of a call. -/
theorem callValue {v : Value} (hv : v.In h) (t : Token) {vs : List Value}
    (hvs : ∀ w ∈ vs, w.In h) :
    Upholds h (callValue self v t vs) (callValue self' v t vs) Value.In := by
  unfold Evaluation.callValue
  split
  · exact .raise _ _
  · split
    · exact .raise _ _
    · refine .bind (P := fun _ _ => True) (.inspect fun _ _ _ => trivial) fun h₁ depth hg _ => ?_
      split
      · exact .raise _ _
      · exact (hself.invoke (hv.grow hg) t (values_in_grow hvs hg)).asCall

/-! ### Running -/

theorem step : UpholdsTasks (step self) (step self') := by
  intro α h t post ht
  cases ht with
  | expr he => exact hself.evalExpr he
  | property hv => exact hself.property hv _
  | call hv hvs => exact hself.callValue hv _ hvs
  | stmt hs => exact hself.exec hs
  | loop he hs => exact hself.execLoop _ he hs

theorem runProgram {program : Program} (hp : Sited fun outer => stmtsSites outer program)
    {last : Value} (hlast : last.In h) :
    Upholds h (runProgram self program last) (runProgram self' program last) Value.In := by
  induction program generalizing h last with
  | nil => exact .pure fun _ hg => hlast.grow hg
  | cons s ss ih =>
    by_cases hs : ∃ e t, s = .expression e t
    · obtain ⟨e, t, rfl⟩ := hs
      exact .bind (hself (.expr hp.left.below)) fun h₁ v _ hv => ih hp.right hv
    · have hne : ∀ e t, s ≠ .expression e t := fun e t heq => hs ⟨e, t, heq⟩
      rw [Sims.runProgram_of_ne _ hne, Sims.runProgram_of_ne _ hne]
      exact .bind (hself (.stmt hp.left)) fun h₁ _ hg _ => ih hp.right (hlast.grow hg)

end UpholdsTasks

/-- The evaluator upholds what is asked, with any bound. -/
theorem upholds_run (fuel : Nat) : UpholdsTasks (run fuel) (run fuel) := by
  induction fuel with
  | zero => exact fun _ => .outOfFuel
  | succ fuel ih => exact ih.step

/-- What a task that succeeds leaves. -/
theorem run_ok_intact {fuel : Nat} {α : Type} {t : Task α} {post : Heap → α → Prop}
    {m m' : Machine} {a : α} (hm : m.Intact) (ht : Task.In m.heap t post)
    (h : run fuel t m = .ok a m') : m'.Intact ∧ m.heap.Evolves m'.heap ∧ post m'.heap a := by
  have hr : Upheld m.heap post (run fuel t m) := (upholds_run fuel ht hm (.refl _)).2
  rw [h] at hr
  cases hr with
  | ok hm' hg ha => exact ⟨hm', hg, ha⟩

/-! ### Configurations -/

/-- The machine is intact, and the task is one for it. -/
def Config.Intact (c : Config) : Prop :=
  c.machine.Intact ∧ ∃ post, Task.In c.machine.heap c.task post

/-- Stopping where nothing is in order makes no difference. -/
theorem UpholdsTasks.halting {self : Interpreter} (hself : UpholdsTasks self self) {c : Config}
    (hc : ¬c.Intact) (stop : Stop) : UpholdsTasks self (halting self c stop) := by
  intro α h t post ht m hm hg
  obtain ⟨-, hr⟩ := hself ht hm hg
  refine ⟨?_, hr⟩
  unfold Evaluation.halting
  dsimp only
  split
  · next heq =>
    subst heq
    exact absurd ⟨hm, post, ht.grow hg⟩ hc
  · rfl

theorem intact_of_calls {α : Type} {x : Interpreter → Eval α} {self : Interpreter} {m : Machine}
    {c : Config} {post : Heap → α → Prop} (hself : UpholdsTasks self self) (hm : m.Intact)
    (hx : ∀ {self self'}, UpholdsTasks self self' → Upholds m.heap (x self) (x self') post)
    (hcalls : Calls x self m c) : c.Intact := by
  by_contra hc
  refine Calls.not_of_const (x self m) (fun stop => ?_) hcalls
  exact (hx (hself.halting hc stop) hm (.refl _)).1

/-- Everything that is visited is in order. -/
theorem intact_of_visits {fuel : Nat} {α : Type} {x : Interpreter → Eval α} {m : Machine}
    {c : Config} {post : Heap → α → Prop} (h : Visits fuel x m c) (hm : m.Intact)
    (hx : ∀ {self self'}, UpholdsTasks self self' → Upholds m.heap (x self) (x self') post) :
    c.Intact := by
  induction h with
  | call hcalls => exact intact_of_calls (upholds_run _) hm hx hcalls
  | inside hcalls _ ih =>
    obtain ⟨hm₁, post₁, ht⟩ := intact_of_calls (upholds_run _) hm hx hcalls
    exact ih hm₁ fun hself => hself.step ht

end Evaluation

end ScopedScript
