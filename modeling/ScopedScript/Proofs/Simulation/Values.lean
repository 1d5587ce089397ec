import ScopedScript.Evaluation
import ScopedScript.Proofs.Alike
import ScopedScript.Proofs.Hosts
import ScopedScript.Proofs.Receivers

/-! # Values and heaps that are alike

Two runs are compared in lockstep: they make the same frames, lists, records and identities in the
same order, so a value of one run and the value in its place in the other have the same references
and identities.  They may differ in the trees that functions and classes carry, and in what the
scope analysis found for them.  A `Likeness` says how: it fixes which trees are alike, and demands
that alike variable nodes find their variables in the same frame.  Variables may have other names in
the second run (`Likeness.renamed`), as long as different variables of a region keep different names.

* `Likeness.tracked` is the choice between two uses.  If it is true, the frame that a function was
  made in has to be aligned with what surrounds the function; if it is false, nothing is asked.
  `Likeness.watched` is a choice of the same kind about the instances that frames hold in the first
  run.
* `Value.Alike`, `Record.Alike` and `Heap.Alike` are relative to the frames that there are, and
  persist when these grow.
* Alike values have the same text and the same type, and comparing them gives the same answer.  So no
  host can tell them apart (`Value.alike_indiscernible`).
* `Likeness.reported` is another choice: where in the second run an error may be that a host reports.
  The functions that are registered have to bear it out (`Machine.Alike.fits`). -/

namespace ScopedScript

/-- Does the action hold no value of its own? -/
def NativeAction.isPlain : NativeAction → Bool
  | .host _ _ => false
  | _ => true

/-- The fault with another name for the variable that it is about. -/
def RuntimeFault.about (name : String) : RuntimeFault → RuntimeFault
  | .undefinedVariable _ => .undefinedVariable name
  | .alreadyDeclared _ => .alreadyDeclared name
  | .parameterDeclared _ => .parameterDeclared name
  | .notIndexable _ type => .notIndexable name type
  | .notAssignable _ type => .notAssignable name type
  | .indexOutOfBounds shown _ length => .indexOutOfBounds shown name length
  | fault => fault

/-- What corresponds in two runs. -/
structure Likeness extends TreeLikeness where
  /-- Where the tokens are at which a host may report the same error. -/
  reported : Token → Token → Prop
  /-- Have functions to be made in aligned frames? -/
  tracked : Prop
  /-- What the scope analysis found for the first run. -/
  left : Distances
  /-- What the scope analysis found for the second run. -/
  right : Distances
  /-- What a variable of a region is called in the second run. -/
  renamed : Region → String → String
  /-- Have frames to go on holding the instances that they hold? -/
  watched : Prop
  same : ∀ {t t' : Token}, token t t' → t'.kind = t.kind ∧ t'.lexeme = t.lexeme
  unnamed : ∀ {t t' : Token}, token t t' → name t t'
  home : ∀ {ctx : Surroundings} {n n' : Node} {id id' : NodeId} {t t' : Token}
    {fr : Array Frame} {f : FrameId}, node ctx n n' → n.reference? = some (id, t) →
      n'.reference? = some (id', t') → (tracked → Aligned fr f ctx) →
      homeFrom left fr f id = homeFrom right fr f id'
  found : ∀ {ctx : Surroundings} {n n' : Node} {id : NodeId} {t t' : Token} {fr : Array Frame}
    {f g : FrameId} {frame : Frame}, node ctx n n' → n.reference? = some (id, t) → name t t' →
      (∃ id', n'.reference? = some (id', t')) → (tracked → Aligned fr f ctx) →
      homeFrom left fr f id = some g → fr[g]? = some frame →
      t'.lexeme = renamed frame.region t.lexeme
  declared : ∀ {ctx : Surroundings} {s s' : Stmt} {t t' : Token} {fr : Array Frame}
    {f : FrameId} {frame : Frame}, node ctx (.stmt s) (.stmt s') → s.declares? = some t →
      s'.declares? = some t' → name t t' → (tracked → Aligned fr f ctx) → fr[f]? = some frame →
      t'.lexeme = renamed frame.region t.lexeme
  params : ∀ {d d' : FunctionDecl}, function d d' →
    List.Forall₂ (Parameter.Alike toTreeLikeness) d.params d'.params →
    List.Forall₂ (fun p p' => p'.name = renamed (.function d) p.name) d.params d'.params
  injective : ∀ region, Function.Injective (renamed region)
  globals : ∀ x, renamed .globals x = x
  receiver : ∀ d, renamed (.receiver d) "this" = "this"
  returns : ∀ {ctx : Surroundings} {keyword : Token} {value : Stmt} {n' : Node},
    node ctx (.stmt (.returns keyword value)) n' → tracked → ctx.InFunction
  spares : ∀ {ctx : Surroundings} {n n' : Node}, node ctx n n' → watched → n.SparesThis
  spells : tracked → spelled := by exact fun _ => trivial
  unspelled : ¬spelled → (∀ {t t' : Token}, name t t' → token t t') ∧
    ∀ region x, renamed region x = x := by exact fun h => absurd trivial h

namespace Likeness

variable (R : Likeness)

/-- Frames have been added to, and go on holding instances if that is asked. -/
abbrev Grows (fr fr' : Array Frame) : Prop := Later R.watched fr fr'

/-- The frame is aligned with the surroundings, if that is asked. -/
def At (fr : Array Frame) (f : FrameId) (ctx : Surroundings) : Prop := R.tracked → Aligned fr f ctx

variable {R} {fr fr' fr'' : Array Frame} {f : FrameId} {ctx : Surroundings}

theorem At.grow (h : R.At fr f ctx) (hg : R.Grows fr fr') : R.At fr' f ctx := fun ht =>
  (h ht).grow hg.frames

theorem At.pending (h : R.At fr f ctx) (name : String) : R.At fr f (ctx.declare name .pending) :=
  fun ht => (h ht).declare name .pending (by simp)

theorem At.declared (h : R.At fr f ctx) {name : String} (standing : Standing)
    (hn : ∀ frame, fr[f]? = some frame → frame.vars.has name = true) :
    R.At fr f (ctx.declare name standing) := fun ht =>
  (h ht).declare name standing fun _ => hn

theorem At.introduced (h : R.At fr f ctx) {name : String} (sure : Bool)
    (hn : ∀ frame, fr[f]? = some frame → frame.vars.has name = true) :
    R.At fr f (ctx.introduce name sure) :=
  (h.pending name).declared _ hn

theorem At.after_unsure (h : R.At fr f ctx) (s : Stmt) : R.At fr f (s.after false ctx) := fun ht =>
  (h ht).after_unsure s

theorem At.optionAfter_unsure (h : R.At fr f ctx) (o : Option Stmt) :
    R.At fr f (optionAfter false ctx o) := fun ht => (h ht).optionAfter_unsure o

theorem kind_eq {t t' : Token} (h : R.token t t') : t'.kind = t.kind := (R.same h).1

theorem lexeme_eq {t t' : Token} (h : R.token t t') : t'.lexeme = t.lexeme := (R.same h).2

end Likeness

/-! ### Rows of related things -/

section Rows

variable {α β : Type} {P Q : α → α → Prop}

theorem forall₂_map_eq {f g : α → β} {xs ys : List α} (h : List.Forall₂ P xs ys)
    (hfg : ∀ x y, P x y → f x = g y) : xs.map f = ys.map g := by
  induction h with
  | nil => rfl
  | cons hxy _ ih => rw [List.map_cons, List.map_cons, hfg _ _ hxy, ih]

theorem forall₂_getElem? {xs ys : List α} (h : List.Forall₂ P xs ys) (i : Nat) :
    Option.Rel P xs[i]? ys[i]? := by
  induction h generalizing i with
  | nil => exact .none
  | cons hxy _ ih =>
    cases i with
    | zero => exact .some hxy
    | succ i => exact ih i

theorem forall₂_modify {xs ys : List α} (h : List.Forall₂ P xs ys) (i : Nat) {f g : α → α}
    (hfg : ∀ x y, xs[i]? = some x → P x y → P (f x) (g y)) :
    List.Forall₂ P (xs.modify i f) (ys.modify i g) := by
  induction h generalizing i with
  | nil => cases i <;> exact .nil
  | cons hxy ht ih =>
    cases i with
    | zero => exact .cons (hfg _ _ rfl hxy) ht
    | succ i => exact .cons hxy (ih i hfg)

theorem forall₂_set {xs ys : List α} (h : List.Forall₂ P xs ys) (i : Nat) {a b : α}
    (hab : P a b) : List.Forall₂ P (xs.set i a) (ys.set i b) := by
  induction h generalizing i with
  | nil => exact .nil
  | cons hxy ht ih =>
    cases i with
    | zero => exact .cons hab ht
    | succ i => exact .cons hxy (ih i)

theorem forall₂_find? {xs ys : List α} (h : List.Forall₂ P xs ys) {p q : α → Bool}
    (hpq : ∀ x y, P x y → p x = q y) : Option.Rel P (xs.find? p) (ys.find? q) := by
  induction h with
  | nil => exact .none
  | @cons x y xs ys hxy _ ih =>
    rw [List.find?_cons, List.find?_cons, ← hpq x y hxy]
    cases p x with
    | true => exact .some hxy
    | false => exact ih

theorem forall₂_zip {xs xs' ys ys' : List α}
    (hx : List.Forall₂ P xs xs') (hy : List.Forall₂ P ys ys') :
    List.Forall₂ (fun p p' => P p.1 p'.1 ∧ P p.2 p'.2) (xs.zip ys) (xs'.zip ys') := by
  induction hx generalizing ys ys' with
  | nil => exact .nil
  | cons hxy _ ih =>
    cases hy with
    | nil => exact .nil
    | cons hyz ht => exact .cons ⟨hxy, hyz⟩ (ih ht)

theorem forall₂_all {p q : α → Bool} {xs ys : List α}
    (h : List.Forall₂ P xs ys) (hpq : ∀ x y, P x y → q y = p x) : ys.all q = xs.all p := by
  induction h with
  | nil => rfl
  | cons hxy _ ih => rw [List.all_cons, List.all_cons, hpq _ _ hxy, ih]

/-- Arrays whose elements are related, one by one. -/
def ArrayAlike (P : α → α → Prop) (xs ys : Array α) : Prop := List.Forall₂ P xs.toList ys.toList

namespace ArrayAlike

variable {xs ys : Array α}

theorem size_eq (h : ArrayAlike P xs ys) : ys.size = xs.size := by
  rw [← Array.length_toList, ← Array.length_toList]
  exact (List.Forall₂.length_eq h).symm

theorem imp (h : ArrayAlike P xs ys) (hPQ : ∀ x y, P x y → Q x y) : ArrayAlike Q xs ys :=
  List.Forall₂.imp hPQ h

theorem getElem? (h : ArrayAlike P xs ys) (i : Nat) : Option.Rel P xs[i]? ys[i]? := by
  rw [← Array.getElem?_toList, ← Array.getElem?_toList]
  exact forall₂_getElem? h i

theorem push (h : ArrayAlike P xs ys) {a b : α} (hab : P a b) :
    ArrayAlike P (xs.push a) (ys.push b) := by
  unfold ArrayAlike
  rw [Array.toList_push, Array.toList_push]
  exact List.rel_append h (.cons hab .nil)

theorem modify (h : ArrayAlike P xs ys) (i : Nat) {f g : α → α}
    (hfg : ∀ x y, xs[i]? = some x → P x y → P (f x) (g y)) :
    ArrayAlike P (xs.modify i f) (ys.modify i g) := by
  unfold ArrayAlike
  rw [Array.toList_modify, Array.toList_modify]
  exact forall₂_modify h i fun x y hx => hfg x y (by rwa [← Array.getElem?_toList])

theorem setIfInBounds (h : ArrayAlike P xs ys) (i : Nat) {a b : α} (hab : P a b) :
    ArrayAlike P (xs.setIfInBounds i a) (ys.setIfInBounds i b) := by
  unfold ArrayAlike
  rw [Array.toList_setIfInBounds, Array.toList_setIfInBounds]
  exact forall₂_set h i hab

theorem getD (h : ArrayAlike P xs ys) (i : Nat) {a b : α} (hab : P a b) :
    P (xs.getD i a) (ys.getD i b) := by
  have hi := h.getElem? i
  rw [Array.getD_eq_getD_getElem?, Array.getD_eq_getD_getElem?]
  generalize xs[i]? = a?, ys[i]? = b? at hi
  cases hi with
  | none => exact hab
  | some hxy => exact hxy

end ArrayAlike

end Rows

/-! ### What cannot be told apart -/

section

variable {rel : Value → Value → Prop} {h h' : Heap} {v v' w w' : Value}

/-- A sealed value is equal to others by itself. -/
theorem Value.equalWithin_of_sealed (h : Heap) (budget : Nat) (chain : List (Container × Container))
    (hs : v.isSealed = true ∨ w.isSealed = true) :
    v.equalWithin h budget chain w = sameClosed v w := by
  cases budget with
  | zero => simp only [equalWithin]
  | succ budget =>
    rcases hs with hs | hs
    · cases v <;> cases hs <;> simp only [equalWithin]
    · cases w <;> cases hs <;> cases v <;> simp only [equalWithin]

theorem Indiscernible.equalWithin (hrel : Indiscernible rel) (hh : h.Related rel h') (budget : Nat)
    (chain : List (Container × Container)) (hv : rel v v') (hw : rel w w') :
    v'.equalWithin h' budget chain w' = v.equalWithin h budget chain w := by
  induction budget generalizing chain v v' w w' with
  | zero => simpa only [Value.equalWithin] using hrel.same hv hw
  | succ budget ih =>
    by_cases hs : v.isSealed = true ∨ w.isSealed = true
    · have hs' : v'.isSealed = true ∨ w'.isSealed = true := by
        rwa [hrel.isSealed hv, hrel.isSealed hw]
      rw [Value.equalWithin_of_sealed _ _ _ hs, Value.equalWithin_of_sealed _ _ _ hs']
      exact hrel.same hv hw
    · obtain ⟨hv', hw'⟩ := not_or.1 hs
      obtain rfl := hrel.eq_of_plain hv (Bool.eq_false_iff.2 hv')
      obtain rfl := hrel.eq_of_plain hw (Bool.eq_false_iff.2 hw')
      cases v' with
      | list r =>
        cases w' with
        | list s =>
          have hr := rowsRelated_iff.1 (hh.elements r)
          have hs := rowsRelated_iff.1 (hh.elements s)
          simp only [Value.equalWithin]
          rw [hr.length_eq, hs.length_eq, forall₂_all (forall₂_zip hr hs) fun p q hpq =>
            ih ((.list r, .list s) :: chain) hpq.1 hpq.2]
        | _ => rfl
      | object r =>
        cases w' with
        | object s =>
          have hr := rowsRelated_iff.1 (hh.record r)
          have hs := rowsRelated_iff.1 (hh.record s)
          simp only [Value.equalWithin]
          rw [hr.length_eq, hs.length_eq, forall₂_all (forall₂_zip hr hs) fun p q hpq => by
            rw [hpq.1.1, hpq.2.1, ih ((.object r, .object s) :: chain) hpq.1.2 hpq.2.2]]
        | _ => rfl
      | _ => cases w' <;> rfl

/-- Comparing values that cannot be told apart gives the same answer. -/
theorem Indiscernible.equal (hrel : Indiscernible rel) (hh : h.Related rel h') (hv : rel v v')
    (hw : rel w w') : v'.equal h' w' = v.equal h w := by
  have hlists := hh.lists.length_eq
  have hrecords := hh.records.length_eq
  simp only [Array.length_toList] at hlists hrecords
  unfold Value.equal Value.pairBound
  rw [hlists, hrecords]
  exact hrel.equalWithin hh _ _ hv hw

end

/-! ### Values -/

section

variable (R : Likeness) (fr : Array Frame)

/-- Functions that are alike, made in the same frame. -/
structure Closure.Alike (c c' : Closure) : Prop where
  identity : c'.identity = c.identity
  frame : c'.frame = c.frame
  anonymous : c'.anonymous = c.anonymous
  declaration : ∃ ctx, R.At fr c.frame ctx ∧
    c.declaration.Alike R.toTreeLikeness ctx c'.declaration

/-- Classes that are alike, declared in the same frame. -/
structure Class.Alike (c c' : Class) : Prop where
  identity : c'.identity = c.identity
  frame : c'.frame = c.frame
  declaration : ∃ ctx, R.At fr c.frame ctx ∧
    c.declaration.Alike R.toTreeLikeness ctx c'.declaration

/-- Instances of alike classes that have the same fields. -/
structure Instance.Alike (i i' : Instance) : Prop where
  cls : i.cls.Alike R fr i'.cls
  fields : i'.fields = i.fields

/-- Methods that are alike, bound to alike instances in the same frame. -/
structure Method.Alike (b b' : Method) : Prop where
  identity : b'.identity = b.identity
  frame : b'.frame = b.frame
  receiver : b.receiver.Alike R fr b'.receiver
  bound : R.watched → HeldAt fr b.frame b.receiver
  declaration : ∃ ctx, R.At fr b.frame ctx ∧
    b.declaration.Alike R.toTreeLikeness ctx b'.declaration

/-- Values that are alike. -/
inductive Value.Alike : Value → Value → Prop
  | num (x : Float) : Value.Alike (.num x) (.num x)
  | str (s : String) : Value.Alike (.str s) (.str s)
  | bool (b : Bool) : Value.Alike (.bool b) (.bool b)
  | null : Value.Alike .null .null
  | undefined : Value.Alike .undefined .undefined
  | list (ref : Ref) : Value.Alike (.list ref) (.list ref)
  | object (ref : Ref) : Value.Alike (.object ref) (.object ref)
  | function {c c' : Closure} : c.Alike R fr c' → Value.Alike (.function c) (.function c')
  | method {b b' : Method} : b.Alike R fr b' → Value.Alike (.method b) (.method b')
  | native {identity arity : Nat} {name : String} {action : NativeAction} :
      action.isPlain = true → Value.Alike (.native (.mk identity name arity action))
        (.native (.mk identity name arity action))
  | host {identity arity index : Nat} {name : String} {v v' : Value} : Value.Alike v v' →
      Value.Alike (.native (.mk identity name arity (.host index v)))
        (.native (.mk identity name arity (.host index v')))
  | cls {c c' : Class} : c.Alike R fr c' → Value.Alike (.cls c) (.cls c')
  | instance {i i' : Instance} : i.Alike R fr i' → Value.Alike (.instance i) (.instance i')

/-- Records with corresponding names and alike values. -/
def Record.Alike (renamed : String → String) (r r' : Record Value) : Prop :=
  List.Forall₂ (fun p p' => p'.1 = renamed p.1 ∧ Value.Alike R fr p.2 p'.2) r r'

/-- Heaps whose lists and records are alike. -/
structure Heap.Alike (h h' : Heap) : Prop where
  lists : ArrayAlike (ArrayAlike (Value.Alike R fr)) h.lists h'.lists
  records : ArrayAlike (Record.Alike R fr id) h.records h'.records

end

/-! ### Keeping likeness -/

/-- What is alike by `R` among the frames `fr` is alike by `R'` among `fr'`. -/
structure Carries (R R' : Likeness) (fr fr' : Array Frame) : Prop where
  trees : Sharpens R.toTreeLikeness R'.toTreeLikeness (· = ·) (fun _ => True) (fun _ => True)
  aligned : ∀ {f ctx}, R.At fr f ctx → R'.At fr' f ctx
  held : ∀ {f i}, (R.watched → HeldAt fr f i) → R'.watched → HeldAt fr' f i

theorem Likeness.Grows.carries {R : Likeness} {fr fr' : Array Frame} (hg : R.Grows fr fr') :
    Carries R R fr fr' where
  trees := ⟨id, id, id, fun _ ⟨_, hf⟩ => hf.function, fun _ _ _ hn => hn, fun _ h => h ▸ rfl,
    fun _ _ h => h ▸ rfl, id⟩
  aligned := fun h => h.grow hg
  held := fun h hw => (hg.keeps hw).held _ _ (h hw)

section

variable {R R' : Likeness} {fr fr' : Array Frame}

theorem Carries.function (h : Carries R R' fr fr') {f : FrameId} {d d' : FunctionDecl} :
    (∃ ctx, R.At fr f ctx ∧ d.Alike R.toTreeLikeness ctx d') →
      ∃ ctx, R'.At fr' f ctx ∧ d.Alike R'.toTreeLikeness ctx d'
  | ⟨ctx, hctx, hd⟩ => ⟨ctx, h.aligned hctx,
      hd.refine h.trees rfl d d.exists_site (fun _ _ => trivial) (fun _ _ => trivial)⟩

theorem Carries.class (h : Carries R R' fr fr') {f : FrameId} {d d' : ClassDecl} :
    (∃ ctx, R.At fr f ctx ∧ d.Alike R.toTreeLikeness ctx d') →
      ∃ ctx, R'.At fr' f ctx ∧ d.Alike R'.toTreeLikeness ctx d'
  | ⟨ctx, hctx, hd⟩ => ⟨ctx, h.aligned hctx,
      hd.refine h.trees rfl d (fun m _ => m.exists_site) (fun _ _ => trivial)
        (fun _ _ => trivial)⟩

theorem Class.Alike.carry {c c' : Class} (hc : c.Alike R fr c') (h : Carries R R' fr fr') :
    c.Alike R' fr' c' :=
  ⟨hc.identity, hc.frame, h.class hc.declaration⟩

theorem Instance.Alike.carry {i i' : Instance} (hi : i.Alike R fr i') (h : Carries R R' fr fr') :
    i.Alike R' fr' i' :=
  ⟨hi.cls.carry h, hi.fields⟩

theorem Value.Alike.carry {v v' : Value} (hv : v.Alike R fr v') (h : Carries R R' fr fr') :
    v.Alike R' fr' v' := by
  induction hv with
  | num x => exact .num x
  | str s => exact .str s
  | bool b => exact .bool b
  | null => exact .null
  | undefined => exact .undefined
  | list ref => exact .list ref
  | object ref => exact .object ref
  | function hc => exact .function ⟨hc.identity, hc.frame, hc.anonymous, h.function hc.declaration⟩
  | method hb =>
    exact .method ⟨hb.identity, hb.frame, hb.receiver.carry h, h.held hb.bound,
      h.function hb.declaration⟩
  | native hp => exact .native hp
  | host _ ih => exact .host ih
  | cls hc => exact .cls (hc.carry h)
  | «instance» hi => exact .instance (hi.carry h)

theorem Record.Alike.carry {renamed : String → String} {r r' : Record Value}
    (hr : Record.Alike R fr renamed r r') (h : Carries R R' fr fr') :
    Record.Alike R' fr' renamed r r' :=
  List.Forall₂.imp (fun _ _ hp => ⟨hp.1, hp.2.carry h⟩) hr

theorem Heap.Alike.carry {h h' : Heap} (hh : h.Alike R fr h') (hc : Carries R R' fr fr') :
    h.Alike R' fr' h' :=
  ⟨hh.lists.imp fun _ _ hxs => hxs.imp fun _ _ hv => hv.carry hc,
    hh.records.imp fun _ _ hr => hr.carry hc⟩

theorem Class.Alike.grow {c c' : Class} (hc : c.Alike R fr c') (hg : R.Grows fr fr') :
    c.Alike R fr' c' := hc.carry hg.carries

theorem Instance.Alike.grow {i i' : Instance} (hi : i.Alike R fr i') (hg : R.Grows fr fr') :
    i.Alike R fr' i' := hi.carry hg.carries

theorem Value.Alike.grow {v v' : Value} (hv : v.Alike R fr v') (hg : R.Grows fr fr') :
    v.Alike R fr' v' := hv.carry hg.carries

theorem values_grow {vs vs' : List Value} (h : List.Forall₂ (Value.Alike R fr) vs vs')
    (hg : R.Grows fr fr') : List.Forall₂ (Value.Alike R fr') vs vs' :=
  h.imp fun _ _ hv => hv.grow hg

theorem Record.Alike.grow {renamed : String → String} {r r' : Record Value}
    (hr : Record.Alike R fr renamed r r') (hg : R.Grows fr fr') : Record.Alike R fr' renamed r r' :=
  hr.carry hg.carries

theorem Heap.Alike.grow {h h' : Heap} (hh : h.Alike R fr h') (hg : R.Grows fr fr') :
    h.Alike R fr' h' := hh.carry hg.carries

end

/-! ### Records -/

namespace Record.Alike

variable {R : Likeness} {fr : Array Frame} {renamed : String → String} {r r' : Record Value}

theorem get? (h : Record.Alike R fr renamed r r') (hinj : Function.Injective renamed)
    (name : String) : Option.Rel (Value.Alike R fr) (r.get? name) (r'.get? (renamed name)) := by
  induction h with
  | nil => exact .none
  | @cons p p' r r' hp _ ih =>
    obtain ⟨k, v⟩ := p
    obtain ⟨k', v'⟩ := p'
    obtain ⟨rfl, hv⟩ := hp
    simp only [Record.get?_cons, hinj.eq_iff]
    split
    · exact .some hv
    · exact ih

theorem has (h : Record.Alike R fr renamed r r') (hinj : Function.Injective renamed)
    (name : String) : r'.has (renamed name) = r.has name := by
  have hg := h.get? hinj name
  unfold Record.has
  generalize r.get? name = a, r'.get? (renamed name) = b at hg
  cases hg <;> rfl

theorem set (h : Record.Alike R fr renamed r r') (hinj : Function.Injective renamed)
    (name : String) {v v' : Value} (hv : v.Alike R fr v') :
    Record.Alike R fr renamed (r.set name v) (r'.set (renamed name) v') := by
  induction h with
  | nil => exact .cons ⟨rfl, hv⟩ .nil
  | @cons p p' r r' hp hr ih =>
    obtain ⟨k, w⟩ := p
    obtain ⟨k', w'⟩ := p'
    obtain ⟨rfl, hw⟩ := hp
    simp only [Record.set, beq_iff_eq, hinj.eq_iff]
    split
    · exact .cons ⟨rfl, hv⟩ hr
    · exact .cons ⟨rfl, hw⟩ ih

end Record.Alike

/-! ### Classes and functions -/

section

variable {R : Likeness} {ctx : Surroundings}

/-- The parameters have the names that go with each other in the frame of a call. -/
theorem FunctionDecl.Alike.renamed {d d' : FunctionDecl} (h : d.Alike R.toTreeLikeness ctx d') :
    List.Forall₂ (fun p p' => p'.name = R.renamed (.function d) p.name) d.params d'.params := by
  have hparams := h.params
  obtain ⟨name, params, body, result⟩ := d
  obtain ⟨name', params', body', result', rfl, _, _, _, hf, _⟩ := h
  exact R.params hf hparams

/-- Looking up a method finds alike ones, or none. -/
theorem ClassDecl.Alike.method? {d d' : ClassDecl} (h : d.Alike R.toTreeLikeness ctx d')
    (name : String) :
    Option.Rel (FunctionDecl.Alike R.toTreeLikeness (ctx.enterClass d)) (d.method? name)
      (d'.method? name) := by
  obtain ⟨cname, methods, fields⟩ := d
  obtain ⟨cname', methods', fields', rfl, _, _, hms⟩ := h
  refine forall₂_find? (List.rel_reverse (methodsAlike_iff.1 hms)) fun m m' hm => ?_
  rw [R.lexeme_eq hm.name]

theorem ClassDecl.Alike.arity {d d' : ClassDecl} (h : d.Alike R.toTreeLikeness ctx d') :
    d'.arity = d.arity := by
  have hm := h.method? ClassDecl.constructorName
  unfold ClassDecl.arity
  generalize d.method? _ = a, d'.method? _ = b at hm
  cases hm with
  | none => rfl
  | some hm => exact hm.arity

end

/-! ### What can be seen of a value -/

section

variable {R : Likeness} {fr : Array Frame} {h h' : Heap} {v v' w w' : Value}

theorem Heap.Alike.elements (hh : h.Alike R fr h') (ref : Ref) :
    ArrayAlike (Value.Alike R fr) (h.elements ref) (h'.elements ref) :=
  hh.lists.getD ref .nil

theorem Heap.Alike.record (hh : h.Alike R fr h') (ref : Ref) :
    Record.Alike R fr id (h.record ref) (h'.record ref) :=
  hh.records.getD ref .nil

theorem Value.Alike.typeName (hv : v.Alike R fr v') : v'.typeName = v.typeName := by
  cases hv <;> rfl

theorem Value.Alike.arity? (hv : v.Alike R fr v') : v'.arity? = v.arity? := by
  cases hv with
  | function hc =>
    obtain ⟨ctx, _, hd⟩ := hc.declaration
    exact congrArg some hd.arity
  | method hb =>
    obtain ⟨ctx, _, hd⟩ := hb.declaration
    exact congrArg some hd.arity
  | cls hc =>
    obtain ⟨ctx, _, hd⟩ := hc.declaration
    exact congrArg some hd.arity
  | _ => rfl

theorem Value.Alike.closedText (hv : v.Alike R fr v') : v'.closedText = v.closedText := by
  cases hv with
  | function hc =>
    obtain ⟨ctx, _, hd⟩ := hc.declaration
    simp only [Value.closedText, hc.anonymous, R.lexeme_eq hd.name]
  | method hb =>
    obtain ⟨ctx, _, hd⟩ := hb.declaration
    simp only [Value.closedText, R.lexeme_eq hd.name]
  | cls hc =>
    obtain ⟨ctx, _, hd⟩ := hc.declaration
    simp only [Value.closedText, R.lexeme_eq hd.name]
  | «instance» hi =>
    obtain ⟨ctx, _, hd⟩ := hi.cls.declaration
    simp only [Value.closedText, R.lexeme_eq hd.name]
  | _ => rfl

theorem Value.Alike.sameClosed (hv : v.Alike R fr v') (hw : w.Alike R fr w') :
    Value.sameClosed v' w' = Value.sameClosed v w := by
  cases hv with
  | function hc =>
    cases hw with
    | function hd => simp only [Value.sameClosed, hc.identity, hd.identity]
    | _ => rfl
  | method hc =>
    cases hw with
    | method hd => simp only [Value.sameClosed, hc.identity, hd.identity]
    | _ => rfl
  | cls hc =>
    cases hw with
    | cls hd => simp only [Value.sameClosed, hc.identity, hd.identity]
    | _ => rfl
  | «instance» hc =>
    cases hw with
    | «instance» hd => simp only [Value.sameClosed, hc.fields, hd.fields]
    | _ => rfl
  | _ => cases hw <;> rfl

/-- No host can tell alike values apart. -/
theorem Value.alike_indiscernible (R : Likeness) (fr : Array Frame) :
    Indiscernible (Value.Alike R fr) where
  plain {v} hv := by
    cases v with
    | num x => exact .num x
    | str s => exact .str s
    | bool b => exact .bool b
    | null => exact .null
    | undefined => exact .undefined
    | list ref => exact .list ref
    | object ref => exact .object ref
    | _ => cases hv
  eq_of_plain hv hs := by
    cases hv <;> first | rfl | cases hs
  typeName hv := hv.typeName
  closedText hv := hv.closedText
  same hv hw := hv.sameClosed hw

theorem Heap.alike_iff_related : h.Alike R fr h' ↔ h.Related (Value.Alike R fr) h' := by
  rw [Heap.related_iff]
  exact ⟨fun hh => ⟨hh.lists, hh.records⟩, fun hh => ⟨hh.1, hh.2⟩⟩

/-- Alike values have the same text. -/
theorem Value.Alike.text (hh : h.Alike R fr h') (hv : v.Alike R fr v') : v'.text h' = v.text h :=
  (Value.alike_indiscernible R fr).text (Heap.alike_iff_related.1 hh) hv

/-- Comparing alike values gives the same answer. -/
theorem Value.Alike.equal (hh : h.Alike R fr h') (hv : v.Alike R fr v') (hw : w.Alike R fr w') :
    v'.equal h' w' = v.equal h w :=
  (Value.alike_indiscernible R fr).equal (Heap.alike_iff_related.1 hh) hv hw

end

/-! ### Machines -/

section

variable (R : Likeness)

/-- Frames inside the same frame, with alike variables. -/
structure Frame.Alike (fr : Array Frame) (f f' : Frame) : Prop where
  parent : f'.parent = f.parent
  vars : Record.Alike R fr (R.renamed f.region) f.vars f'.vars

/-- Machines that are at the same point of two runs. -/
structure Machine.Alike (m m' : Machine) : Prop where
  frames : ArrayAlike (Frame.Alike R m.frames) m.frames m'.frames
  globals : ∃ vars, m.frames[Machine.globalFrame]? = some ⟨.globals, none, vars⟩
  heap : m.heap.Alike R m.frames m'.heap
  nextIdentity : m'.nextIdentity = m.nextIdentity
  left : m.distances = R.left
  right : m'.distances = R.right
  frame : m'.frame = m.frame
  depth : m'.depth = m.depth
  sink : m'.sink = m.sink
  input : m'.input = m.input
  clock : m'.clock = m.clock
  ticks : m'.ticks = m.ticks
  hosts : m'.hosts = m.hosts
  fits : ∀ f ∈ m.hosts, f.Respects R.token R.reported
  proper : R.watched → AllProper m.frames

/-- Stops for the same reason at alike tokens.  A fault may be about the variable that its token
names; an error of a host is where the host may report it. -/
inductive Stop.Alike : Stop → Stop → Prop
  | raised (fault : RuntimeFault) {t t' : Token} : R.token t t' →
      Stop.Alike (.raised ⟨fault, t⟩) (.raised ⟨fault, t'⟩)
  | named (fault : RuntimeFault) {t t' : Token} : R.name t t' →
      Stop.Alike (.raised ⟨fault.about t.lexeme, t⟩) (.raised ⟨fault.about t'.lexeme, t'⟩)
  | reported (message : String) {t t' : Token} : R.reported t t' →
      Stop.Alike (.raised ⟨.host message, t⟩) (.raised ⟨.host message, t'⟩)
  | outOfFuel : Stop.Alike .outOfFuel .outOfFuel

end

section

variable {R : Likeness} {m m' : Machine}

theorem frames_grow {fr fr' : Array Frame} {xs xs' : Array Frame}
    (h : ArrayAlike (Frame.Alike R fr) xs xs') (hg : R.Grows fr fr') :
    ArrayAlike (Frame.Alike R fr') xs xs' :=
  h.imp fun _ _ hf => ⟨hf.parent, hf.vars.grow hg⟩

/-- Looking up a variable of a frame: both machines have it, with alike values, or neither has. -/
theorem Machine.Alike.get? (h : m.Alike R m') {f : FrameId} {x x' : String}
    (hx : ∀ frame, m.frames[f]? = some frame → x' = R.renamed frame.region x) :
    Option.Rel (Value.Alike R m.frames) ((m.vars f).get? x) ((m'.vars f).get? x') := by
  have hf := h.frames.getElem? f
  unfold Machine.vars
  generalize m.frames[f]? = a, m'.frames[f]? = b at hf hx
  cases hf with
  | none => exact .none
  | some hf =>
    obtain rfl := hx _ rfl
    exact hf.vars.get? (R.injective _) x

theorem Machine.Alike.has (h : m.Alike R m') {f : FrameId} {x x' : String}
    (hx : ∀ frame, m.frames[f]? = some frame → x' = R.renamed frame.region x) :
    (m'.vars f).has x' = (m.vars f).has x := by
  have hg := h.get? hx
  unfold Record.has
  generalize (m.vars f).get? x = a, (m'.vars f).get? x' = b at hg
  cases hg <;> rfl

/-- Globals keep their names. -/
theorem Machine.Alike.globalName (h : m.Alike R m') {frame : Frame}
    (hframe : m.frames[Machine.globalFrame]? = some frame) (x : String) :
    x = R.renamed frame.region x := by
  obtain ⟨vars, hvars⟩ := h.globals
  obtain rfl := Option.some.inj (hvars.symm.trans hframe)
  exact (R.globals x).symm

/-- Machines that are alike by one likeness are so by another, each with the distances of that. -/
theorem Machine.Alike.carry {R' : Likeness} (h : m.Alike R m') (hc : Carries R R' m.frames m.frames)
    (hfits : ∀ f ∈ m.hosts, f.Respects R'.token R'.reported) (hrenamed : R'.renamed = R.renamed)
    (hproper : R'.watched → AllProper m.frames) :
    Machine.Alike R' { m with distances := R'.left } { m' with distances := R'.right } :=
  { h with
    frames := h.frames.imp fun _ _ hf => ⟨hf.parent, hrenamed ▸ hf.vars.carry hc⟩
    heap := h.heap.carry hc
    left := rfl
    right := rfl
    fits := hfits
    proper := hproper }

theorem outward?_congr {P : Frame → Frame → Prop} {xs ys : Array Frame}
    (hP : ∀ f f', P f f' → f'.parent = f.parent) (h : ArrayAlike P xs ys) (d : Nat) (f : FrameId) :
    Machine.outward? ys d f = Machine.outward? xs d f := by
  induction d generalizing f with
  | zero => rfl
  | succ d ih =>
    have hf := h.getElem? f
    unfold Machine.outward?
    generalize xs[f]? = a, ys[f]? = b at hf
    cases hf with
    | none => rfl
    | @some x y hxy =>
      obtain ⟨region, parent, vars⟩ := x
      obtain ⟨region', parent', vars'⟩ := y
      obtain rfl : parent' = parent := hP _ _ hxy
      cases parent' with
      | none => rfl
      | some parent => exact ih parent

/-- Alike variable nodes find their variables in the same frame. -/
theorem Machine.Alike.home? (h : m.Alike R m') {ctx : Surroundings} {n n' : Node}
    {id id' : NodeId} {t t' : Token} (hctx : R.At m.frames m.frame ctx) (hn : R.node ctx n n')
    (hr : n.reference? = some (id, t)) (hr' : n'.reference? = some (id', t')) :
    m'.home? id' = m.home? id := by
  rw [Machine.home?_eq, Machine.home?_eq, h.left, h.right, R.home hn hr hr' hctx, h.frame]
  unfold homeFrom
  split
  · exact outward?_congr (fun _ _ hf => hf.parent) h.frames _ _
  · rfl

end

end ScopedScript
