import Mathlib
import ScopedScript.Value.Equality

/-! # Equality of cyclic values

A value unfolds to a tree, which is infinite where lists or objects contain themselves.  Here the
tree is a function from paths to *labels*: a label is what can be seen of a value without going
into it.  Two values *agree* if their trees have the same labels at all paths.

The comparison of two values keeps only the pairs that it is inside of, and takes a pair that comes
up again, or a container compared with itself, to be equal without a look inside.  It comes to the
right answer all the same (`equal_decides_bisimilarity`):

* It ends.  `Comparison` is the comparison with no bound on its depth.  A pair that is entered was
  not in the row before and both its containers are on the heap, so the bound on the depth is never
  reached (`comparison_equalWithin`).
* Values that agree are found equal (`Comparison.of_agree`), by induction on the comparison.
* Values that are found equal agree (`Comparison.apart`).  The induction is on the length of the
  shortest path at which the two trees differ.  A pair that the comparison is inside of has no path
  as short as that, so it is not the pair under comparison, and one of the pairs of children has a
  shorter one. -/

namespace ScopedScript

/-! ### Numbers -/

section

open Float.Model

/-- A number up to the sign of zero. -/
def unsignedZero : UnpackedFloat → UnpackedFloat
  | .zero _ => .zero .positive
  | x => x

theorem compare_eq_iff (x y : UnpackedFloat) : x.compare y = some .eq ↔
    x.isNaN = false ∧ unsignedZero x = unsignedZero y := by
  cases x with
  | notANumber => simp [UnpackedFloat.compare, UnpackedFloat.isNaN]
  | infinity s =>
    cases y with
    | infinity t =>
      cases s <;> cases t <;>
        simp [UnpackedFloat.compare, UnpackedFloat.isNaN, unsignedZero, compare]
    | _ => cases s <;> simp [UnpackedFloat.compare, UnpackedFloat.isNaN, unsignedZero]
  | zero s =>
    cases y with
    | infinity t | finite t =>
      cases t <;> simp [UnpackedFloat.compare, UnpackedFloat.isNaN, unsignedZero]
    | _ => simp [UnpackedFloat.compare, UnpackedFloat.isNaN, unsignedZero]
  | finite s m e hm =>
    cases y with
    | finite t m' e' hm' =>
      cases s <;> cases t <;>
        simp [UnpackedFloat.compare, UnpackedFloat.isNaN, unsignedZero, and_comm]
    | infinity t => cases t <;> simp [UnpackedFloat.compare, UnpackedFloat.isNaN, unsignedZero]
    | _ => cases s <;> simp [UnpackedFloat.compare, UnpackedFloat.isNaN, unsignedZero]

/-- Numbers are equal if they are numbers, and the same up to the sign of zero. -/
theorem beq_iff_sameNumber (x y : Float) : (x == y) = true ↔
    x.isNaN = false ∧ unsignedZero x.toModel.unpack = unsignedZero y.toModel.unpack := by
  rw [← show x.toModel.unpack.isNaN = x.isNaN from rfl, ← compare_eq_iff]
  change (x.toModel.unpack.compare y.toModel.unpack == some .eq) = true ↔ _
  simp

theorem isNaN_eq_of_sameNumber {x y : Float}
    (h : unsignedZero x.toModel.unpack = unsignedZero y.toModel.unpack) : x.isNaN = y.isNaN := by
  change x.toModel.unpack.isNaN = y.toModel.unpack.isNaN
  generalize x.toModel.unpack = a, y.toModel.unpack = b at h
  cases a <;> cases b <;> simp_all [unsignedZero, UnpackedFloat.isNaN]

end

/-! ### Unfoldings -/

/-- What can be seen of a value without going into it. -/
inductive Label where
  | num (value : Float)
  | str (value : String)
  | bool (value : Bool)
  | null
  | undefined
  | list (length : Nat)
  | object (keys : List String)
  | function (identity : Nat)
  | method (identity : Nat)
  | native (identity : Nat)
  | cls (identity : Nat)
  | instance (fields : Ref)

/-- Equality of labels: numbers by value, everything else the same. -/
inductive Label.Same : Label → Label → Prop
  | num {x y : Float} : (x == y) = true → Label.Same (.num x) (.num y)
  | other {a : Label} : (∀ x, a ≠ .num x) → Label.Same a a

namespace Label.Same

variable {a b c : Label}

theorem iff : a.Same b ↔
    (∃ x y, a = .num x ∧ b = .num y ∧ (x == y) = true) ∨ a = b ∧ ∀ x, a ≠ .num x := by
  constructor
  · intro h
    cases h with
    | num hxy => exact .inl ⟨_, _, rfl, rfl, hxy⟩
    | other ha => exact .inr ⟨rfl, ha⟩
  · rintro (⟨x, y, rfl, rfl, hxy⟩ | ⟨rfl, ha⟩)
    · exact .num hxy
    · exact .other ha

theorem refl (h : ∀ x, a = .num x → x.isNaN = false) : Label.Same a a := by
  by_cases ha : ∃ x, a = .num x
  · obtain ⟨x, rfl⟩ := ha
    exact .num ((beq_iff_sameNumber x x).2 ⟨h x rfl, rfl⟩)
  · exact .other fun x hx => ha ⟨x, hx⟩

theorem symm (h : Label.Same a b) : Label.Same b a := by
  cases h with
  | @num x y hxy =>
    obtain ⟨hnum, hsame⟩ := (beq_iff_sameNumber x y).1 hxy
    exact .num ((beq_iff_sameNumber y x).2 ⟨isNaN_eq_of_sameNumber hsame ▸ hnum, hsame.symm⟩)
  | other ha => exact .other ha

theorem trans (h : Label.Same a b) (h' : Label.Same b c) : Label.Same a c := by
  cases h with
  | other ha => exact h'
  | @num x y hxy =>
    cases h' with
    | @num _ z hyz =>
      obtain ⟨hnum, hsame⟩ := (beq_iff_sameNumber x y).1 hxy
      exact .num ((beq_iff_sameNumber x z).2
        ⟨hnum, hsame.trans ((beq_iff_sameNumber y z).1 hyz).2⟩)
    | other hb => exact absurd rfl (hb y)

end Label.Same

/-- The value whose reference a container is. -/
def Container.value : Container → Value
  | .list r => .list r
  | .object r => .object r

namespace Value

variable (h : Heap)

/-- What can be seen of a value without going into it. -/
def label : Value → Label
  | .num x => .num x
  | .str s => .str s
  | .bool b => .bool b
  | .null => .null
  | .undefined => .undefined
  | .list r => .list (h.elements r).size
  | .object r => .object (h.record r).keys
  | .function f => .function f.identity
  | .method m => .method m.identity
  | .native n => .native n.identity
  | .cls c => .cls c.identity
  | .instance i => .instance i.fields

/-- The values inside a list or an object, in order. -/
def children : Value → List Value
  | .list r => (h.elements r).toList
  | .object r => (h.record r).map Prod.snd
  | _ => []

/-- The value at the end of a path. -/
def follow : List Nat → Value → Option Value
  | [], v => some v
  | i :: path, v => (v.children h)[i]?.bind (follow path)

/-- The tree that a value unfolds to, as labels at the ends of paths. -/
def unfolding (v : Value) (path : List Nat) : Option Label := (v.follow h path).map (label h)

/-- The unfoldings are equal. -/
def Agree (v w : Value) : Prop :=
  ∀ path, Option.Rel Label.Same (v.unfolding h path) (w.unfolding h path)

/-- The unfoldings are equal at paths shorter than `d`. -/
def AgreeTo (d : Nat) (v w : Value) : Prop :=
  ∀ path, path.length < d → Option.Rel Label.Same (v.unfolding h path) (w.unfolding h path)

/-- No `NaN` can be reached. -/
def NaNFree (v : Value) : Prop := ∀ path x, v.follow h path = some (.num x) → x.isNaN = false

variable {h} {v w u : Value} {d : Nat}

theorem label_eq_num {x : Float} (hv : v.label h = .num x) : v = .num x := by
  cases v <;> simp_all [label]

theorem NaNFree.child (hv : v.NaNFree h) (hu : u ∈ v.children h) : u.NaNFree h := by
  intro path x hx
  obtain ⟨i, hi⟩ := List.mem_iff_getElem?.1 hu
  exact hv (i :: path) x (by rw [follow, hi]; exact hx)

/-! ### Agreement -/

theorem Agree.to (hvw : v.Agree h w) (d : Nat) : v.AgreeTo h d w := fun path _ => hvw path

theorem agree_of_to (hvw : ∀ d, v.AgreeTo h d w) : v.Agree h w := fun path =>
  hvw (path.length + 1) path (Nat.lt_succ_self _)

theorem AgreeTo.mono {d' : Nat} (hvw : v.AgreeTo h d w) (hd : d' ≤ d) : v.AgreeTo h d' w :=
  fun path hpath => hvw path (by omega)

theorem agreeTo_zero (v w : Value) : v.AgreeTo h 0 w := fun path hpath => by omega

/-- Values whose labels are the same have equally many children. -/
theorem children_length_eq (hvw : (v.label h).Same (w.label h)) :
    (v.children h).length = (w.children h).length := by
  generalize hv : v.label h = a, hw : w.label h = b at hvw
  cases hvw with
  | num _ => rw [label_eq_num hv, label_eq_num hw]; rfl
  | other _ =>
    subst hv
    cases v <;> cases w <;> simp_all [label, children]
    have := congrArg List.length hw
    simpa [Record.keys] using this.symm

theorem agreeTo_succ : v.AgreeTo h (d + 1) w ↔ (v.label h).Same (w.label h) ∧
    ∀ q ∈ (v.children h).zip (w.children h), q.1.AgreeTo h d q.2 := by
  constructor
  · intro hvw
    refine ⟨?_, fun q hq path hpath => ?_⟩
    · cases hvw [] (by simp) with
      | some hlabel => exact hlabel
    · obtain ⟨i, hi⟩ := List.mem_iff_getElem?.1 hq
      rw [List.getElem?_zip_eq_some] at hi
      have := hvw (i :: path) (by simpa using hpath)
      simpa [unfolding, follow, hi.1, hi.2] using this
  · rintro ⟨hlabel, hchildren⟩ path hpath
    cases path with
    | nil => exact .some hlabel
    | cons i path =>
      have hlength := children_length_eq hlabel
      by_cases hi : i < (v.children h).length
      · have hv := List.getElem?_eq_getElem hi
        have hw := List.getElem?_eq_getElem (hlength ▸ hi)
        have hmem : ((v.children h)[i], (w.children h)[i]) ∈ (v.children h).zip (w.children h) :=
          List.mem_iff_getElem?.2 ⟨i, List.getElem?_zip_eq_some.2 ⟨hv, hw⟩⟩
        simpa [unfolding, follow, hv, hw] using hchildren _ hmem path (by simpa using hpath)
      · have hv : (v.children h)[i]? = none := List.getElem?_eq_none (by omega)
        have hw : (w.children h)[i]? = none := List.getElem?_eq_none (by omega)
        simp only [unfolding, follow, hv, hw]
        exact .none

theorem agree_iff : v.Agree h w ↔ (v.label h).Same (w.label h) ∧
    ∀ q ∈ (v.children h).zip (w.children h), q.1.Agree h q.2 := by
  constructor
  · intro hvw
    exact ⟨(agreeTo_succ.1 (hvw.to 1)).1, fun q hq =>
      agree_of_to fun d => (agreeTo_succ.1 (hvw.to (d + 1))).2 q hq⟩
  · rintro ⟨hlabel, hchildren⟩
    refine agree_of_to fun d => ?_
    cases d with
    | zero => exact agreeTo_zero v w
    | succ d => exact agreeTo_succ.2 ⟨hlabel, fun q hq => (hchildren q hq).to d⟩

theorem Agree.refl (hv : v.NaNFree h) : v.Agree h v := by
  intro path
  unfold unfolding
  cases hu : v.follow h path with
  | none => exact .none
  | some u => exact .some (.refl fun x hx => hv path x (hu.trans (by rw [label_eq_num hx])))

theorem Agree.symm (hvw : v.Agree h w) : w.Agree h v := by
  intro path
  have hpath := hvw path
  generalize v.unfolding h path = a, w.unfolding h path = b at hpath
  cases hpath with
  | none => exact .none
  | some hab => exact .some hab.symm

theorem Agree.trans (hvw : v.Agree h w) (hwu : w.Agree h u) : v.Agree h u := by
  intro path
  have hpath := hvw path
  have hpath' := hwu path
  generalize v.unfolding h path = a, w.unfolding h path = b, u.unfolding h path = c
    at hpath hpath'
  cases hpath with
  | none => exact hpath'
  | some hab =>
    cases hpath' with
    | some hbc => exact .some (hab.trans hbc)

/-- A relation between values that can be kept up from pairs of values to pairs of children. -/
def IsBisimulation (h : Heap) (R : Value → Value → Prop) : Prop :=
  ∀ v w, R v w → (v.label h).Same (w.label h) ∧ List.Forall₂ R (v.children h) (w.children h)

/-- Agreement is the largest bisimulation. -/
theorem agree_iff_bisimilar : v.Agree h w ↔ ∃ R, IsBisimulation h R ∧ R v w := by
  constructor
  · refine fun hvw => ⟨Agree h, fun a b hab => ?_, hvw⟩
    obtain ⟨hlabel, hchildren⟩ := agree_iff.1 hab
    exact ⟨hlabel, List.forall₂_iff_zip.2 ⟨children_length_eq hlabel, fun hq => hchildren _ hq⟩⟩
  · rintro ⟨R, hR, hvw⟩
    refine agree_of_to fun d => ?_
    induction d generalizing v w with
    | zero => exact agreeTo_zero v w
    | succ d ih =>
      obtain ⟨hlabel, hchildren⟩ := hR v w hvw
      exact agreeTo_succ.2 ⟨hlabel, fun q hq => ih ((List.forall₂_iff_zip.1 hchildren).2 hq)⟩

/-! ### Comparison without a bound -/

/-- The containers to enter, if the values are two lists or two objects. -/
def pair? : Value → Value → Option (Container × Container)
  | .list r, .list s => some (.list r, .list s)
  | .object r, .object s => some (.object r, .object s)
  | _, _ => none

/-- Are there equally many elements, or the same keys? -/
def sameShape (h : Heap) : Value → Value → Bool
  | .list r, .list s => (h.elements r).size == (h.elements s).size
  | .object r, .object s => (h.record r).keys == (h.record s).keys
  | _, _ => false

/-- A comparison inside the pairs of `chain`, with its answer.  All children are compared, also
those after the first difference. -/
inductive Comparison (h : Heap) : List (Container × Container) → Value → Value → Bool → Prop
  | closed {chain : List (Container × Container)} {v w : Value} :
      v.pair? w = none → Comparison h chain v w (sameClosed v w)
  | known {chain : List (Container × Container)} {v w : Value} {p : Container × Container} :
      v.pair? w = some p → p.1 = p.2 ∨ p ∈ chain → Comparison h chain v w true
  | entered {chain : List (Container × Container)} {v w : Value} {p : Container × Container}
      {answer : Value × Value → Bool} : v.pair? w = some p → p.1 ≠ p.2 → p ∉ chain →
      (∀ q ∈ (v.children h).zip (w.children h), Comparison h (p :: chain) q.1 q.2 (answer q)) →
      Comparison h chain v w
        (v.sameShape h w && ((v.children h).zip (w.children h)).all answer)

section

variable {chain : List (Container × Container)} {p : Container × Container} {n : Nat}

theorem equalWithin_closed (hp : v.pair? w = none) :
    equalWithin h n chain v w = sameClosed v w := by
  cases n <;> cases v <;> cases w <;> first | rfl | cases hp

/-- Objects of the same length are compared key by key and value by value. -/
theorem all_entries (ps qs : Record Value) (f : Value → Value → Bool) :
    (ps.length == qs.length && (ps.zip qs).all fun p => p.1.1 == p.2.1 && f p.1.2 p.2.2) =
      (ps.keys == qs.keys && ((ps.map Prod.snd).zip (qs.map Prod.snd)).all fun q => f q.1 q.2) := by
  induction ps generalizing qs with
  | nil => cases qs <;> simp [Record.keys]
  | cons p ps ih =>
    cases qs with
    | nil => simp [Record.keys]
    | cons q qs =>
      have hrest := ih qs
      rw [Bool.eq_iff_iff] at hrest ⊢
      simp only [Record.keys, Bool.and_eq_true, beq_iff_eq, List.all_eq_true] at hrest ⊢
      simp only [List.map_cons, List.zip_cons_cons, List.forall_mem_cons, List.length_cons,
        List.cons.injEq, Nat.add_right_cancel_iff]
      tauto

theorem equalWithin_pair (hp : v.pair? w = some p) :
    equalWithin h (n + 1) chain v w = (p.1 == p.2 || chain.contains p ||
      v.sameShape h w && ((v.children h).zip (w.children h)).all fun q =>
        equalWithin h n (p :: chain) q.1 q.2) := by
  cases v <;> cases w <;> try cases hp
  case list.list.refl r s =>
    have hrefs : (Container.list r == Container.list s) = (r == s) := by
      rw [Bool.eq_iff_iff]
      simp
    rw [equalWithin, hrefs]
    simp only [sameShape, children, Array.length_toList]
  case object.object.refl r s =>
    have hrefs : (Container.object r == Container.object s) = (r == s) := by
      rw [Bool.eq_iff_iff]
      simp
    rw [equalWithin, hrefs]
    simp only [sameShape, children]
    rw [all_entries]

theorem same_of_sameClosed (hp : v.pair? w = none) :
    sameClosed v w = true ↔ (v.label h).Same (w.label h) := by
  cases v <;> cases w <;> first
    | exact absurd hp (Option.some_ne_none _)
    | simp [sameClosed, label, Label.Same.iff]

theorem children_of_closed (hp : v.pair? w = none) (hvw : (v.label h).Same (w.label h)) :
    v.children h = [] := by
  cases v <;> first
    | rfl
    | cases w <;> first
      | exact absurd hp (Option.some_ne_none _)
      | simp [label, Label.Same.iff] at hvw

theorem sameShape_iff (hp : v.pair? w = some p) :
    v.sameShape h w = true ↔ (v.label h).Same (w.label h) := by
  cases v <;> cases w <;> cases hp <;> simp [sameShape, label, Label.Same.iff]

theorem eq_of_pair? (hp : v.pair? w = some p) (heq : p.1 = p.2) : v = w := by
  cases v <;> cases w <;> cases hp <;> cases heq <;> rfl

/-! ### Right answers -/

/-- Values that agree are found equal. -/
theorem Comparison.of_agree {b : Bool} (hc : Comparison h chain v w b) (hvw : v.Agree h w) :
    b = true := by
  induction hc with
  | closed hp => exact (same_of_sameClosed hp).2 (agree_iff.1 hvw).1
  | known _ _ => rfl
  | entered hp _ _ _ ih =>
    obtain ⟨hlabel, hchildren⟩ := agree_iff.1 hvw
    rw [(sameShape_iff hp).2 hlabel, Bool.true_and, List.all_eq_true]
    exact fun q hq => ih q hq (hchildren q hq)

theorem value_of_pair? (hp : v.pair? w = some p) : p.1.value = v ∧ p.2.value = w := by
  cases v <;> cases w <;> cases hp <;> exact ⟨rfl, rfl⟩

/-- Where two values differ at no path shorter than `d` but at a path of length `d`, some pair of
children differs at a shorter one first. -/
theorem exists_apart (hvw : ¬v.AgreeTo h d w) :
    ∃ d' < d, v.AgreeTo h d' w ∧ ¬v.AgreeTo h (d' + 1) w := by
  induction d with
  | zero => exact absurd (agreeTo_zero v w) hvw
  | succ d ih =>
    by_cases hd : v.AgreeTo h d w
    · exact ⟨d, Nat.lt_succ_self d, hd, hvw⟩
    · obtain ⟨d', hlt, h'⟩ := ih hd
      exact ⟨d', by omega, h'⟩

/-- Values that differ are found different, if the pairs around them differ only at longer paths. -/
theorem Comparison.apart {b : Bool} (hc : Comparison h chain v w b) (hv : v.NaNFree h)
    (hchain : ∀ p ∈ chain, p.1.value.AgreeTo h (d + 1) p.2.value) (hbefore : v.AgreeTo h d w)
    (hdiffer : ¬v.AgreeTo h (d + 1) w) : b = false := by
  induction d using Nat.strongRecOn generalizing chain v w b with
  | ind d ih =>
    cases hc with
    | closed hp =>
      by_contra hsame
      have hlabel := (same_of_sameClosed (h := h) hp).1 (Bool.eq_true_of_not_eq_false hsame)
      refine hdiffer (agreeTo_succ.2 ⟨hlabel, fun q hq => ?_⟩)
      rw [children_of_closed hp hlabel] at hq
      cases hq
    | @known _ _ _ p hp hknown =>
      rcases hknown with heq | hmem
      · obtain rfl := eq_of_pair? hp heq
        exact absurd ((Agree.refl hv).to (d + 1)) hdiffer
      · obtain ⟨hpv, hpw⟩ := value_of_pair? hp
        exact absurd (hpv ▸ hpw ▸ hchain p hmem) hdiffer
    | @entered _ _ _ p answer hp hne hnew hanswer =>
      by_contra hfound
      obtain ⟨hshape, hall⟩ := Bool.and_eq_true_iff.1 (Bool.eq_true_of_not_eq_false hfound)
      refine hdiffer (agreeTo_succ.2 ⟨(sameShape_iff hp).1 hshape, fun q hq => ?_⟩)
      by_contra hchild
      -- the first difference inside comes before the first difference outside
      obtain ⟨d', hlt, hbefore', hdiffer'⟩ := exists_apart hchild
      refine absurd (List.all_eq_true.1 hall q hq) ?_
      rw [ih d' hlt (hanswer q hq) (hv.child (List.of_mem_zip hq).1) ?_ hbefore' hdiffer']
      · simp
      · obtain ⟨hpv, hpw⟩ := value_of_pair? hp
        refine List.forall_mem_cons.2 ⟨?_, fun p' hp' => (hchain p' hp').mono (by omega)⟩
        rw [hpv, hpw]
        exact hbefore.mono hlt

theorem Comparison.iff_agree {b : Bool} (hc : Comparison h [] v w b) (hv : v.NaNFree h) :
    b = true ↔ v.Agree h w := by
  refine ⟨fun hb => agree_of_to fun d => ?_, hc.of_agree⟩
  by_contra hdiffer
  obtain ⟨d', _, hbefore, hdiffer'⟩ := exists_apart hdiffer
  rw [hc.apart hv (by simp) hbefore hdiffer'] at hb
  cases hb

/-! ### The bound on the depth -/

/-- The pairs of lists and the pairs of records on the heap. -/
def heapPairs (h : Heap) : List (Container × Container) :=
  (List.range h.lists.size ×ˢ List.range h.lists.size).map (fun p => (.list p.1, .list p.2)) ++
    (List.range h.records.size ×ˢ List.range h.records.size).map fun p =>
      (.object p.1, .object p.2)

theorem length_heapPairs (h : Heap) : (heapPairs h).length + 1 = pairBound h := by
  simp [heapPairs, pairBound, List.length_product]

theorem lt_of_mem_elements {r : Ref} (hu : u ∈ (h.elements r).toList) : r < h.lists.size := by
  by_contra hr
  simp [Heap.elements, Array.getD, hr] at hu

theorem lt_of_mem_record {r : Ref} (hu : u ∈ (h.record r).map Prod.snd) : r < h.records.size := by
  by_contra hr
  simp [Heap.record, Array.getD, hr] at hu

/-- Where there are children to compare, both containers are on the heap. -/
theorem mem_heapPairs (hp : v.pair? w = some p) {q : Value × Value}
    (hq : q ∈ (v.children h).zip (w.children h)) : p ∈ heapPairs h := by
  obtain ⟨hv, hw⟩ := List.of_mem_zip hq
  cases v <;> cases w <;> cases hp
  · simp [heapPairs, lt_of_mem_elements hv, lt_of_mem_elements hw]
  · simp [heapPairs, lt_of_mem_record hv, lt_of_mem_record hw]

/-- The comparison never comes to the bound on its depth. -/
theorem comparison_equalWithin (hnodup : chain.Nodup) (hchain : chain ⊆ heapPairs h)
    (hn : pairBound h ≤ n + chain.length) :
    Comparison h chain v w (equalWithin h n chain v w) := by
  induction n generalizing chain v w with
  | zero =>
    have := (List.subperm_of_subset hnodup hchain).length_le
    have := length_heapPairs h
    omega
  | succ n ih =>
    cases hp : v.pair? w with
    | none =>
      rw [equalWithin_closed hp]
      exact .closed hp
    | some p =>
      rw [equalWithin_pair hp]
      by_cases hknown : p.1 = p.2 ∨ p ∈ chain
      · have : (p.1 == p.2 || chain.contains p) = true := by simpa using hknown
        rw [this, Bool.true_or]
        exact .known hp hknown
      · have : (p.1 == p.2 || chain.contains p) = false := by
          simpa using hknown
        rw [this, Bool.false_or]
        obtain ⟨hne, hnew⟩ := not_or.1 hknown
        refine .entered hp hne hnew fun q hq => ih (List.nodup_cons.2 ⟨hnew, hnodup⟩) ?_ ?_
        · exact List.cons_subset.2 ⟨mem_heapPairs hp hq, hchain⟩
        · rw [List.length_cons]
          omega

end

theorem comparison_equal (h : Heap) (v w : Value) : Comparison h [] v w (v.equal h w) :=
  comparison_equalWithin List.nodup_nil (List.nil_subset _) (Nat.le_refl _)

/-- Equality of values, as long as no `NaN` can be reached: the comparison ends, with the answer
whether the unfoldings are equal, that is whether some bisimulation relates the values.  So it is an
equivalence. -/
theorem equal_decides_bisimilarity (h : Heap) {v w : Value} (hv : v.NaNFree h) :
    Comparison h [] v w (v.equal h w) ∧
      (v.equal h w = true ↔ ∀ path, Option.Rel Label.Same (v.unfolding h path) (w.unfolding h path)) ∧
      (v.equal h w = true ↔ ∃ R, IsBisimulation h R ∧ R v w) ∧
      Equivalence fun a b : {u : Value // u.NaNFree h} => a.1.equal h b.1 = true := by
  have hagree (a b : Value) (ha : a.NaNFree h) : a.equal h b = true ↔ a.Agree h b :=
    (comparison_equal h a b).iff_agree ha
  refine ⟨comparison_equal h v w, hagree v w hv, (hagree v w hv).trans agree_iff_bisimilar, ?_⟩
  refine ⟨fun a => ?_, fun {a b} hab => ?_, fun {a b c} hab hbc => ?_⟩
  · exact (hagree a a a.2).2 (.refl a.2)
  · exact (hagree b a b.2).2 ((hagree a b a.2).1 hab).symm
  · exact (hagree a c a.2).2 (((hagree a b a.2).1 hab).trans ((hagree b c b.2).1 hbc))

/-- Two lists, each of which is its own only element. -/
def twoLoops : Heap := { lists := #[#[.list 0], #[.list 1]] }

theorem loop_nanFree : (Value.list 0).NaNFree twoLoops := by
  have hfollow (path : List Nat) : follow twoLoops path (.list 0) = some (.list 0) ∨
      follow twoLoops path (.list 0) = none := by
    induction path with
    | nil => exact .inl rfl
    | cons i path ih =>
      cases i with
      | zero => exact ih
      | succ i => exact .inr rfl
  intro path x hx
  rcases hfollow path with h | h <;> rw [h] at hx <;> cases hx

/-- Lists that contain only themselves are equal, and unfold to the same infinite tree. -/
theorem loops_equal : (Value.list 0).equal twoLoops (.list 1) = true ∧
    ∀ path, Option.Rel Label.Same ((Value.list 0).unfolding twoLoops path)
      ((Value.list 1).unfolding twoLoops path) := by
  have hequal : (Value.list 0).equal twoLoops (.list 1) = true := by decide
  exact ⟨hequal, (equal_decides_bisimilarity twoLoops loop_nanFree).2.1.1 hequal⟩

end Value

end ScopedScript
