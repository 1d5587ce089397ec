import Mathlib.Logic.Relation
import ScopedScript.Proofs.Places

/-! # Nodes with the same number

A compound assignment to a property uses its object twice, once to read and once to write, so the two
copies of the object have the same numbers.  Such assignments can stand inside each other's objects;
then a number comes up more often, but all nodes that have it are linked by copies.

Nodes are told apart by where they stand in the row of places of a tree.  `Copied` relates
corresponding positions in the two copies of an object, `Linked` is the equivalence that it
generates, and a row of places is *sole* if nodes with the same number are linked (`Sole`).  Rows
without a common number make a sole row together (`Sole.append`), and so do the copies of an object
(`Sole.again`). -/

namespace ScopedScript

/-- The number of the variable node at a position. -/
def idAt (ps : List Place) (a : Nat) : Option NodeId := ps[a]?.bind Place.id?

/-- Corresponding positions in the two copies of the object of `object.name op= value`. -/
inductive Copied (ps : List Place) : Nat → Nat → Prop
  | mk {before after : List Place} {ctx : Surroundings} {object value : Expr}
      {name operator : Token} {k : Nat} :
      ps = before ++
        (Expr.set object name (.binary (.get object name) operator value)).places ctx ++ after →
      k < (object.places ctx).length →
      Copied ps (before.length + 3 + k)
        (before.length + 3 + (object.places ctx).length + (value.places ctx).length + k)

/-- Positions that a chain of copies leads from one to the other. -/
def Linked (ps : List Place) : Nat → Nat → Prop := Relation.EqvGen (Copied ps)

/-- Nodes with the same number are linked. -/
def Sole (ps : List Place) : Prop :=
  ∀ a b id, idAt ps a = some id → idAt ps b = some id → Linked ps a b

/-- The rows have no number in common. -/
def NoCommon (ps qs : List Place) : Prop :=
  ∀ p ∈ ps, ∀ q ∈ qs, ∀ id, p.id? = some id → q.id? ≠ some id

section

variable {ps qs rs : List Place} {a b : Nat} {id : NodeId}

theorem NoCommon.symm (h : NoCommon ps qs) : NoCommon qs ps :=
  fun q hq p hp id hid hid' => h p hp q hq id hid' hid

theorem mem_of_idAt (h : idAt ps a = some id) : ∃ p ∈ ps, ps[a]? = some p ∧ p.id? = some id := by
  obtain ⟨p, hp, hid⟩ := Option.bind_eq_some_iff.1 h
  exact ⟨p, List.mem_of_getElem? hp, hp, hid⟩

theorem lt_of_idAt (h : idAt ps a = some id) : a < ps.length := by
  obtain ⟨p, -, hp, -⟩ := mem_of_idAt h
  exact (List.getElem?_eq_some_iff.1 hp).1

theorem NoCommon.idAt_ne (h : NoCommon ps qs) (ha : idAt ps a = some id) : idAt qs b ≠ some id := by
  intro hb
  obtain ⟨p, hp, -, hid⟩ := mem_of_idAt ha
  obtain ⟨q, hq, -, hid'⟩ := mem_of_idAt hb
  exact h p hp q hq id hid hid'

theorem idAt_append (ps qs : List Place) (a : Nat) :
    idAt (ps ++ qs) a = if a < ps.length then idAt ps a else idAt qs (a - ps.length) := by
  unfold idAt
  rw [List.getElem?_append]
  split <;> rfl

theorem Copied.embed (before after : List Place) (h : Copied ps a b) :
    Copied (before ++ ps ++ after) (before.length + a) (before.length + b) := by
  obtain @⟨before', after', ctx, object, value, name, operator, k, rfl, hk⟩ := h
  have hsame : before ++ (before' ++ (Expr.set object name
      (.binary (.get object name) operator value)).places ctx ++ after') ++ after =
      (before ++ before') ++ (Expr.set object name
        (.binary (.get object name) operator value)).places ctx ++ (after' ++ after) := by
    simp only [List.append_assoc]
  have hcopied := Copied.mk hsame hk
  simpa only [List.length_append, Nat.add_assoc] using hcopied

theorem Linked.embed (before after : List Place) (h : Linked ps a b) :
    Linked (before ++ ps ++ after) (before.length + a) (before.length + b) := by
  induction h with
  | rel _ _ h => exact .rel _ _ (h.embed before after)
  | refl _ => exact .refl _
  | symm _ _ _ ih => exact .symm _ _ ih
  | trans _ _ _ _ _ ih ih' => exact .trans _ _ _ ih ih'

theorem Linked.left (qs : List Place) (h : Linked ps a b) : Linked (ps ++ qs) a b := by
  simpa using h.embed [] qs

theorem Linked.right (ps : List Place) (h : Linked qs a b) :
    Linked (ps ++ qs) (ps.length + a) (ps.length + b) := by
  simpa using h.embed ps []

namespace Sole

theorem nil : Sole [] := fun a _ _ ha => absurd (lt_of_idAt ha) (Nat.not_lt_zero a)

theorem single (p : Place) : Sole [p] := by
  intro a b id ha hb
  obtain rfl : a = 0 := Nat.lt_one_iff.1 (lt_of_idAt ha)
  obtain rfl : b = 0 := Nat.lt_one_iff.1 (lt_of_idAt hb)
  exact .refl 0

theorem append (hp : Sole ps) (hq : Sole qs) (h : NoCommon ps qs) : Sole (ps ++ qs) := by
  intro a b id ha hb
  rw [idAt_append] at ha hb
  split at ha <;> split at hb
  · exact (hp a b id ha hb).left qs
  · exact absurd hb (h.idAt_ne ha)
  · exact absurd ha (h.idAt_ne hb)
  · next hla hlb =>
    have hlink := (hq _ _ id ha hb).right ps
    rwa [Nat.add_sub_cancel' (Nat.not_lt.1 hla), Nat.add_sub_cancel' (Nat.not_lt.1 hlb)] at hlink

theorem cons {p : Place} (hp : p.id? = none) (h : Sole ps) : Sole (p :: ps) := by
  refine (single p).append h fun q hq r _ id hid => ?_
  rw [List.mem_singleton.1 hq, hp] at hid
  cases hid

/-- Behind a node that is no assignment to a property. -/
theorem tail {p : Place} (hp : ∀ o t v, p.node ≠ .expr (.set o t v)) (h : Sole (p :: ps)) :
    Sole ps := by
  have hcopied : ∀ a b, Copied (p :: ps) a b → ∃ a' b', a = a' + 1 ∧ b = b' + 1 ∧
      Copied ps a' b' := by
    rintro _ _ @⟨before, after, ctx, object, value, name, operator, k, heq, hk⟩
    cases before with
    | nil =>
      simp only [Expr.places, List.nil_append, List.cons_append] at heq
      exact absurd (congrArg Place.node (List.cons.inj heq).1) (hp _ _ _)
    | cons q before =>
      refine ⟨before.length + 3 + k, _, ?_, ?_, .mk (List.cons.inj heq).2 hk⟩
      · simp only [List.length_cons]
        omega
      · simp only [List.length_cons]
        omega
  have hlinked : ∀ {a b}, Linked (p :: ps) a b → a = b ∨
      ∃ a' b', a = a' + 1 ∧ b = b' + 1 ∧ Linked ps a' b' := by
    intro a b hab
    induction hab with
    | rel a b hab =>
      obtain ⟨a', b', ha, hb, hab'⟩ := hcopied a b hab
      exact .inr ⟨a', b', ha, hb, .rel _ _ hab'⟩
    | refl a => exact .inl rfl
    | symm a b _ ih =>
      obtain rfl | ⟨a', b', ha, hb, hab'⟩ := ih
      · exact .inl rfl
      · exact .inr ⟨b', a', hb, ha, .symm _ _ hab'⟩
    | trans a b c _ _ ih ih' =>
      obtain rfl | ⟨a', b', rfl, rfl, hab'⟩ := ih
      · exact ih'
      · obtain rfl | ⟨b'', c', hb, rfl, hbc'⟩ := ih'
        · exact .inr ⟨a', b', rfl, rfl, hab'⟩
        · obtain rfl := Nat.succ.inj hb
          exact .inr ⟨a', c', rfl, rfl, .trans _ _ _ hab' hbc'⟩
  intro a b id ha hb
  obtain heq | ⟨a', b', ha', hb', hab⟩ := hlinked (h (a + 1) (b + 1) id ha hb)
  · obtain rfl := Nat.succ.inj heq
    exact .refl a
  · obtain rfl := Nat.succ.inj ha'
    obtain rfl := Nat.succ.inj hb'
    exact hab

/-- The places of a compound assignment: three nodes that are no variable nodes, the object, the
value and the object again. -/
theorem places_again (ctx : Surroundings) (object value : Expr) (name operator : Token) :
    ∃ front : List Place, front.length = 3 ∧ (∀ p ∈ front, p.id? = none) ∧
      (Expr.set object name (.binary (.get object name) operator value)).places ctx =
        front ++ (object.places ctx ++ (value.places ctx ++ object.places ctx)) := by
  refine ⟨[⟨ctx, .expr (.set object name (.binary (.get object name) operator value))⟩,
    ⟨ctx, .expr (.binary (.get object name) operator value)⟩, ⟨ctx, .expr (.get object name)⟩],
    rfl, ?_, ?_⟩
  · simp [Place.id?, Node.reference?]
  · simp only [Expr.places, List.cons_append, List.nil_append, List.append_assoc]

/-- The two copies of the object of a compound assignment. -/
theorem again {ctx : Surroundings} {object value : Expr} (name operator : Token)
    (ho : Sole (object.places ctx)) (hv : Sole (value.places ctx))
    (h : NoCommon (object.places ctx) (value.places ctx)) :
    Sole ((Expr.set object name (.binary (.get object name) operator value)).places ctx) := by
  have hcopied : ∀ k < (object.places ctx).length, Linked
      ((Expr.set object name (.binary (.get object name) operator value)).places ctx) (3 + k)
      (3 + (object.places ctx).length + (value.places ctx).length + k) := fun k hk => by
    have hsame := (List.append_nil ((Expr.set object name
      (.binary (.get object name) operator value)).places ctx)).symm
    have hcopy := @Copied.mk _ [] _ _ _ _ _ _ _ hsame hk
    simp only [List.length_nil, Nat.zero_add] at hcopy
    exact .rel _ _ hcopy
  obtain ⟨front, hfront, hnone, hplaces⟩ := places_again ctx object value name operator
  rw [hplaces] at hcopied ⊢
  -- every node is one of the first copy, linked to one of it, or one of the value
  have hcases : ∀ a id, idAt (front ++ (object.places ctx ++
      (value.places ctx ++ object.places ctx))) a = some id →
      (∃ k, idAt (object.places ctx) k = some id ∧ Linked (front ++ (object.places ctx ++
        (value.places ctx ++ object.places ctx))) a (3 + k)) ∨
      ∃ k, idAt (value.places ctx) k = some id ∧ a = 3 + (object.places ctx).length + k := by
    intro a id ha
    rw [idAt_append, hfront] at ha
    split at ha
    · obtain ⟨p, hp, -, hid⟩ := mem_of_idAt ha
      rw [hnone p hp] at hid
      cases hid
    rw [idAt_append] at ha
    split at ha
    · refine .inl ⟨_, ha, ?_⟩
      rw [Nat.add_sub_cancel' (by omega)]
      exact .refl _
    rw [idAt_append] at ha
    split at ha
    · exact .inr ⟨_, ha, by omega⟩
    · refine .inl ⟨_, ha, ?_⟩
      have hlink := hcopied _ (lt_of_idAt ha)
      rw [show 3 + (object.places ctx).length + (value.places ctx).length +
        (a - 3 - (object.places ctx).length - (value.places ctx).length) = a by omega] at hlink
      exact .symm _ _ hlink
  intro a b id ha hb
  obtain ⟨k, hk, hak⟩ | ⟨k, hk, rfl⟩ := hcases a id ha
  · obtain ⟨l, hl, hbl⟩ | ⟨l, hl, -⟩ := hcases b id hb
    · have hkl := (ho k l id hk hl).embed front (value.places ctx ++ object.places ctx)
      rw [List.append_assoc, hfront] at hkl
      exact .trans _ _ _ hak (.trans _ _ _ hkl (.symm _ _ hbl))
    · exact absurd hl (h.idAt_ne hk)
  · obtain ⟨l, hl, -⟩ | ⟨l, hl, rfl⟩ := hcases b id hb
    · exact absurd hk (h.idAt_ne hl)
    · have hkl := (hv k l id hk hl).embed (front ++ object.places ctx) (object.places ctx)
      rw [List.append_assoc, List.append_assoc, List.length_append, hfront] at hkl
      exact hkl

end Sole

end

end ScopedScript
