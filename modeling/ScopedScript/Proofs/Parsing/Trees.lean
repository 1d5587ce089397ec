import ScopedScript.Grammar.Program
import ScopedScript.Proofs.Alike
import ScopedScript.Proofs.Parsing.Copies

/-! # Trees made side by side

What reading two rows of tokens side by side builds: pairs of trees that are alike, with their
variable nodes numbered in step.  The second tree has the numbers of the first, all moved up by the
same amount.

The nodes of a tree are numbered within an interval, in which no number is used for two purposes:
nodes with the same number are linked by copies and as far from the declaration of their variable
(`NumberedIn`).  That a number can come up twice at all is due to compound assignments, which use
the object of a property twice.

`Expr.Made`, `Stmt.Made` and their companions say both of a pair of trees, in all surroundings;
there is one lemma for each way to put trees together. -/

namespace ScopedScript

/-! ### Numbers -/

/-- The variable nodes at these places are numbered from `i` on and below `j`, and those with the
same number are linked by copies and agree on their distance. -/
structure NumberedIn (i j : Nat) (ps : List Place) : Prop where
  le : i ≤ j
  within : ∀ p ∈ ps, ∀ id : Nat, p.id? = some id → i ≤ id ∧ id < j
  agree : ∀ p ∈ ps, ∀ q ∈ ps, ∀ id : Nat, p.id? = some id → q.id? = some id →
    p.distance? = q.distance?
  sole : Sole ps

namespace NumberedIn

variable {i j k : Nat} {ps qs rs : List Place}

theorem nil (h : i ≤ j) : NumberedIn i j [] := ⟨h, by simp, by simp, .nil⟩

theorem single {p : Place} (h : p.id? = some i) : NumberedIn i (i + 1) [p] := by
  refine ⟨Nat.le_succ i, fun q hq id hid => ?_, fun q hq r hr _ _ _ => ?_, .single p⟩
  · rw [List.mem_singleton.1 hq, h] at hid
    obtain rfl := Option.some.inj hid
    exact ⟨Nat.le_refl _, Nat.lt_succ_self _⟩
  · rw [List.mem_singleton.1 hq, List.mem_singleton.1 hr]

theorem widen {l : Nat} (h : NumberedIn j k ps) (hij : i ≤ j) (hkl : k ≤ l) :
    NumberedIn i l ps := by
  refine ⟨Nat.le_trans hij (Nat.le_trans h.le hkl), fun p hp id hid => ?_, h.agree, h.sole⟩
  obtain ⟨hlow, hhigh⟩ := h.within p hp id hid
  exact ⟨Nat.le_trans hij hlow, Nat.lt_of_lt_of_le hhigh hkl⟩

/-- Rows of places in adjacent intervals have no number in common. -/
theorem noCommon (hp : NumberedIn i j ps) (hq : NumberedIn j k qs) : NoCommon ps qs := by
  intro p hp' q hq' id hid hid'
  have := hp.within p hp' id hid
  have := hq.within q hq' id hid'
  omega

/-- Two rows of places without a common number. -/
theorem merge (hp : NumberedIn i j ps) (hq : NumberedIn i j qs) (h : NoCommon ps qs) :
    NumberedIn i j (ps ++ qs) := by
  refine ⟨hp.le, fun r hr id hid => ?_, fun r hr s hs id hid hid' => ?_, hp.sole.append hq.sole h⟩
  · exact (List.mem_append.1 hr).elim (hp.within r · id hid) (hq.within r · id hid)
  · rcases List.mem_append.1 hr with hr | hr <;> rcases List.mem_append.1 hs with hs | hs
    · exact hp.agree r hr s hs id hid hid'
    · exact absurd hid' (h r hr s hs id hid)
    · exact absurd hid (h s hs r hr id hid')
    · exact hq.agree r hr s hs id hid hid'

/-- Two rows of places in adjacent intervals. -/
theorem append (hp : NumberedIn i j ps) (hq : NumberedIn j k qs) :
    NumberedIn i k (ps ++ qs) :=
  (hp.widen (Nat.le_refl i) hq.le).merge (hq.widen hp.le (Nat.le_refl k)) (hp.noCommon hq)

/-- Two rows of places in adjacent intervals, the later interval first. -/
theorem swapped (hp : NumberedIn i j ps) (hq : NumberedIn j k qs) :
    NumberedIn i k (qs ++ ps) :=
  (hq.widen hp.le (Nat.le_refl k)).merge (hp.widen (Nat.le_refl i) hq.le) (hp.noCommon hq).symm

/-- A node that is no variable node in front. -/
theorem cons {p : Place} (h : NumberedIn i j ps) (hp : p.id? = none) :
    NumberedIn i j (p :: ps) := by
  have hmem : ∀ r ∈ p :: ps, ∀ id, r.id? = some id → r ∈ ps := by
    intro r hr id hid
    rcases List.mem_cons.1 hr with rfl | hr
    · rw [hp] at hid
      cases hid
    · exact hr
  exact ⟨h.le, fun r hr id hid => h.within r (hmem r hr id hid) id hid,
    fun r hr q hq id hid hid' => h.agree r (hmem r hr id hid) q (hmem q hq id hid') id hid hid',
    h.sole.cons hp⟩

/-- Behind a node that is no assignment to a property. -/
theorem tail {p : Place} (h : NumberedIn i j (p :: ps))
    (hp : ∀ o t v, p.node ≠ .expr (.set o t v)) : NumberedIn i j ps :=
  ⟨h.le, fun q hq => h.within q (List.mem_cons_of_mem p hq),
    fun q hq r hr => h.agree q (List.mem_cons_of_mem p hq) r (List.mem_cons_of_mem p hr),
    h.sole.tail hp⟩

/-- The object of a compound assignment comes twice. -/
theorem again {ctx : Surroundings} {object value : Expr} (name operator : Token)
    (ho : NumberedIn i j (object.places ctx)) (hv : NumberedIn j k (value.places ctx)) :
    NumberedIn i k
      ((Expr.set object name (.binary (.get object name) operator value)).places ctx) := by
  have hboth := ho.append hv
  obtain ⟨front, -, hnone, hplaces⟩ := Sole.places_again ctx object value name operator
  have hmem : ∀ p ∈ (Expr.set object name (.binary (.get object name) operator value)).places ctx,
      ∀ id, p.id? = some id → p ∈ object.places ctx ++ value.places ctx := by
    intro p hp id hid
    rw [hplaces] at hp
    simp only [List.mem_append] at hp ⊢
    rcases hp with hp | hp | hp | hp
    · rw [hnone p hp] at hid
      cases hid
    · exact .inl hp
    · exact .inr hp
    · exact .inl hp
  exact ⟨hboth.le, fun p hp id hid => hboth.within p (hmem p hp id hid) id hid,
    fun p hp q hq id hid hid' => hboth.agree p (hmem p hp id hid) q (hmem q hq id hid') id hid hid',
    ho.sole.again name operator hv.sole (ho.noCommon hv)⟩

end NumberedIn

/-- Rows of places without a common number. -/
structure Separate (i j : Nat) (rows : List (List Place)) : Prop where
  le : i ≤ j
  numbered : ∀ ps ∈ rows, NumberedIn i j ps
  apart : rows.Pairwise NoCommon

namespace Separate

variable {i j : Nat} {ps : List Place} {rows : List (List Place)}

theorem cons (hps : NumberedIn i j ps) (h : Separate i j rows)
    (hapart : ∀ qs ∈ rows, NoCommon ps qs) : Separate i j (ps :: rows) :=
  ⟨h.le, List.forall_mem_cons.2 ⟨hps, h.numbered⟩, List.pairwise_cons.2 ⟨hapart, h.apart⟩⟩

/-- The rows one after the other. -/
theorem flatten (h : Separate i j rows) : NumberedIn i j rows.flatten := by
  induction rows with
  | nil => exact .nil h.le
  | cons ps rows ih =>
    obtain ⟨hps, hrows⟩ := List.forall_mem_cons.1 h.numbered
    obtain ⟨hapart, hpairs⟩ := List.pairwise_cons.1 h.apart
    rw [List.flatten_cons]
    refine hps.merge (ih ⟨h.le, hrows, hpairs⟩) fun p hp q hq => ?_
    obtain ⟨qs, hqs, hq⟩ := List.mem_flatten.1 hq
    exact hapart qs hqs p hp q hq

end Separate

/-! ### Trees -/

/-- The two are the same, if tokens correspond to themselves only. -/
def Kept (token : Token → Token → Prop) {α : Type} (a a' : α) : Prop :=
  (∀ t t', token t t' → t' = t) → a' = a

theorem Kept.rfl {token : Token → Token → Prop} {α : Type} {a : α} : Kept token a a :=
  fun _ => Eq.refl a

/-- What is made of kept parts is kept. -/
theorem Kept.map {token : Token → Token → Prop} {α β : Type} {a a' : α} (h : Kept token a a')
    (f : α → β) : Kept token (f a) (f a') :=
  fun heq => congrArg f (h heq)

theorem Kept.map₂ {token : Token → Token → Prop} {α β γ : Type} {a a' : α} {b b' : β}
    (ha : Kept token a a') (hb : Kept token b b') (f : α → β → γ) :
    Kept token (f a b) (f a' b') :=
  fun heq => congrArg₂ f (ha heq) (hb heq)

/-- The kinds of words that the variable of a node is named by: `this` is named by a word of its
own. -/
def Node.words : Node → List Token.Kind
  | .expr (.this _ _) => [.kwThis]
  | _ => [.name, .kwPrint]

/-- Trees with corresponding tokens, the second one with numbers moved up by `shift`.  What declares
a name, parameters included, does so with a word that is no keyword. -/
def shifting (token : Token → Token → Prop) (shift : Nat) : TreeLikeness where
  token := token
  name := token
  annotation := Kept token
  function d _ := ∀ p ∈ d.params, p.left.kind = .name
  node _ n n' := (∀ id t, n.reference? = some (id, t) →
    t.kind ∈ n.words ∧ ∃ t', n'.reference? = some (id + shift, t') ∧ token t t') ∧
      ∀ t, n.declares? = some t →
        t.kind = .name ∧ ∃ t', n'.declares? = some t' ∧ token t t'

section

variable (token : Token → Token → Prop) (shift i j : Nat)

/-- Parameters made side by side. -/
def Parameter.Made (p p' : Parameter) : Prop :=
  p.Alike (shifting token shift) p' ∧ p.left.kind = .name

/-- Expressions made side by side. -/
def Expr.Made (e e' : Expr) : Prop :=
  ∀ ctx, e.Alike (shifting token shift) ctx e' ∧ NumberedIn i j (e.places ctx)

/-- Rows of expressions made side by side. -/
def exprsMade (es es' : List Expr) : Prop :=
  ∀ ctx, exprsAlike (shifting token shift) ctx es es' ∧ NumberedIn i j (exprsPlaces ctx es)

/-- Rows of properties made side by side. -/
def entriesMade (es es' : List Entry) : Prop :=
  ∀ ctx, entriesAlike (shifting token shift) ctx es es' ∧
    Separate i j (es.map fun e => e.value.places ctx)

/-- Statements made side by side. -/
def Stmt.Made (s s' : Stmt) : Prop :=
  ∀ sure ctx, s.Alike (shifting token shift) sure ctx s' ∧ NumberedIn i j (s.places sure ctx)

/-- Statements that may be missing, made side by side. -/
def optionMade (o o' : Option Stmt) : Prop :=
  ∀ sure ctx, optionAlike (shifting token shift) sure ctx o o' ∧
    NumberedIn i j (optionPlaces sure ctx o)

/-- Rows of statements made side by side. -/
def stmtsMade (ss ss' : List Stmt) : Prop :=
  ∀ sure ctx, stmtsAlike (shifting token shift) sure ctx ss ss' ∧
    NumberedIn i j (stmtsPlaces sure ctx ss)

/-- Functions made side by side. -/
def FunctionDecl.Made (f f' : FunctionDecl) : Prop :=
  ∀ ctx, f.Alike (shifting token shift) ctx f' ∧ NumberedIn i j (f.places ctx)

/-- Members of classes made side by side. -/
def membersMade (m m' : List FunctionDecl × List FieldDecl) : Prop :=
  ∀ ctx, fieldsAlike (shifting token shift) ctx m.2 m'.2 ∧
    methodsAlike (shifting token shift) ctx m.1 m'.1 ∧
    NumberedIn i j (fieldsPlaces ctx m.2) ∧ NumberedIn i j (methodsPlaces ctx m.1) ∧
    NoCommon (fieldsPlaces ctx m.2) (methodsPlaces ctx m.1)

end

section

variable {token : Token → Token → Prop} {shift i j k : Nat} {t t' : Token}

/-- A node that is no variable node and declares nothing corresponds to any. -/
theorem node_of_none {ctx : Surroundings} {n n' : Node} (h : n.reference? = none)
    (hdecl : n.declares? = none) : (shifting token shift).node ctx n n' := by
  refine ⟨fun id t ht => ?_, fun t ht => ?_⟩
  · rw [h] at ht
    cases ht
  · rw [hdecl] at ht
    cases ht

theorem node_of_some {ctx : Surroundings} {n n' : Node} {id : NodeId}
    (h : n.reference? = some (id, t)) (hword : t.kind ∈ n.words)
    (h' : n'.reference? = some (id + shift, t')) (ht : token t t') (hdecl : n.declares? = none) :
    (shifting token shift).node ctx n n' := by
  refine ⟨fun id₁ t₁ h₁ => ?_, fun t₁ h₁ => ?_⟩
  · obtain ⟨rfl, rfl⟩ := Prod.mk.inj (Option.some.inj (h.symm.trans h₁))
    exact ⟨hword, t', h', ht⟩
  · rw [hdecl] at h₁
    cases h₁

/-- A node that declares a name and is no variable node. -/
theorem node_of_declares {ctx : Surroundings} {n n' : Node} (h : n.reference? = none)
    (hdecl : n.declares? = some t) (hkind : t.kind = .name) (hdecl' : n'.declares? = some t')
    (ht : token t t') : (shifting token shift).node ctx n n' := by
  refine ⟨fun id₁ t₁ h₁ => ?_, fun t₁ h₁ => ?_⟩
  · rw [h] at h₁
    cases h₁
  · obtain rfl := Option.some.inj (hdecl.symm.trans h₁)
    exact ⟨hkind, t', hdecl', ht⟩

theorem entriesPlaces_eq (ctx : Surroundings) (es : List Entry) :
    entriesPlaces ctx es = (es.map fun e => e.value.places ctx).flatten := by
  induction es with
  | nil => simp [entriesPlaces]
  | cons e es ih =>
    obtain ⟨key, value⟩ := e
    rw [entriesPlaces, ih]
    rfl

namespace Expr.Made

variable {e e' d d' : Expr}

theorem le (h : e.Made token shift i j e') : i ≤ j := (h .top).2.le

theorem grouping (h : e.Made token shift i j e') :
    (Expr.grouping e).Made token shift i j (.grouping e') := by
  intro ctx
  simp only [Expr.places]
  exact ⟨⟨node_of_none rfl rfl, e', rfl, (h ctx).1⟩, (h ctx).2.cons rfl⟩

theorem binary (hl : e.Made token shift i j e') (ht : token t t')
    (hr : d.Made token shift j k d') :
    (Expr.binary e t d).Made token shift i k (.binary e' t' d') := by
  intro ctx
  simp only [Expr.places]
  exact ⟨⟨node_of_none rfl rfl, e', t', d', rfl, ht, (hl ctx).1, (hr ctx).1⟩,
    ((hl ctx).2.append (hr ctx).2).cons rfl⟩

theorem unary (ht : token t t') (h : e.Made token shift i j e') :
    (Expr.unary t e).Made token shift i j (.unary t' e') := by
  intro ctx
  simp only [Expr.places]
  exact ⟨⟨node_of_none rfl rfl, t', e', rfl, ht, (h ctx).1⟩, (h ctx).2.cons rfl⟩

/-- A literal without parts. -/
theorem literal (kind : Token.Kind) {v : LiteralValue} (hij : i ≤ j)
    (hv : ∀ es, v ≠ .list es) :
    (Expr.literal kind v).Made token shift i j (.literal kind v) := by
  intro ctx
  have hplaces : v.places ctx = [] := by
    cases v with
    | list es => exact absurd rfl (hv es)
    | _ => simp only [LiteralValue.places]
  have halike : v.Alike (shifting token shift) ctx v := by
    cases v with
    | list es => exact absurd rfl (hv es)
    | _ => rfl
  simp only [Expr.places, hplaces]
  exact ⟨⟨node_of_none rfl rfl, v, rfl, halike⟩, (NumberedIn.nil hij).cons rfl⟩

theorem list {es es' : List Expr} (h : exprsMade token shift i j es es') :
    (Expr.literal .list (.list es)).Made token shift i j (.literal .list (.list es')) := by
  intro ctx
  simp only [Expr.places, LiteralValue.places]
  exact ⟨⟨node_of_none rfl rfl, _, rfl, es', rfl, (h ctx).1⟩, (h ctx).2.cons rfl⟩

theorem name (ht : token t t') (hword : t.kind ∈ [.name, .kwPrint]) :
    (Expr.name i t).Made token shift i (i + 1) (.name (i + shift) t') := by
  intro ctx
  simp only [Expr.places]
  exact ⟨⟨node_of_some rfl hword rfl ht rfl, _, t', rfl, ht⟩, .single rfl⟩

theorem this (ht : token t t') (hword : t.kind = .kwThis) :
    (Expr.this i t).Made token shift i (i + 1) (.this (i + shift) t') := by
  intro ctx
  simp only [Expr.places]
  exact ⟨⟨node_of_some rfl (List.mem_singleton.2 hword) rfl ht rfl, _, t', rfl, ht⟩, .single rfl⟩

theorem function (ht : token t t') {f f' : FunctionDecl}
    (h : f.Made token shift i j f') :
    (Expr.function t f).Made token shift i j (.function t' f') := by
  intro ctx
  simp only [Expr.places]
  exact ⟨⟨node_of_none rfl rfl, t', f', rfl, ht, (h ctx).1⟩, (h ctx).2.cons rfl⟩

theorem call {es es' : List Expr} (hc : e.Made token shift i j e') (ht : token t t')
    (ha : exprsMade token shift j k es es') :
    (Expr.call e t es).Made token shift i k (.call e' t' es') := by
  intro ctx
  simp only [Expr.places]
  exact ⟨⟨node_of_none rfl rfl, e', t', es', rfl, ht, (hc ctx).1, (ha ctx).1⟩,
    ((hc ctx).2.append (ha ctx).2).cons rfl⟩

theorem index (ht : token t t') (hword : t.kind ∈ [.name, .kwPrint])
    (h : e.Made token shift (i + 1) j e') :
    (Expr.index i t e).Made token shift i j (.index (i + shift) t' e') := by
  intro ctx
  have hnode : NumberedIn i (i + 1) [⟨ctx, .expr (.index i t e)⟩] := .single rfl
  simp only [Expr.places]
  exact ⟨⟨node_of_some rfl hword rfl ht rfl, _, t', e', rfl, ht, (h ctx).1⟩, hnode.append (h ctx).2⟩

theorem get (h : e.Made token shift i j e') (ht : token t t') :
    (Expr.get e t).Made token shift i j (.get e' t') := by
  intro ctx
  simp only [Expr.places]
  exact ⟨⟨node_of_none rfl rfl, e', t', rfl, ht, (h ctx).1⟩, (h ctx).2.cons rfl⟩

theorem set (ho : e.Made token shift i j e') (ht : token t t')
    (hv : d.Made token shift j k d') :
    (Expr.set e t d).Made token shift i k (.set e' t' d') := by
  intro ctx
  simp only [Expr.places]
  exact ⟨⟨node_of_none rfl rfl, e', t', d', rfl, ht, (ho ctx).1, (hv ctx).1⟩,
    ((ho ctx).2.swapped (hv ctx).2).cons rfl⟩

/-- The object of a compound assignment is used twice. -/
theorem setAgain {u u' : Token} (ho : e.Made token shift i j e') (ht : token t t')
    (hu : token u u') (hv : d.Made token shift j k d') :
    (Expr.set e t (.binary (.get e t) u d)).Made token shift i k
      (.set e' t' (.binary (.get e' t') u' d')) := by
  intro ctx
  have hb := ((ho.get ht).binary hu hv) ctx
  exact ⟨⟨node_of_none rfl rfl, e', t', _, rfl, ht, (ho ctx).1, hb.1⟩,
    (ho ctx).2.again t u (hv ctx).2⟩

theorem object {es es' : List Entry} (ht : token t t')
    (h : entriesMade token shift i j es es') :
    (Expr.object t es).Made token shift i j (.object t' es') := by
  intro ctx
  simp only [Expr.places, entriesPlaces_eq]
  exact ⟨⟨node_of_none rfl rfl, t', es', rfl, ht, (h ctx).1⟩, (h ctx).2.flatten.cons rfl⟩

theorem assign (ht : token t t') (hword : t.kind ∈ [.name, .kwPrint])
    (hv : e.Made token shift i j e') :
    (Expr.assign j t e).Made token shift i (j + 1) (.assign (j + shift) t' e') := by
  intro ctx
  have hnode : NumberedIn j (j + 1) [⟨ctx, .expr (.assign j t e)⟩] := .single rfl
  simp only [Expr.places]
  exact ⟨⟨node_of_some rfl hword rfl ht rfl, _, t', e', rfl, ht, (hv ctx).1⟩, (hv ctx).2.append hnode⟩

theorem widen (h : e.Made token shift j k e') (hij : i ≤ j) : e.Made token shift i k e' := by
  intro ctx
  exact ⟨(h ctx).1, (NumberedIn.nil hij).append (h ctx).2⟩

end Expr.Made

/-! ### Rows -/

theorem exprsMade.nil (hij : i ≤ j) : exprsMade token shift i j [] [] := by
  intro ctx
  simp only [exprsPlaces]
  exact ⟨rfl, .nil hij⟩

theorem exprsMade.cons {e e' : Expr} {es es' : List Expr} (he : e.Made token shift i j e')
    (hes : exprsMade token shift j k es es') :
    exprsMade token shift i k (e :: es) (e' :: es') := by
  intro ctx
  simp only [exprsPlaces]
  exact ⟨⟨e', es', rfl, (he ctx).1, (hes ctx).1⟩, (he ctx).2.append (hes ctx).2⟩

theorem entriesMade.nil (hij : i ≤ j) : entriesMade token shift i j [] [] := fun _ =>
  ⟨rfl, hij, by simp, .nil⟩

/-- A property is one of those read so far, or the one that is added. -/
theorem mem_addEntry {key : Token} {value : Expr} {e : Entry} :
    {entries : List Entry} → e ∈ Grammar.addEntry entries key value →
      e ∈ entries ∨ e.value = value
  | [], he => by
    rw [Grammar.addEntry, List.mem_singleton] at he
    exact .inr (he ▸ rfl)
  | .mk k v :: entries, he => by
    simp only [Grammar.addEntry] at he
    split at he
    · rcases List.mem_cons.1 he with rfl | he
      · exact .inr rfl
      · exact .inl (List.mem_cons_of_mem _ he)
    · rcases List.mem_cons.1 he with rfl | he
      · exact .inl List.mem_cons_self
      · exact (mem_addEntry he).imp_left (List.mem_cons_of_mem _)

/-- A repeated key gives up its first value. -/
theorem separate_addEntry {ctx : Surroundings} {key : Token} {value : Expr}
    (hv : NumberedIn j k (value.places ctx)) : {entries : List Entry} →
    Separate i j (entries.map fun e => e.value.places ctx) →
    Separate i k ((Grammar.addEntry entries key value).map fun e => e.value.places ctx)
  | [], h => by
    refine ⟨Nat.le_trans h.le hv.le, ?_, List.pairwise_singleton _ _⟩
    simpa [Grammar.addEntry, Entry.value] using hv.widen h.le (Nat.le_refl k)
  | .mk key' v :: entries, h => by
    obtain ⟨hfirst, hrest⟩ := List.forall_mem_cons.1 h.numbered
    obtain ⟨hapart, hpairs⟩ := List.pairwise_cons.1 h.apart
    have hwide : Separate i k (entries.map fun e => e.value.places ctx) :=
      ⟨Nat.le_trans h.le hv.le, fun ps hps => (hrest ps hps).widen (Nat.le_refl i) hv.le, hpairs⟩
    simp only [Grammar.addEntry]
    split
    · refine .cons (hv.widen h.le (Nat.le_refl k)) hwide fun qs hqs => ?_
      exact ((hrest qs hqs).noCommon hv).symm
    · refine .cons (hfirst.widen (Nat.le_refl i) hv.le)
        (separate_addEntry hv ⟨h.le, hrest, hpairs⟩) fun qs hqs => ?_
      obtain ⟨e, he, rfl⟩ := List.mem_map.1 hqs
      rcases mem_addEntry he with he | heq
      · exact hapart _ (List.mem_map_of_mem he)
      · rw [heq]
        exact hfirst.noCommon hv

theorem entriesAlike_addEntry (hlex : ∀ {t t'}, token t t' → t'.lexeme = t.lexeme)
    {ctx : Surroundings} {key key' : Token} (hkey : token key key') {value value' : Expr}
    (hv : value.Alike (shifting token shift) ctx value') : {entries entries' : List Entry} →
    entriesAlike (shifting token shift) ctx entries entries' →
      entriesAlike (shifting token shift) ctx (Grammar.addEntry entries key value)
        (Grammar.addEntry entries' key' value')
  | [], _, h => by
    cases h
    exact ⟨key', value', [], rfl, hkey, hv, rfl⟩
  | .mk k v :: entries, _, h => by
    obtain ⟨k', v', ds, rfl, hk, hv', hds⟩ := h
    simp only [Grammar.addEntry, hlex hk, hlex hkey]
    split
    · exact ⟨k', value', ds, rfl, hk, hv, hds⟩
    · exact ⟨k', v', _, rfl, hk, hv', entriesAlike_addEntry hlex hkey hv hds⟩

theorem entriesMade.add (hlex : ∀ {t t'}, token t t' → t'.lexeme = t.lexeme)
    {es es' : List Entry} (hes : entriesMade token shift i j es es') (ht : token t t')
    {e e' : Expr} (he : e.Made token shift j k e') :
    entriesMade token shift i k (Grammar.addEntry es t e) (Grammar.addEntry es' t' e') := by
  intro ctx
  exact ⟨entriesAlike_addEntry hlex ht (he ctx).1 (hes ctx).1,
    separate_addEntry (he ctx).2 (hes ctx).2⟩

theorem stmtsMade.nil (hij : i ≤ j) : stmtsMade token shift i j [] [] := by
  intro sure ctx
  simp only [stmtsPlaces]
  exact ⟨rfl, .nil hij⟩

theorem stmtsMade.cons {s s' : Stmt} {ss ss' : List Stmt} (hs : s.Made token shift i j s')
    (hss : stmtsMade token shift j k ss ss') :
    stmtsMade token shift i k (s :: ss) (s' :: ss') := by
  intro sure ctx
  simp only [stmtsPlaces]
  exact ⟨⟨s', ss', rfl, (hs sure ctx).1, (hss sure _).1⟩, (hs sure ctx).2.append (hss sure _).2⟩

theorem optionMade.none (hij : i ≤ j) : optionMade token shift i j none none := by
  intro sure ctx
  simp only [optionPlaces]
  exact ⟨rfl, .nil hij⟩

theorem optionMade.some {s s' : Stmt} (hs : s.Made token shift i j s') :
    optionMade token shift i j (some s) (some s') := by
  intro sure ctx
  simp only [optionPlaces]
  exact ⟨⟨s', rfl, (hs sure ctx).1⟩, (hs sure ctx).2⟩

theorem membersMade.nil (hij : i ≤ j) : membersMade token shift i j ([], []) ([], []) := by
  intro ctx
  simp only [fieldsPlaces, methodsPlaces]
  exact ⟨rfl, rfl, .nil hij, .nil hij, by simp [NoCommon]⟩

theorem membersMade.method {f f' : FunctionDecl} {m m' : List FunctionDecl × List FieldDecl}
    (hf : f.Made token shift i j f') (hm : membersMade token shift j k m m') :
    membersMade token shift i k (f :: m.1, m.2) (f' :: m'.1, m'.2) := by
  intro ctx
  obtain ⟨hfields, hmethods, hnum, hnum', hapart⟩ := hm ctx
  have hfirst := (hf ctx).2
  refine ⟨hfields, ⟨f', m'.1, rfl, (hf ctx).1, hmethods⟩, hnum.widen hfirst.le (Nat.le_refl k), ?_, ?_⟩
  · simp only [methodsPlaces]
    exact hfirst.append hnum'
  · intro p hp q hq
    simp only [methodsPlaces, List.mem_append] at hq
    exact hq.elim ((hfirst.noCommon hnum).symm p hp q) (hapart p hp q)

theorem membersMade.field {e e' : Expr} {ty ty' : Option Ty} (hty : Kept token ty ty')
    {m m' : List FunctionDecl × List FieldDecl} (ht : token t t') (he : e.Made token shift i j e')
    (hm : membersMade token shift j k m m') :
    membersMade token shift i k (m.1, .mk t ty e :: m.2) (m'.1, .mk t' ty' e' :: m'.2) := by
  intro ctx
  obtain ⟨hfields, hmethods, hnum, hnum', hapart⟩ := hm ctx
  have hfirst := (he ctx).2
  refine ⟨⟨t', ty', e', m'.2, rfl, ht, hty.map (·, none), (he ctx).1, hfields⟩, hmethods, ?_,
    hnum'.widen hfirst.le (Nat.le_refl k), ?_⟩
  · simp only [fieldsPlaces]
    exact hfirst.append hnum
  · intro p hp
    simp only [fieldsPlaces, List.mem_append] at hp
    exact hp.elim (hfirst.noCommon hnum' p) (hapart p)

/-! ### Functions and statements -/

/-- Parameters that correspond are the same, if tokens correspond to themselves only. -/
theorem params_kept {ps ps' : List Parameter}
    (h : List.Forall₂ (Parameter.Made token shift) ps ps') : Kept token ps ps' := by
  intro heq
  induction h with
  | nil => rfl
  | @cons p p' ps ps' hp _ ih =>
    obtain ⟨name, ty, left, right⟩ := p
    obtain ⟨name', ty', left', right'⟩ := p'
    obtain ⟨⟨hname, hname', hleft, hty⟩, -⟩ := hp
    obtain rfl : left' = left := heq _ _ hleft
    obtain ⟨rfl, rfl⟩ := Prod.mk.inj (hty heq)
    obtain rfl : name = left'.lexeme := hname trivial
    obtain rfl : name' = left'.lexeme := hname' trivial
    rw [ih]
    rfl

theorem params_named {ps ps' : List Parameter}
    (h : List.Forall₂ (Parameter.Made token shift) ps ps') : ∀ p ∈ ps, p.left.kind = .name := by
  induction h with
  | nil => simp
  | cons hp _ ih => exact List.forall_mem_cons.2 ⟨hp.2, ih⟩

theorem FunctionDecl.Made.mk {result result' : Option Ty} (hty : Kept token result result')
    (ht : token t t') {ps ps' : List Parameter}
    (hps : List.Forall₂ (Parameter.Made token shift) ps ps') {ss ss' : List Stmt}
    (hss : stmtsMade token shift i j ss ss') :
    (FunctionDecl.mk t ps ss result).Made token shift i j (.mk t' ps' ss' result') := by
  intro ctx
  simp only [FunctionDecl.places]
  have halike := hps.imp fun _ _ hp => hp.1
  exact ⟨⟨t', ps', ss', result', rfl, ht, halike, hty.map (·, none), params_named hps,
    (hss true _).1⟩,
    (hss true _).2⟩

namespace Stmt.Made

variable {s s' : Stmt} {e e' d d' : Expr}

theorem le (h : s.Made token shift i j s') : i ≤ j := (h true .top).2.le

theorem empty (hij : i ≤ j) : Stmt.empty.Made token shift i j .empty := by
  intro sure ctx
  simp only [Stmt.places]
  exact ⟨⟨node_of_none rfl rfl, rfl⟩, (NumberedIn.nil hij).cons rfl⟩

theorem block {ss ss' : List Stmt} (h : stmtsMade token shift i j ss ss') :
    (Stmt.block ss).Made token shift i j (.block ss') := by
  intro sure ctx
  simp only [Stmt.places]
  exact ⟨⟨node_of_none rfl rfl, ss', rfl, (h true _).1⟩, (h true _).2.cons rfl⟩

theorem expression (h : e.Made token shift i j e') (ht : token t t') :
    (Stmt.expression e t).Made token shift i j (.expression e' t') := by
  intro sure ctx
  simp only [Stmt.places]
  exact ⟨⟨node_of_none rfl rfl, e', t', rfl, ht, (h ctx).1⟩, (h ctx).2.cons rfl⟩

theorem «variable» (kind : DeclarationKind) {ty ty' : Option Ty} (hty : Kept token ty ty')
    (ht : token t t') (hkind : t.kind = .name) {o o' : Option Stmt}
    (h : optionMade token shift i j o o') :
    (Stmt.variable t kind ty o).Made token shift i j (.variable t' kind ty' o') := by
  intro sure ctx
  simp only [Stmt.places]
  exact ⟨⟨node_of_declares rfl rfl hkind rfl ht, t', ty', o', rfl, ht, hty.map (·, none), (h false _).1⟩,
    (h false _).2.cons rfl⟩

theorem indexAssign (ht : token t t') (hword : t.kind ∈ [.name, .kwPrint])
    (hi : e.Made token shift (i + 1) j e') (hv : d.Made token shift j k d') :
    (Stmt.indexAssign i t e d).Made token shift i k (.indexAssign (i + shift) t' e' d') := by
  intro sure ctx
  have hnode : NumberedIn i (i + 1) [⟨ctx, .stmt (.indexAssign i t e d)⟩] := .single rfl
  refine ⟨⟨node_of_some rfl hword rfl ht rfl, _, t', e', d', rfl, ht, (hi ctx).1, (hv ctx).1⟩, ?_⟩
  simp only [Stmt.places]
  exact hnode.swapped ((hi ctx).2.append (hv ctx).2)

theorem functionDecl {f f' : FunctionDecl} (h : f.Made token shift i j f')
    (hkind : f.name.kind = .name) :
    (Stmt.functionDecl f).Made token shift i j (.functionDecl f') := by
  intro sure ctx
  simp only [Stmt.places]
  exact ⟨⟨node_of_declares rfl rfl hkind rfl (h ctx).1.name, f', rfl, (h _).1⟩, (h _).2.cons rfl⟩

theorem cond {o o' : Option Stmt} (ht : token t t') (hc : e.Made token shift i j e')
    (hs : s.Made token shift j k s') {l : Nat} (ho : optionMade token shift k l o o') :
    (Stmt.cond t e s o).Made token shift i l (.cond t' e' s' o') := by
  intro sure ctx
  simp only [Stmt.places]
  exact ⟨⟨node_of_none rfl rfl, t', e', s', o', rfl, ht, (hc ctx).1, (hs false ctx).1, (ho false _).1⟩,
    (((hc ctx).2.append (hs false ctx).2).append (ho false _).2).cons rfl⟩

theorem loop (hc : e.Made token shift i j e') (hs : s.Made token shift j k s')
    (ht : token t t') : (Stmt.loop e s t).Made token shift i k (.loop e' s' t') := by
  intro sure ctx
  simp only [Stmt.places]
  exact ⟨⟨node_of_none rfl rfl, e', s', t', rfl, ht, (hc ctx).1, (hs false ctx).1⟩,
    ((hc ctx).2.append (hs false ctx).2).cons rfl⟩

theorem returns (ht : token t t') (h : s.Made token shift i j s') :
    (Stmt.returns t s).Made token shift i j (.returns t' s') := by
  intro sure ctx
  simp only [Stmt.places]
  exact ⟨⟨node_of_none rfl rfl, t', s', rfl, ht, (h false ctx).1⟩, (h false ctx).2.cons rfl⟩

theorem object (hij : i ≤ j) : (Stmt.object []).Made token shift i j (.object []) := by
  intro sure ctx
  simp only [Stmt.places, propertiesPlaces]
  exact ⟨⟨node_of_none rfl rfl, [], rfl, rfl⟩, (NumberedIn.nil hij).cons rfl⟩

theorem classDecl {m m' : List FunctionDecl × List FieldDecl} (ht : token t t')
    (hkind : t.kind = .name) (h : membersMade token shift i j m m') :
    (Stmt.classDecl (.mk t m.1 m.2)).Made token shift i j (.classDecl (.mk t' m'.1 m'.2)) := by
  intro sure ctx
  simp only [Stmt.places, ClassDecl.places]
  obtain ⟨hfields, hmethods, hnum, hnum', hapart⟩ :=
    h (.enterClass (.mk t m.1 m.2) (.introduce t.lexeme sure ctx))
  exact ⟨⟨node_of_declares rfl rfl hkind rfl ht, _, rfl, t', m'.1, m'.2, rfl, ht, hfields, hmethods⟩,
    (hnum.merge hnum' hapart).cons rfl⟩

theorem widen (h : s.Made token shift j k s') (hij : i ≤ j) : s.Made token shift i k s' := by
  intro sure ctx
  exact ⟨(h sure ctx).1, (NumberedIn.nil hij).append (h sure ctx).2⟩

/-- The body of a `for` loop with an increment, which is read before the body. -/
theorem stepped (he : e.Made token shift i j e') (hs : s.Made token shift j k s')
    (ht : token t t') :
    (Stmt.block [s, .expression e t]).Made token shift i k
      (.block [s', .expression e' t']) := by
  intro sure ctx
  generalize hin : ctx.enterBlock [s, .expression e t] = inner
  obtain ⟨halike, hnum⟩ := hs true inner
  obtain ⟨halike', hnum'⟩ := expression he ht true (s.after true inner)
  refine ⟨⟨node_of_none rfl rfl, _, rfl, ?_⟩, ?_⟩
  · rw [hin]
    exact ⟨s', _, rfl, halike, _, [], rfl, halike', rfl⟩
  · have hrow := (hnum'.swapped hnum).cons (p := ⟨ctx, .stmt (.block [s, .expression e t])⟩) rfl
    simpa only [Stmt.places, stmtsPlaces, hin, List.append_nil] using hrow

/-- A `for` loop, as the block that it stands for. -/
theorem forLoop {init init' : Option Stmt} {inc inc' : Option Expr} {l n : Nat} (ht : token t t')
    (hinit : optionMade token shift i j init init') (hc : e.Made token shift j k e')
    (hkl : k ≤ l) (hinc : Option.Rel (Expr.Made token shift k l) inc inc')
    (hs : s.Made token shift l n s') :
    (Grammar.forLoop t init e inc s).Made token shift i n
      (Grammar.forLoop t' init' e' inc' s') := by
  obtain ⟨w, w', hw, heq, heq'⟩ : ∃ w w', w.Made token shift k n w' ∧
      Grammar.forLoop t init e inc s = .block (init.toList ++ [.loop e w t]) ∧
      Grammar.forLoop t' init' e' inc' s' = .block (init'.toList ++ [.loop e' w' t']) := by
    cases hinc with
    | none => exact ⟨s, s', hs.widen hkl, rfl, rfl⟩
    | some hd => exact ⟨_, _, stepped hd hs ht, rfl, rfl⟩
  rw [heq, heq']
  have hloop {h : Nat} (hc : e.Made token shift h k e') :
      stmtsMade token shift h n [.loop e w t] [.loop e' w' t'] :=
    .cons (loop hc hw ht) (.nil (Nat.le_refl n))
  cases init with
  | none =>
    obtain ⟨halike, hnum⟩ := hinit true .top
    cases halike
    exact block (hloop (hc.widen hnum.le))
  | some s₀ =>
    obtain ⟨s₀', rfl, _⟩ := (hinit true .top).1
    have hs₀ : s₀.Made token shift i j s₀' := by
      intro sure ctx
      obtain ⟨⟨s₁, hs₁, halike⟩, hnum⟩ := hinit sure ctx
      obtain rfl := Option.some.inj hs₁
      simp only [optionPlaces] at hnum
      exact ⟨halike, hnum⟩
    exact block (.cons hs₀ (hloop hc))

end Stmt.Made

end

end ScopedScript
