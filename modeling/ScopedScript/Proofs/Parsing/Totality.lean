import ScopedScript.Proofs.Parsing.Rules

/-! # The parser comes to an end

On a row of tokens with an end mark a production ends in a tree or at a fault: it takes no token
where none is left, and never uses up the bound on its depth.  The bound that it needs is linear in
the number of tokens still to come.

* **Progress.** A cursor is `Within n` if at most `n` tokens are to come, the end mark among them.
  A production *finishes* within `n` if it is rejected, or comes to such a cursor.
* **Depth.** Each production has a *rank*, and each call of another production is either one of lower
  rank or comes after a token has been taken.  Ranks are small: one token is worth 32 of them.

So the bound that `parseFrom` chooses is large enough (`parseFrom_decides`). -/

namespace ScopedScript

namespace Grammar

/-- At most `n` tokens are to come, the end mark among them. -/
structure Cursor.Within (c : Cursor) (n : Nat) : Prop where
  marked : ∃ t ∈ c.rest, t.kind = .endMark
  length_le : c.rest.length ≤ n

namespace Cursor.Within

variable {c : Cursor} {n m : Nat}

theorem mono (h : c.Within n) (hnm : n ≤ m) : c.Within m :=
  ⟨h.marked, Nat.le_trans h.length_le hnm⟩

theorem pos (h : c.Within n) : 0 < n := by
  obtain ⟨t, ht, -⟩ := h.marked
  exact Nat.lt_of_lt_of_le (List.length_pos_of_mem ht) h.length_le

/-- The number of the next variable node does not matter. -/
theorem renumber (h : c.Within n) (id : NodeId) : Within { c with nextId := id } n := ⟨h.1, h.2⟩

/-- Away from the end mark there is a token to take. -/
theorem rest_eq (h : c.Within n) (hend : c.atEnd = false) :
    ∃ t rest, c.rest = t :: rest ∧ t.kind ≠ .endMark := by
  obtain ⟨last, rest, nextId⟩ := c
  cases rest with
  | nil =>
    obtain ⟨t, ht, -⟩ := h.marked
    cases ht
  | cons t rest => exact ⟨t, rest, rfl, by simpa [Cursor.atEnd, Cursor.peek] using hend⟩

end Cursor.Within

/-- The production is rejected, or it comes to a cursor within `n`. -/
inductive Ends {α : Type} (n : Nat) : Except Failure (α × Cursor) → Prop
  | tree {a : α} {c : Cursor} : c.Within n → Ends n (.ok (a, c))
  | rejected {e : ParseError} : Ends n (.error (.rejected e))

/-- From the cursor, the production comes to an end within `n`. -/
def Finishes {α : Type} (x : Parse α) (c : Cursor) (n : Nat) : Prop := Ends n (x c)

namespace Finishes

section

variable {α β : Type} {x : Parse α} {k : α → Parse β} {c : Cursor} {n m : Nat}

theorem pure (h : c.Within n) (a : α) : Finishes (Pure.pure a) c n := .tree h

theorem mono (h : Finishes x c n) (hnm : n ≤ m) : Finishes x c m := by
  unfold Finishes at h ⊢
  generalize x c = r at h
  cases h with
  | tree hc => exact .tree (hc.mono hnm)
  | rejected => exact .rejected

theorem bind (hx : Finishes x c n) (hk : ∀ a c₁, c₁.Within n → Finishes (k a) c₁ m) :
    Finishes (x >>= k) c m := by
  unfold Finishes at hx
  change Ends m (x c >>= fun p => k p.1 p.2)
  generalize x c = r at hx
  cases hx with
  | tree hc => exact hk _ _ hc
  | rejected => exact .rejected

/-- A production with something made of its tree. -/
theorem map (hx : Finishes x c n) (hnm : n ≤ m) (f : α → β) :
    Finishes (do let a ← x; return f a) c m :=
  hx.bind fun _ _ h => .pure (h.mono hnm) _

theorem failAt (token : Token) (fault : Fault) :
    Finishes (Grammar.failAt token fault : Parse α) c n := .rejected

theorem failExpecting (what : Expectation) :
    Finishes (Grammar.failExpecting what : Parse α) c n := .rejected

/-- Looking at the cursor, or at the token in view. -/
theorem get {k : Cursor → Parse β} (h : Finishes (k c) c m) :
    Finishes (MonadState.get >>= k) c m := h

theorem peek {k : Token → Parse β} (h : Finishes (k c.peek) c m) :
    Finishes (Grammar.peek >>= k) c m := h

theorem freshId (h : c.Within n) : Finishes Grammar.freshId c n := .tree (h.renumber _)

/-- Taking a token that is not the end mark. -/
theorem advance (h : c.Within n) (hend : c.atEnd = false) :
    Finishes Grammar.advance c (n - 1) := by
  obtain ⟨t, rest, hrest, ht⟩ := h.rest_eq hend
  obtain ⟨last, _, nextId⟩ := c
  obtain rfl := hrest
  unfold Finishes
  rw [Reads.advance_cons ht]
  refine .tree ⟨?_, Nat.le_sub_one_of_lt h.length_le⟩
  obtain ⟨u, hu, hmark⟩ := h.marked
  rcases List.mem_cons.1 hu with rfl | hu
  · exact absurd hmark ht
  · exact ⟨u, hu, hmark⟩

/-- Taking whatever token is in view. -/
theorem advanceAny (h : c.Within n) : Finishes Grammar.advance c n := by
  cases hend : c.atEnd with
  | false => exact (advance h hend).mono (Nat.sub_le n 1)
  | true =>
    obtain ⟨last, rest, nextId⟩ := c
    cases rest with
    | nil =>
      obtain ⟨t, ht, -⟩ := h.marked
      cases ht
    | cons t rest =>
      have ht : t.kind = .endMark := by simpa [Cursor.atEnd, Cursor.peek] using hend
      change Ends n ((if t.kind = .endMark then _ else _ : Parse Token) _)
      rw [if_pos ht]
      exact .tree h

theorem expect (h : c.Within n) (kind : Token.Kind) (what : Expectation) :
    Finishes (Grammar.expect kind what) c (n - 1) := by
  change Ends (n - 1) ((if c.check kind then _ else _ : Parse Token) c)
  split
  · next hcheck => exact advance h (Reads.atEnd_of_check hcheck)
  · exact .rejected

theorem accept (h : c.Within n) {kind : Token.Kind} {k : Bool → Parse β}
    (hyes : ∀ c₁, c₁.Within (n - 1) → Finishes (k true) c₁ m) (hno : Finishes (k false) c m) :
    Finishes (Grammar.accept kind >>= k) c m := by
  by_cases hcheck : c.check kind = true
  · have haccept : Grammar.accept kind c =
        (do let _ ← Grammar.advance; return true : Parse Bool) c := by
      change (if c.check kind then _ else _ : Parse Bool) c = _
      rw [if_pos hcheck]
    have hadvance := advance h (Reads.atEnd_of_check hcheck)
    change Ends m (Grammar.accept kind c >>= fun p => k p.1 p.2)
    rw [haccept]
    change Ends m ((Grammar.advance c >>= fun p => .ok (true, p.2)) >>= fun p => k p.1 p.2)
    unfold Finishes at hadvance
    generalize Grammar.advance c = r at hadvance
    cases hadvance with
    | tree hc => exact hyes _ hc
    | rejected => exact .rejected
  · have haccept : Grammar.accept kind c = .ok (false, c) := by
      change (if c.check kind then _ else _ : Parse Bool) c = _
      rw [if_neg hcheck]
      rfl
    change Ends m (Grammar.accept kind c >>= fun p => k p.1 p.2)
    rw [haccept]
    exact hno

theorem acceptAny (h : c.Within n) {kinds : List Token.Kind} {k : Option Token → Parse β}
    (hyes : ∀ t c₁, c₁.Within (n - 1) → Finishes (k (some t)) c₁ m)
    (hno : Finishes (k none) c m) : Finishes (Grammar.acceptAny kinds >>= k) c m := by
  change Ends m (Grammar.acceptAny kinds c >>= fun p => k p.1 p.2)
  by_cases hcheck : kinds.any c.check = true
  · rw [Reads.acceptAny_of_check hcheck]
    have hadvance := advance h (Reads.atEnd_of_anyCheck hcheck)
    unfold Finishes at hadvance
    generalize Grammar.advance c = r at hadvance
    cases hadvance with
    | tree hc => exact hyes _ _ hc
    | rejected => exact .rejected
  · rw [Reads.acceptAny_of_not_check hcheck]
    exact hno

/-- Taking line feeds. -/
theorem dropNewlines (last : Token) {rest : List Token} (h : ∃ t ∈ rest, t.kind = .endMark) :
    ∃ last' rest', Grammar.dropNewlines last rest = .ok (last', rest') ∧
      (∃ t ∈ rest', t.kind = .endMark) ∧ rest'.length ≤ rest.length ∧
      (rest' ≠ rest → rest'.length < rest.length) := by
  induction rest generalizing last with
  | nil =>
    obtain ⟨t, ht, -⟩ := h
    cases ht
  | cons t rest ih =>
    rw [Grammar.dropNewlines]
    split
    · next hfeed =>
      obtain ⟨u, hu, hmark⟩ := h
      have hrest : ∃ t ∈ rest, t.kind = .endMark := by
        rcases List.mem_cons.1 hu with rfl | hu
        · rw [hmark] at hfeed
          cases hfeed
        · exact ⟨u, hu, hmark⟩
      obtain ⟨last', rest', heq, hmarked, hle, -⟩ := ih t hrest
      have hlt : rest'.length < (t :: rest).length := Nat.lt_succ_of_le hle
      exact ⟨last', rest', heq, hmarked, Nat.le_of_lt hlt, fun _ => hlt⟩
    · exact ⟨last, t :: rest, rfl, h, Nat.le_refl _, fun hne => absurd rfl hne⟩

/-- Taking line feeds; if they are all there is, at least one has been taken. -/
theorem skipping {k : Unit → Parse β} (h : c.Within n) (hk : ∀ c₁, c₁.Within n →
      (c₁.atEnd = true → c.atEnd = false → c₁.Within (n - 1)) → Finishes (k ()) c₁ m) :
    Finishes (Grammar.skipNewlines >>= k) c m := by
  obtain ⟨last', rest', heq, hmarked, hle, hlt⟩ := dropNewlines c.last h.marked
  change Ends m (Grammar.skipNewlines c >>= fun p => k p.1 p.2)
  rw [Reads.skipNewlines_eq, heq]
  refine hk ⟨last', rest', c.nextId⟩ ⟨hmarked, Nat.le_trans hle h.length_le⟩ fun hend hend' => ?_
  refine ⟨hmarked, Nat.le_sub_one_of_lt (Nat.lt_of_lt_of_le (hlt ?_) h.length_le)⟩
  rintro rfl
  -- the token in view would be the same
  obtain ⟨t, rest, hrest, ht⟩ := h.rest_eq hend'
  simp only [Cursor.atEnd, Cursor.peek, hrest, List.head?_cons, Option.getD_some] at hend
  exact ht (by simpa using hend)

theorem skipNewlines (h : c.Within n) : Finishes Grammar.skipNewlines c n := by
  have hskip : Finishes (Grammar.skipNewlines >>= Pure.pure) c n :=
    skipping h fun _ h₁ _ => .pure h₁ _
  rwa [bind_pure] at hskip

theorem statementEnd (h : c.Within n) : Finishes Grammar.statementEnd c n := by
  refine acceptAny h (fun _ c₁ h₁ => .pure (h₁.mono (Nat.sub_le n 1)) _) (.get ?_)
  split
  · exact .pure h _
  · exact .failExpecting _

end

end Finishes

/-! ### Annotations -/

section

variable {c : Cursor} {n fuel : Nat}

theorem arrayRest_finishes (ty : Ty) (hn : 32 * n + 1 ≤ fuel) (hc : c.Within n) :
    Finishes (arrayRest fuel ty) c n := by
  have hpos := hc.pos
  induction fuel generalizing c n ty with
  | zero => omega
  | succ fuel ih =>
    simp only [arrayRest]
    refine .get ?_
    split
    · next hcheck =>
      rw [Bool.and_eq_true] at hcheck
      refine (Finishes.advance hc (Reads.atEnd_of_check hcheck.1)).bind fun _ c₁ h₁ => ?_
      refine (Finishes.advanceAny h₁).bind fun _ c₂ h₂ => ?_
      exact (ih _ (by omega) h₂ h₂.pos).mono (Nat.sub_le n 1)
    · exact .pure hc _

/-- The productions for annotations finish with a bound of `fuel`. -/
structure AnnotationsFinish (fuel : Nat) : Prop where
  announced : ∀ {n c}, 32 * n + 1 ≤ fuel → c.Within n → Finishes (annotated fuel) c n
  unionType : ∀ {n c}, 32 * n + 4 ≤ fuel → c.Within n → Finishes (unionType fuel) c (n - 1)
  unionRest : ∀ {n c}, 32 * n + 1 ≤ fuel → c.Within n → Finishes (unionRest fuel) c n
  intersectionType : ∀ {n c}, 32 * n + 3 ≤ fuel → c.Within n →
    Finishes (intersectionType fuel) c (n - 1)
  intersectionRest : ∀ {n c}, 32 * n + 1 ≤ fuel → c.Within n →
    Finishes (intersectionRest fuel) c n
  arrayType : ∀ {n c}, 32 * n + 2 ≤ fuel → c.Within n → Finishes (arrayType fuel) c (n - 1)
  primaryType : ∀ {n c}, 32 * n + 1 ≤ fuel → c.Within n → Finishes (primaryType fuel) c (n - 1)
  typeArguments : ∀ {n c}, 32 * n + 5 ≤ fuel → c.Within n → Finishes (typeArguments fuel) c n
  tupleElements : ∀ {n c}, 32 * n + 5 ≤ fuel → c.Within n → Finishes (tupleElements fuel) c n
  typeEntries : ∀ {n c}, 32 * n + 1 ≤ fuel → c.Within n → Finishes (typeEntries fuel) c n
  parameters : ∀ {n c}, 32 * n + 2 ≤ fuel → c.Within n → Finishes (parameters fuel) c (n - 1)
  parameterRow : ∀ {n c} count, 32 * n + 1 ≤ fuel → c.Within n →
    Finishes (parameterRow fuel count) c n

theorem primaryType_finishes (h : AnnotationsFinish fuel) (hn : 32 * n + 1 ≤ fuel + 1)
    (hc : c.Within n) : Finishes (primaryType (fuel + 1)) c (n - 1) := by
  have hpos := hc.pos
  simp only [primaryType]
  refine .acceptAny hc (fun _ c₁ h₁ => .pure h₁ _) ?_
  refine .acceptAny hc (fun _ c₁ h₁ => ?_) ?_
  · refine .accept h₁ (fun c₂ h₂ => ?_) (.pure h₁ _)
    refine (h.typeArguments (by omega) h₂).bind fun _ c₃ h₃ => ?_
    exact (Finishes.expect h₃ _ _).map (by omega) _
  refine .accept hc (fun c₁ h₁ => ?_) ?_
  · refine (h.parameters (by omega) h₁).bind fun _ c₂ h₂ => ?_
    refine (Finishes.expect h₂ _ _).bind fun _ c₃ h₃ => ?_
    exact (h.unionType (by omega) h₃).map (by omega) _
  refine .accept hc (fun c₁ h₁ => ?_) ?_
  · refine (h.tupleElements (by omega) h₁).bind fun _ c₂ h₂ => ?_
    exact (Finishes.expect h₂ _ _).map (by omega) _
  refine .accept hc (fun c₁ h₁ => .pure h₁ _) ?_
  refine .accept hc (fun c₁ h₁ => ?_) (.failExpecting _)
  refine (Finishes.skipNewlines h₁).bind fun _ c₂ h₂ => ?_
  refine (h.typeEntries (by omega) h₂).bind fun _ c₃ h₃ => ?_
  exact (Finishes.expect h₃ _ _).map (by omega) _

theorem annotationsFinish_succ (h : AnnotationsFinish fuel) : AnnotationsFinish (fuel + 1) where
  announced {n c} hn hc := by
    have hpos := hc.pos
    simp only [annotated]
    refine .accept hc (fun c₁ h₁ => ?_) (.pure hc _)
    exact (h.unionType (by omega) h₁).map (by omega) _
  unionType {n c} hn hc := by
    have hpos := hc.pos
    simp only [Grammar.unionType]
    refine (h.intersectionType (by omega) hc).bind fun _ c₁ h₁ => ?_
    exact (h.unionRest (by omega) h₁).map (Nat.le_refl _) _
  unionRest {n c} hn hc := by
    have hpos := hc.pos
    simp only [Grammar.unionRest]
    refine .accept hc (fun c₁ h₁ => ?_) (.pure hc _)
    refine (h.intersectionType (by omega) h₁).bind fun _ c₂ h₂ => ?_
    exact (h.unionRest (by omega) h₂).map (by omega) _
  intersectionType {n c} hn hc := by
    have hpos := hc.pos
    simp only [Grammar.intersectionType]
    refine (h.arrayType (by omega) hc).bind fun _ c₁ h₁ => ?_
    exact (h.intersectionRest (by omega) h₁).map (Nat.le_refl _) _
  intersectionRest {n c} hn hc := by
    have hpos := hc.pos
    simp only [Grammar.intersectionRest]
    refine .accept hc (fun c₁ h₁ => ?_) (.pure hc _)
    refine (h.arrayType (by omega) h₁).bind fun _ c₂ h₂ => ?_
    exact (h.intersectionRest (by omega) h₂).map (by omega) _
  arrayType {n c} hn hc := by
    have hpos := hc.pos
    simp only [Grammar.arrayType]
    refine (h.primaryType (by omega) hc).bind fun _ c₁ h₁ => ?_
    exact arrayRest_finishes _ (by omega) h₁
  primaryType := primaryType_finishes h
  typeArguments {n c} hn hc := by
    have hpos := hc.pos
    simp only [Grammar.typeArguments]
    refine (h.unionType (by omega) hc).bind fun _ c₁ h₁ => ?_
    refine .accept h₁ (fun c₂ h₂ => ?_) (.pure (h₁.mono (by omega)) _)
    exact (h.typeArguments (by omega) h₂).map (by omega) _
  tupleElements {n c} hn hc := by
    have hpos := hc.pos
    simp only [Grammar.tupleElements]
    refine .get ?_
    split
    · exact .pure hc _
    · refine (h.unionType (by omega) hc).bind fun _ c₁ h₁ => ?_
      refine .accept h₁ (fun c₂ h₂ => ?_) (.pure (h₁.mono (by omega)) _)
      exact (h.tupleElements (by omega) h₂).map (by omega) _
  typeEntries {n c} hn hc := by
    have hpos := hc.pos
    simp only [Grammar.typeEntries]
    refine .get ?_
    split
    · exact .pure hc _
    · refine (Finishes.expect hc _ _).bind fun _ c₁ h₁ => ?_
      refine (Finishes.expect h₁ _ _).bind fun _ c₂ h₂ => ?_
      refine (h.unionType (by omega) h₂).bind fun _ c₃ h₃ => ?_
      have hmore : ∀ {c₄ : Cursor}, c₄.Within (n - 1 - 1 - 1) →
          ∀ ty : Ty, ∀ name : Token, Finishes (do
            skipNewlines
            return TyEntry.mk name.lexeme ty :: (← Grammar.typeEntries fuel)) c₄ n := by
        intro c₄ h₄ ty name
        refine (Finishes.skipNewlines h₄).bind fun _ c₅ h₅ => ?_
        exact (h.typeEntries (by omega) h₅).map (by omega) _
      exact .acceptAny h₃ (fun _ c₄ h₄ => hmore (h₄.mono (by omega)) _ _) (hmore h₃ _ _)
  parameters {n c} hn hc := by
    have hpos := hc.pos
    simp only [Grammar.parameters]
    refine (Finishes.skipNewlines hc).bind fun _ c₁ h₁ => .get ?_
    split
    · refine (Finishes.pure h₁ _).bind fun _ c₂ h₂ => ?_
      exact (Finishes.expect h₂ _ _).map (Nat.le_refl _) _
    · refine (h.parameterRow 0 (by omega) h₁).bind fun _ c₂ h₂ => ?_
      exact (Finishes.expect h₂ _ _).map (Nat.le_refl _) _
  parameterRow {n c} count hn hc := by
    have hpos := hc.pos
    simp only [Grammar.parameterRow]
    refine (Finishes.skipNewlines hc).bind fun _ c₁ h₁ => ?_
    split
    · exact .peek (.failAt _ _)
    · refine (Finishes.expect h₁ _ _).bind fun _ c₂ h₂ => ?_
      refine (h.announced (by omega) h₂).bind fun _ c₃ h₃ => .get ?_
      refine (Finishes.skipNewlines h₃).bind fun _ c₄ h₄ => ?_
      refine .accept h₄ (fun c₅ h₅ => ?_) (.pure (h₄.mono (by omega)) _)
      exact (h.parameterRow (count + 1) (by omega) h₅).map (by omega) _

theorem annotationsFinish (fuel : Nat) : AnnotationsFinish fuel := by
  induction fuel with
  | zero => constructor <;> intros <;> omega
  | succ fuel ih => exact annotationsFinish_succ ih

/-! ### Expressions and statements -/

/-- The productions for expressions and statements finish with a bound of `fuel`.  A statement takes
no token only if the end mark is in view. -/
structure ProductionsFinish (fuel : Nat) : Prop where
  expression : ∀ {n c}, 32 * n + 10 ≤ fuel → c.Within n → Finishes (expression fuel) c (n - 1)
  binary : ∀ {n c} levels, levels.length ≤ 6 → 32 * n + levels.length + 3 ≤ fuel → c.Within n →
    Finishes (binary fuel levels) c (n - 1)
  binaryRest : ∀ {n c} operators tighter left, tighter.length ≤ 5 → 32 * n + 1 ≤ fuel →
    c.Within n → Finishes (binaryRest fuel operators tighter left) c n
  unary : ∀ {n c}, 32 * n + 2 ≤ fuel → c.Within n → Finishes (unary fuel) c (n - 1)
  postfixRest : ∀ {n c} head, 32 * n + 1 ≤ fuel → c.Within n → Finishes (postfixRest fuel head) c n
  argumentRow : ∀ {n c} count, 32 * n + 11 ≤ fuel → c.Within n →
    Finishes (argumentRow fuel count) c n
  primary : ∀ {n c}, 32 * n + 1 ≤ fuel → c.Within n → Finishes (primary fuel) c (n - 1)
  elementRow : ∀ {n c}, 32 * n + 11 ≤ fuel → c.Within n → Finishes (elementRow fuel) c n
  entryRow : ∀ {n c} entries, 32 * n + 1 ≤ fuel → c.Within n → Finishes (entryRow fuel entries) c n
  functionRest : ∀ {n c} name, 32 * n + 3 ≤ fuel → c.Within n →
    Finishes (functionRest fuel name) c n
  block : ∀ {n c}, 32 * n + 1 ≤ fuel → c.Within n → Finishes (block fuel) c (n - 1)
  blockRow : ∀ {n c}, 32 * n + 13 ≤ fuel → c.Within n → Finishes (blockRow fuel) c n
  statement : ∀ {n m c}, 32 * n + 12 ≤ fuel → c.Within n → n - 1 ≤ m →
    (c.atEnd = true → n ≤ m) → Finishes (statement fuel) c m
  expressionStatement : ∀ {n c}, 32 * n + 11 ≤ fuel → c.Within n →
    Finishes (expressionStatement fuel) c (n - 1)
  classDeclaration : ∀ {n c}, 32 * n + 1 ≤ fuel → c.Within n →
    Finishes (classDeclaration fuel) c n
  memberRow : ∀ {n c}, 32 * n + 1 ≤ fuel → c.Within n → Finishes (memberRow fuel) c n
  ifStatement : ∀ {n c} keyword, 32 * n + 1 ≤ fuel → c.Within n →
    Finishes (ifStatement fuel keyword) c n
  whileStatement : ∀ {n c} keyword, 32 * n + 1 ≤ fuel → c.Within n →
    Finishes (whileStatement fuel keyword) c n
  forStatement : ∀ {n c} keyword, 32 * n + 1 ≤ fuel → c.Within n →
    Finishes (forStatement fuel keyword) c n
  forInit : ∀ {n c}, 32 * n + 12 ≤ fuel → c.Within n → Finishes (forInit fuel) c n
  variableDeclaration : ∀ {n c} keyword, 32 * n + 1 ≤ fuel → c.Within n →
    Finishes (variableDeclaration fuel keyword) c n
  returnStatement : ∀ {n c} keyword, 32 * n + 11 ≤ fuel → c.Within n →
    Finishes (returnStatement fuel keyword) c n
  indexAssignment : ∀ {n c}, 32 * n + 1 ≤ fuel → c.Within n →
    Finishes (indexAssignment fuel) c (n - 1)

theorem assignment_finishes (target : Expr) (equals : Token) (value : Expr) (hc : c.Within n) :
    Finishes (assignment target equals value) c n := by
  unfold assignment
  split
  · exact (Finishes.freshId hc).map (Nat.le_refl n) _
  · exact .pure hc _
  · exact .failAt _ _

theorem compoundAssignment_finishes (target : Expr) (operator : Token) (value : Expr)
    (hc : c.Within n) : Finishes (compoundAssignment target operator value) c n := by
  unfold compoundAssignment
  split
  · exact (Finishes.freshId hc).map (Nat.le_refl n) _
  · exact .pure hc _
  · exact .failAt _ _

theorem numberLiteral_finishes (token : Token) (hc : c.Within n) :
    Finishes (numberLiteral token) c n := by
  unfold numberLiteral
  split
  · exact .pure hc _
  · exact .failAt _ _

theorem expression_finishes (h : ProductionsFinish fuel) (hn : 32 * n + 10 ≤ fuel + 1)
    (hc : c.Within n) : Finishes (expression (fuel + 1)) c (n - 1) := by
  have hpos := hc.pos
  simp only [expression]
  have hlevels : binaryLevels.length = 6 := rfl
  refine (h.binary binaryLevels (by omega) (by omega) hc).bind fun target c₁ h₁ => ?_
  refine .acceptAny h₁ (fun _ c₂ h₂ => ?_) ?_
  · refine (h.expression (by omega) h₂).bind fun _ c₃ h₃ => ?_
    exact assignment_finishes _ _ _ (h₃.mono (by omega))
  refine .acceptAny h₁ (fun _ c₂ h₂ => ?_) ?_
  · refine (h.expression (by omega) h₂).bind fun _ c₃ h₃ => ?_
    exact compoundAssignment_finishes _ _ _ (h₃.mono (by omega))
  refine .acceptAny h₁ (fun _ c₂ h₂ => ?_) (.pure h₁ _)
  exact compoundAssignment_finishes _ _ _ (h₂.mono (by omega))

theorem binary_finishes (h : ProductionsFinish fuel) (levels : List (List Token.Kind))
    (hlevels : levels.length ≤ 6) (hn : 32 * n + levels.length + 3 ≤ fuel + 1) (hc : c.Within n) :
    Finishes (binary (fuel + 1) levels) c (n - 1) := by
  have hpos := hc.pos
  cases levels with
  | nil =>
    simp only [binary]
    exact h.unary (by simp at hn; omega) hc
  | cons operators tighter =>
    simp only [binary]
    simp only [List.length_cons] at hn hlevels
    refine (h.binary tighter (by omega) (by omega) hc).bind fun left c₁ h₁ => ?_
    exact h.binaryRest operators tighter left (by omega) (by omega) h₁

theorem primary_finishes (h : ProductionsFinish fuel) (hn : 32 * n + 1 ≤ fuel + 1)
    (hc : c.Within n) : Finishes (primary (fuel + 1)) c (n - 1) := by
  have hpos := hc.pos
  simp only [primary]
  refine .get ?_
  -- only an end mark is not taken, and that is no expression
  cases hend : c.atEnd with
  | true =>
    have hkind : c.peek.kind = .endMark := by simpa [Cursor.atEnd] using hend
    simp only [hkind]
    exact .failExpecting _
  | false =>
    have hadvance := Finishes.advance hc hend
    split
    case h_1 | h_2 =>
      exact hadvance.bind fun _ c₁ h₁ => numberLiteral_finishes _ h₁
    case h_3 | h_4 | h_5 | h_6 | h_7 | h_8 => exact hadvance.map (Nat.le_refl _) _
    case h_9 =>
      refine hadvance.bind fun token c₁ h₁ => ?_
      refine (Finishes.expect h₁ _ _).bind fun _ c₂ h₂ => ?_
      exact (h.functionRest token (by omega) h₂).map (by omega) _
    case h_10 =>
      refine hadvance.bind fun keyword c₁ h₁ => ?_
      exact (Finishes.freshId h₁).map (Nat.le_refl _) _
    case h_11 | h_12 =>
      refine hadvance.bind fun name c₁ h₁ => ?_
      refine (Finishes.freshId h₁).bind fun id c₂ h₂ => ?_
      refine .accept h₂ (fun c₃ h₃ => ?_) (.pure h₂ _)
      refine (h.expression (by omega) h₃).bind fun _ c₄ h₄ => ?_
      exact (Finishes.expect h₄ _ _).map (by omega) _
    case h_13 =>
      refine hadvance.bind fun _ c₁ h₁ => ?_
      refine (Finishes.skipNewlines h₁).bind fun _ c₂ h₂ => ?_
      refine (h.expression (by omega) h₂).bind fun _ c₃ h₃ => ?_
      refine (Finishes.skipNewlines h₃).bind fun _ c₄ h₄ => ?_
      exact (Finishes.expect h₄ _ _).map (by omega) _
    case h_14 =>
      refine hadvance.bind fun _ c₁ h₁ => ?_
      refine (Finishes.skipNewlines h₁).bind fun _ c₂ h₂ => ?_
      refine (h.elementRow (by omega) h₂).bind fun _ c₃ h₃ => ?_
      exact (Finishes.expect h₃ _ _).map (by omega) _
    case h_15 =>
      split
      · refine hadvance.bind fun _ c₁ h₁ => ?_
        refine (Finishes.skipNewlines h₁).bind fun _ c₂ h₂ => ?_
        refine (h.entryRow [] (by omega) h₂).bind fun _ c₃ h₃ => ?_
        exact (Finishes.expect h₃ _ _).map (by omega) _
      · exact .failExpecting _
    case h_16 => exact .failExpecting _

theorem emptyObjectStatement_finishes (hc : c.Within n) : Finishes emptyObjectStatement c n :=
  (Finishes.statementEnd hc).map (Nat.le_refl n) _

theorem statement_finishes {m : Nat} (h : ProductionsFinish fuel) (hn : 32 * n + 12 ≤ fuel + 1)
    (hc : c.Within n) (hm : n - 1 ≤ m) (hm' : c.atEnd = true → n ≤ m) :
    Finishes (statement (fuel + 1)) c m := by
  have hpos := hc.pos
  simp only [statement]
  refine .skipping hc fun c₁ h₁ htaken => .get ?_
  cases hend : c₁.atEnd with
  | true =>
    have hkind : c₁.peek.kind = .endMark := by simpa [Cursor.atEnd] using hend
    simp only [hkind]
    cases hend' : c.atEnd with
    | true => exact .pure (h₁.mono (hm' hend')) _
    | false => exact .pure ((htaken hend hend').mono hm) _
  | false =>
    refine Finishes.mono ?_ hm
    have hadvance := Finishes.advance h₁ hend
    split
    case h_1 => exact hadvance.bind fun _ c₂ h₂ => h.classDeclaration (by omega) h₂
    case h_2 => exact hadvance.bind fun keyword c₂ h₂ => h.forStatement keyword (by omega) h₂
    case h_3 => exact hadvance.bind fun keyword c₂ h₂ => h.whileStatement keyword (by omega) h₂
    case h_4 => exact hadvance.bind fun keyword c₂ h₂ => h.ifStatement keyword (by omega) h₂
    case h_5 | h_6 | h_7 =>
      exact hadvance.bind fun keyword c₂ h₂ => h.variableDeclaration keyword (by omega) h₂
    case h_8 =>
      split
      · refine hadvance.bind fun _ c₂ h₂ => ?_
        refine (Finishes.expect h₂ _ _).bind fun name c₃ h₃ => ?_
        refine (Finishes.expect h₃ _ _).bind fun _ c₄ h₄ => ?_
        exact (h.functionRest name (by omega) h₄).map (by omega) _
      · exact h.expressionStatement (by omega) h₁
    case h_9 => exact hadvance.bind fun keyword c₂ h₂ => h.returnStatement keyword (by omega) h₂
    case h_10 =>
      split
      · refine hadvance.bind fun _ c₂ h₂ => ?_
        refine (Finishes.advanceAny h₂).bind fun _ c₃ h₃ => ?_
        exact emptyObjectStatement_finishes h₃
      · split
        · exact h.expressionStatement (by omega) h₁
        · exact (h.block (by omega) h₁).map (Nat.le_refl _) _
    case h_11 => exact hadvance.bind fun _ c₂ h₂ => emptyObjectStatement_finishes h₂
    case h_12 hkind => simp [Cursor.atEnd, hkind] at hend
    case h_13 =>
      split
      · exact h.indexAssignment (by omega) h₁
      · exact h.expressionStatement (by omega) h₁

theorem ifStatement_finishes (h : ProductionsFinish fuel) (keyword : Token)
    (hn : 32 * n + 1 ≤ fuel + 1) (hc : c.Within n) :
    Finishes (ifStatement (fuel + 1) keyword) c n := by
  have hpos := hc.pos
  simp only [ifStatement]
  refine (Finishes.expect hc _ _).bind fun _ c₁ h₁ => ?_
  refine (h.expression (by omega) h₁).bind fun _ c₂ h₂ => ?_
  refine (Finishes.expect h₂ _ _).bind fun _ c₃ h₃ => ?_
  refine (h.block (by omega) h₃).bind fun _ c₄ h₄ => .get ?_
  refine (Finishes.skipNewlines h₄).bind fun _ c₅ h₅ => ?_
  refine .accept h₅ (fun c₆ h₆ => ?_) ?_
  · refine .acceptAny h₆ (fun inner c₇ h₇ => ?_) ?_
    · exact (h.ifStatement inner (by omega) h₇).map (by omega) _
    · exact (h.block (by omega) h₆).map (by omega) _
  -- without `else` the cursor goes back before the line feeds
  · exact Ends.tree (h₄.mono (by omega))

theorem variableDeclaration_finishes (h : ProductionsFinish fuel) (keyword : Token)
    (hn : 32 * n + 1 ≤ fuel + 1) (hc : c.Within n) :
    Finishes (variableDeclaration (fuel + 1) keyword) c n := by
  have hpos := hc.pos
  simp only [variableDeclaration]
  refine (Finishes.expect hc _ _).bind fun _ c₁ h₁ => ?_
  refine ((annotationsFinish fuel).announced (by omega) h₁).bind fun _ c₂ h₂ => .peek ?_
  split
  · exact (Finishes.statementEnd h₂).map (by omega) _
  · refine (Finishes.expect h₂ _ _).bind fun _ c₃ h₃ => .get ?_
    split
    · exact .failExpecting _
    · refine (h.expression (by omega) h₃).bind fun _ c₄ h₄ => ?_
      exact (Finishes.statementEnd h₄).map (by omega) _

theorem forStatement_finishes (h : ProductionsFinish fuel) (keyword : Token)
    (hn : 32 * n + 1 ≤ fuel + 1) (hc : c.Within n) :
    Finishes (forStatement (fuel + 1) keyword) c n := by
  have hpos := hc.pos
  simp only [forStatement]
  refine (Finishes.expect hc _ _).bind fun _ c₁ h₁ => ?_
  refine (h.forInit (by omega) h₁).bind fun init c₂ h₂ => .get ?_
  have hbody : ∀ {c₃ : Cursor} (condition : Expr) (increment : Option Expr),
      c₃.Within (n - 1) → Finishes (do
        let _ ← expect .rightParen .forClose
        let body ← Grammar.statement fuel
        return forLoop keyword init condition increment body) c₃ n := by
    intro c₃ condition increment h₃
    refine (Finishes.expect h₃ _ _).bind fun _ c₄ h₄ => ?_
    exact (h.statement (by omega) h₄ (Nat.sub_le _ 1) fun _ => Nat.le_refl _).map (by omega) _
  have hincrement : ∀ {c₃ : Cursor} (condition : Expr), c₃.Within (n - 1) → Finishes (do
        let _ ← expect .semicolon .loopSemicolon
        let increment ←
          if (← get).check .rightParen then pure none
          else some <$> Grammar.expression fuel
        let _ ← expect .rightParen .forClose
        let body ← Grammar.statement fuel
        return forLoop keyword init condition increment body) c₃ n := by
    intro c₃ condition h₃
    refine (Finishes.expect h₃ _ _).bind fun _ c₄ h₄ => .get ?_
    split
    · exact (Finishes.pure h₄ _).bind fun _ c₅ h₅ => hbody condition _ (h₅.mono (by omega))
    · have hsome := (h.expression (by omega) h₄).map (Nat.le_refl _) some
      rw [bind_pure_comp] at hsome
      exact hsome.bind fun _ c₅ h₅ => hbody condition _ (h₅.mono (by omega))
  split
  · exact (Finishes.pure h₂ _).bind fun _ c₃ h₃ => hincrement _ h₃
  · exact (h.expression (by omega) h₂).bind fun _ c₃ h₃ => hincrement _ (h₃.mono (by omega))

theorem memberRow_finishes (h : ProductionsFinish fuel) (hn : 32 * n + 1 ≤ fuel + 1)
    (hc : c.Within n) : Finishes (memberRow (fuel + 1)) c n := by
  have hpos := hc.pos
  simp only [memberRow]
  refine .get ?_
  split
  · exact .pure hc _
  · refine (Finishes.expect hc _ _).bind fun name c₁ h₁ => ?_
    refine .accept h₁ (fun c₂ h₂ => ?_) ?_
    · refine (h.functionRest name (by omega) h₂).bind fun _ c₃ h₃ => ?_
      refine (Finishes.skipNewlines h₃).bind fun _ c₄ h₄ => ?_
      exact (h.memberRow (by omega) h₄).map (by omega) _
    · refine ((annotationsFinish fuel).announced (by omega) h₁).bind fun _ c₂ h₂ => ?_
      refine (Finishes.expect h₂ _ _).bind fun _ c₃ h₃ => ?_
      refine (h.expression (by omega) h₃).bind fun _ c₄ h₄ => ?_
      refine (Finishes.statementEnd h₄).bind fun _ c₅ h₅ => ?_
      refine (Finishes.skipNewlines h₅).bind fun _ c₆ h₆ => ?_
      exact (h.memberRow (by omega) h₆).map (by omega) _

theorem productionsFinish_succ (h : ProductionsFinish fuel) : ProductionsFinish (fuel + 1) where
  expression := expression_finishes h
  binary := binary_finishes h
  binaryRest {n c} operators tighter left hlevels hn hc := by
    have hpos := hc.pos
    simp only [Grammar.binaryRest]
    refine .acceptAny hc (fun operator c₁ h₁ => ?_) (.pure hc _)
    refine (h.binary tighter (by omega) (by omega) h₁).bind fun right c₂ h₂ => ?_
    exact (h.binaryRest _ _ _ hlevels (by omega) h₂).mono (by omega)
  unary {n c} hn hc := by
    have hpos := hc.pos
    simp only [Grammar.unary]
    refine .acceptAny hc (fun operator c₁ h₁ => ?_) ?_
    · exact (h.unary (by omega) h₁).map (by omega) _
    · exact (h.primary (by omega) hc).bind fun head c₁ h₁ => h.postfixRest head (by omega) h₁
  postfixRest {n c} head hn hc := by
    have hpos := hc.pos
    simp only [Grammar.postfixRest]
    refine .accept hc (fun c₁ h₁ => ?_) (.accept hc (fun c₁ h₁ => ?_) (.pure hc _))
    · refine (Finishes.skipNewlines h₁).bind fun _ c₂ h₂ => .get ?_
      have hclose : ∀ {c₃ : Cursor} (args : List Expr), c₃.Within (n - 1) → Finishes (do
          let paren ← expect .rightParen .argumentsClose
          Grammar.postfixRest fuel (.call head paren args)) c₃ n := by
        intro c₃ args h₃
        refine (Finishes.expect h₃ _ _).bind fun paren c₄ h₄ => ?_
        exact (h.postfixRest _ (by omega) h₄).mono (by omega)
      split
      · exact (Finishes.pure h₂ _).bind fun args c₃ h₃ => hclose args h₃
      · exact (h.argumentRow 0 (by omega) h₂).bind fun args c₃ h₃ => hclose args h₃
    · refine (Finishes.expect h₁ _ _).bind fun name c₂ h₂ => ?_
      exact (h.postfixRest _ (by omega) h₂).mono (by omega)
  argumentRow {n c} count hn hc := by
    have hpos := hc.pos
    simp only [Grammar.argumentRow]
    refine (Finishes.skipNewlines hc).bind fun _ c₁ h₁ => ?_
    split
    · exact .peek (.failAt _ _)
    · refine (h.expression (by omega) h₁).bind fun first c₂ h₂ => ?_
      refine (Finishes.skipNewlines h₂).bind fun _ c₃ h₃ => ?_
      refine .accept h₃ (fun c₄ h₄ => ?_) (.pure (h₃.mono (by omega)) _)
      exact (h.argumentRow (count + 1) (by omega) h₄).map (by omega) _
  primary := primary_finishes h
  elementRow {n c} hn hc := by
    have hpos := hc.pos
    simp only [Grammar.elementRow]
    refine .get ?_
    split
    · exact .pure hc _
    · refine (h.expression (by omega) hc).bind fun first c₁ h₁ => ?_
      refine (Finishes.skipNewlines h₁).bind fun _ c₂ h₂ => ?_
      refine .accept h₂ (fun c₃ h₃ => ?_) (.pure (h₂.mono (by omega)) _)
      refine (Finishes.skipNewlines h₃).bind fun _ c₄ h₄ => ?_
      exact (h.elementRow (by omega) h₄).map (by omega) _
  entryRow {n c} entries hn hc := by
    have hpos := hc.pos
    simp only [Grammar.entryRow]
    refine .get ?_
    split
    · exact .pure hc _
    · refine (Finishes.expect hc _ _).bind fun key c₁ h₁ => ?_
      refine (Finishes.expect h₁ _ _).bind fun _ c₂ h₂ => ?_
      refine (Finishes.skipNewlines h₂).bind fun _ c₃ h₃ => ?_
      refine (h.expression (by omega) h₃).bind fun value c₄ h₄ => ?_
      refine (Finishes.skipNewlines h₄).bind fun _ c₅ h₅ => ?_
      refine .accept h₅ (fun c₆ h₆ => ?_) (.pure (h₅.mono (by omega)) _)
      refine (Finishes.skipNewlines h₆).bind fun _ c₇ h₇ => ?_
      exact (h.entryRow _ (by omega) h₇).mono (by omega)
  functionRest {n c} name hn hc := by
    have hpos := hc.pos
    simp only [Grammar.functionRest]
    refine ((annotationsFinish fuel).parameters (by omega) hc).bind fun _ c₁ h₁ => ?_
    refine ((annotationsFinish fuel).announced (by omega) h₁).bind fun _ c₂ h₂ => ?_
    exact (h.block (by omega) h₂).map (by omega) _
  block {n c} hn hc := by
    have hpos := hc.pos
    simp only [Grammar.block]
    refine (Finishes.skipNewlines hc).bind fun _ c₁ h₁ => ?_
    refine .accept h₁ (fun c₂ h₂ => .pure h₂ _) ?_
    refine (Finishes.expect h₁ _ _).bind fun _ c₂ h₂ => ?_
    refine (Finishes.skipNewlines h₂).bind fun _ c₃ h₃ => ?_
    refine (h.blockRow (by omega) h₃).bind fun _ c₄ h₄ => ?_
    exact (Finishes.expect h₄ _ _).map (by omega) _
  blockRow {n c} hn hc := by
    have hpos := hc.pos
    simp only [Grammar.blockRow]
    refine .get ?_
    split
    · exact .pure hc _
    · next hmore =>
      rw [Bool.or_eq_true, not_or, Bool.not_eq_true, Bool.not_eq_true] at hmore
      have hfirst := h.statement (m := n - 1) (by omega) hc (Nat.le_refl _) fun hend => by
        rw [hmore.2] at hend
        cases hend
      refine hfirst.bind fun first c₁ h₁ => ?_
      refine (Finishes.skipNewlines h₁).bind fun _ c₂ h₂ => ?_
      exact (h.blockRow (by omega) h₂).map (by omega) _
  statement := statement_finishes h
  expressionStatement {n c} hn hc := by
    have hpos := hc.pos
    simp only [Grammar.expressionStatement]
    refine .peek ((h.expression (by omega) hc).bind fun e c₁ h₁ => ?_)
    exact (Finishes.statementEnd h₁).map (Nat.le_refl _) _
  classDeclaration {n c} hn hc := by
    have hpos := hc.pos
    simp only [Grammar.classDeclaration]
    refine (Finishes.expect hc _ _).bind fun name c₁ h₁ => ?_
    refine (Finishes.skipNewlines h₁).bind fun _ c₂ h₂ => ?_
    refine .accept h₂ (fun c₃ h₃ => .pure (h₃.mono (by omega)) _) ?_
    refine (Finishes.expect h₂ _ _).bind fun _ c₃ h₃ => ?_
    refine (Finishes.skipNewlines h₃).bind fun _ c₄ h₄ => ?_
    refine (h.memberRow (by omega) h₄).bind fun members c₅ h₅ => ?_
    exact (Finishes.expect h₅ _ _).map (by omega) _
  memberRow := memberRow_finishes h
  ifStatement := ifStatement_finishes h
  whileStatement {n c} keyword hn hc := by
    have hpos := hc.pos
    simp only [Grammar.whileStatement]
    refine (Finishes.expect hc _ _).bind fun _ c₁ h₁ => ?_
    refine (h.expression (by omega) h₁).bind fun _ c₂ h₂ => ?_
    refine (Finishes.expect h₂ _ _).bind fun _ c₃ h₃ => ?_
    exact (h.statement (by omega) h₃ (Nat.sub_le _ 1) fun _ => Nat.le_refl _).map (by omega) _
  forStatement := forStatement_finishes h
  forInit {n c} hn hc := by
    have hpos := hc.pos
    simp only [Grammar.forInit]
    refine .accept hc (fun c₁ h₁ => .pure (h₁.mono (by omega)) _) ?_
    refine .acceptAny hc (fun keyword c₁ h₁ => ?_) ?_
    · exact (h.variableDeclaration keyword (by omega) h₁).map (by omega) _
    · exact (h.expressionStatement (by omega) hc).map (by omega) _
  variableDeclaration := variableDeclaration_finishes h
  returnStatement {n c} keyword hn hc := by
    have hpos := hc.pos
    simp only [Grammar.returnStatement]
    refine .peek ?_
    split
    · refine (Finishes.pure hc _).bind fun _ c₁ h₁ => ?_
      exact (Finishes.statementEnd h₁).map (Nat.le_refl _) _
    · refine (h.expression (by omega) hc).bind fun _ c₁ h₁ => ?_
      exact (Finishes.statementEnd h₁).map (by omega) _
  indexAssignment {n c} hn hc := by
    have hpos := hc.pos
    simp only [Grammar.indexAssignment]
    refine (Finishes.advanceAny hc).bind fun name c₁ h₁ => ?_
    refine (Finishes.freshId h₁).bind fun id c₂ h₂ => ?_
    refine (Finishes.expect h₂ _ _).bind fun _ c₃ h₃ => ?_
    refine (h.expression (by omega) h₃).bind fun _ c₄ h₄ => ?_
    refine (Finishes.expect h₄ _ _).bind fun _ c₅ h₅ => ?_
    refine (Finishes.expect h₅ _ _).bind fun _ c₆ h₆ => ?_
    refine (h.expression (by omega) h₆).bind fun _ c₇ h₇ => ?_
    exact (Finishes.statementEnd h₇).map (by omega) _

theorem productionsFinish (fuel : Nat) : ProductionsFinish fuel := by
  induction fuel with
  | zero => constructor <;> intros <;> omega
  | succ fuel ih => exact productionsFinish_succ ih

/-! ### Programs -/

theorem topStatement_finishes (hn : 32 * n + 12 ≤ fuel) (hc : c.Within n) (hend : c.atEnd = false) :
    Finishes (topStatement fuel) c (n - 1) := by
  have hstatement := (productionsFinish fuel).statement (m := n - 1) hn hc (Nat.le_refl _)
    fun hend' => by
      rw [hend] at hend'
      cases hend'
  refine hstatement.bind fun first c₁ h₁ => ?_
  exact (Finishes.skipNewlines h₁).map (Nat.le_refl _) _

theorem programRow_finishes (hn : 32 * n + 12 ≤ fuel) (hc : c.Within n) :
    Finishes (programRow fuel) c n := by
  induction n generalizing c with
  | zero => exact absurd hc.pos (Nat.lt_irrefl 0)
  | succ n ih =>
    unfold Finishes
    rw [programRow]
    split
    · exact .tree hc
    · next hmore =>
      rw [Bool.not_eq_true] at hmore
      have hexact : c.Within c.rest.length := ⟨hc.marked, Nat.le_refl _⟩
      have hle := hc.length_le
      have hfirst : Finishes (topStatement fuel) c (c.rest.length - 1) :=
        topStatement_finishes (by omega) hexact hmore
      unfold Finishes at hfirst
      generalize topStatement fuel c = r at hfirst
      cases hfirst with
      | rejected => exact .rejected
      | @tree first c₁ h₁ =>
        have hlt : c₁.rest.length < c.rest.length := by
          have hpos := hexact.pos
          have hle₁ := h₁.length_le
          omega
        have hrow := ih (by omega) (h₁.mono (by omega))
        unfold Finishes at hrow
        change Ends (n + 1) (if _ : c₁.rest.length < c.rest.length then _ else _)
        rw [dif_pos hlt]
        generalize programRow fuel c₁ = r at hrow
        cases hrow with
        | rejected => exact .rejected
        | tree h₂ => exact .tree (h₂.mono (Nat.le_succ n))

end

end Grammar

/-- A row of tokens with an end mark is a program or has a fault. -/
theorem parseFrom_decides {firstId : NodeId} {tokens : List Token} {failure : Grammar.Failure}
    (h : ∃ t ∈ tokens, t.kind = .endMark) (hparse : parseFrom firstId tokens = .error failure) :
    ∃ e, failure = .rejected e := by
  cases tokens with
  | nil => cases hparse
  | cons first rest =>
    have hc : Grammar.Cursor.Within ⟨first, first :: rest, firstId⟩ (rest.length + 1) :=
      ⟨h, Nat.le_refl _⟩
    have hends : Grammar.Finishes (do
        Grammar.skipNewlines
        Grammar.programRow (Grammar.depthBound (rest.length + 1)))
        ⟨first, first :: rest, firstId⟩ (rest.length + 1) := by
      refine (Grammar.Finishes.skipNewlines hc).bind fun _ c₁ h₁ => ?_
      refine Grammar.programRow_finishes ?_ h₁
      unfold Grammar.depthBound
      omega
    unfold Grammar.Finishes at hends
    simp only [parseFrom, StateT.run] at hparse
    generalize (do Grammar.skipNewlines; Grammar.programRow _ : Grammar.Parse Program) _ = r
      at hends hparse
    cases hends with
    | tree => cases hparse
    | @rejected e =>
      obtain rfl := Except.error.inj hparse
      exact ⟨e, rfl⟩

theorem parseFrom_ne_outOfFuel (firstId : NodeId) {tokens : List Token}
    (h : ∃ t ∈ tokens, t.kind = .endMark) : parseFrom firstId tokens ≠ .error .outOfFuel := by
  intro hparse
  obtain ⟨e, he⟩ := parseFrom_decides h hparse
  cases he

end ScopedScript
