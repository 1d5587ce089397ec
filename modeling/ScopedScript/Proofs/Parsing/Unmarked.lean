import ScopedScript.Proofs.Parsing.Rules
import ScopedScript.Proofs.Parsing.Separators

/-! # Rows of tokens without an end mark

A row without an end mark ends at its last token, which stays in view when it has been taken.  No
such row is a program: the end is never in view, so the statements never end.  What is left is that
the row is rejected, or that the last token is taken once more, which no row can serve.

* **The last token again.** A token that is taken twice in a row is of one of the kinds `repeatable`:
  brackets that are nested, signs and negations, line feeds, and a few others.
* **Kinds before and behind.** `Cursor.Unmarked` follows, for the case that all tokens have been
  taken, which kinds the last of them can be of.  What a production takes next is of other kinds, or
  repeatable (`Unlike`).
* **Depth.** Each production has the rank that it has on rows with an end mark, counted by the tokens
  to come; so it is never the bound on the depth that stops it.

So a row is rejected unless its last token is repeatable, and for each repeatable kind there is a row
in which a place that does not exist is looked at (`unmarked_never_program`). -/

namespace ScopedScript

namespace Grammar

/-! ### Kinds -/

/-- The kinds of tokens that can be taken twice in a row. -/
def repeatable : List Token.Kind :=
  [.newline, .semicolon, .not, .minus, .leftParen, .rightParen, .leftBracket, .rightBracket,
   .leftBrace, .rightBrace, .emptyObject, .greater, .name]

/-- Kinds behind which an operand or a type starts. -/
def links : List Token.Kind :=
  [.assign, .plusAssign, .minusAssign, .timesAssign, .divideAssign, .comma, .colon, .kwReturn, .or,
   .and, .notEqual, .equal, .greaterEqual, .less, .lessEqual, .plus, .divide, .times, .pipe,
   .ampersand, .arrow]

/-- Kinds that an operand ends with. -/
def operandEnds : List Token.Kind :=
  [.number, .float, .string, .trueLit, .falseLit, .nullLit, .undefinedLit, .emptyObject, .kwThis,
   .name, .kwPrint, .rightParen, .rightBracket, .rightBrace]

/-- Kinds that an expression ends with. -/
def expressionEnds : List Token.Kind := .increment :: .decrement :: operandEnds

/-- Kinds that a type ends with. -/
def typeEnds : List Token.Kind :=
  .name :: .greater :: .rightBracket :: .emptyObject :: .rightBrace :: namedTypeKinds

/-- Unlike from repeatable ones, no kind is in both lists. -/
def Unlike (kinds kinds' : List Token.Kind) : Prop := ∀ k ∈ kinds, k ∈ kinds' → k ∈ repeatable

/-- Unlike from repeatable ones, the first kinds are among the second ones. -/
def Included (kinds kinds' : List Token.Kind) : Prop := ∀ k ∈ kinds, k ∈ kinds' ∨ k ∈ repeatable

instance (kinds kinds' : List Token.Kind) : Decidable (Unlike kinds kinds') :=
  inferInstanceAs (Decidable (∀ k ∈ kinds, k ∈ kinds' → k ∈ repeatable))

instance (kinds kinds' : List Token.Kind) : Decidable (Included kinds kinds') :=
  inferInstanceAs (Decidable (∀ k ∈ kinds, k ∈ kinds' ∨ k ∈ repeatable))

theorem Unlike.of_mem {kinds kinds' : List Token.Kind} {k : Token.Kind} (h : Unlike kinds kinds')
    (hk : k ∈ kinds) : Unlike [k] kinds' := by
  intro k' hk'
  rw [List.mem_singleton.1 hk']
  exact h k hk

theorem Unlike.of_repeatable {kinds : List Token.Kind} {k : Token.Kind} (hk : k ∈ repeatable) :
    Unlike [k] kinds := by
  intro k' hk' _
  rwa [List.mem_singleton.1 hk']

/-! ### Cursors -/

/-- No end mark is in view or to come; the last token of the row is of kind `final`, fewer than `n`
tokens are to come, and if none is, the one taken last is of one of the kinds, or repeatable. -/
structure Cursor.Unmarked (c : Cursor) (final : Token.Kind) (kinds : List Token.Kind) (n : Nat) :
    Prop where
  unmarked : ∀ t ∈ c.last :: c.rest, t.kind ≠ .endMark
  final_eq : (c.rest.getLast?.getD c.last).kind = final
  length_lt : c.rest.length < n
  used : c.rest = [] → final ∈ kinds ∨ final ∈ repeatable

namespace Cursor.Unmarked

variable {c : Cursor} {final k : Token.Kind} {kinds kinds' : List Token.Kind} {n m : Nat}

theorem pos (h : c.Unmarked final kinds n) : 0 < n := Nat.zero_lt_of_lt h.length_lt

theorem mono (h : c.Unmarked final kinds n) (hnm : n ≤ m)
    (hkinds : Included kinds kinds') : c.Unmarked final kinds' m where
  unmarked := h.unmarked
  final_eq := h.final_eq
  length_lt := Nat.lt_of_lt_of_le h.length_lt hnm
  used hrest := by
    rcases h.used hrest with hfinal | hfinal
    · exact hkinds final hfinal
    · exact .inr hfinal

/-- The number of the next variable node does not matter. -/
theorem renumber (h : c.Unmarked final kinds n) (id : NodeId) :
    Unmarked { c with nextId := id } final kinds n := ⟨h.1, h.2, h.3, h.4⟩

theorem peek_of_nil (h : c.Unmarked final kinds n) (hrest : c.rest = []) : c.peek.kind = final := by
  have hfinal := h.final_eq
  rw [hrest] at hfinal
  rw [Cursor.peek, hrest]
  exact hfinal

/-- The end is never in view. -/
theorem atEnd (h : c.Unmarked final kinds n) : c.atEnd = false := by
  have hpeek : c.peek ∈ c.last :: c.rest := by
    rw [Cursor.peek]
    cases c.rest with
    | nil => exact List.mem_cons_self
    | cons t rest => exact List.mem_cons_of_mem _ List.mem_cons_self
  simpa [Cursor.atEnd] using h.unmarked _ hpeek

theorem peek_of_check (hcheck : c.check k = true) : c.peek.kind = k := by
  simp only [Cursor.check, Bool.and_eq_true, beq_iff_eq] at hcheck
  exact hcheck.2

/-- A repeatable token in view. -/
theorem inView (h : c.Unmarked final kinds n) (hcheck : c.check k = true)
    (hk : k ∈ repeatable) : c.Unmarked final kinds' n where
  unmarked := h.unmarked
  final_eq := h.final_eq
  length_lt := h.length_lt
  used hrest := by
    rw [← h.peek_of_nil hrest, peek_of_check hcheck]
    exact .inr hk

/-- Behind a token that has been taken. -/
theorem behind {last t : Token} {rest : List Token} {id : NodeId}
    (h : Unmarked ⟨last, t :: rest, id⟩ final kinds n) :
    Unmarked ⟨t, rest, id⟩ final [t.kind] (n - 1) where
  unmarked := fun u hu => h.unmarked u (List.mem_cons_of_mem _ hu)
  final_eq := by
    have hfinal := h.final_eq
    rwa [List.getLast?_cons] at hfinal
  length_lt := Nat.lt_sub_of_add_lt h.length_lt
  used hrest := by
    have hfinal := h.final_eq
    obtain rfl : rest = [] := hrest
    exact .inl (List.mem_singleton.2 hfinal.symm)

end Cursor.Unmarked

/-- The production comes to such a cursor, or is rejected, or the last token would be taken again,
which is repeatable. -/
inductive Halted {α : Type} (final : Token.Kind) (kinds : List Token.Kind) (n : Nat) :
    Except Failure (α × Cursor) → Prop
  | tree {a : α} {c : Cursor} : c.Unmarked final kinds n → Halted final kinds n (.ok (a, c))
  | rejected {e : ParseError} : Halted final kinds n (.error (.rejected e))
  | outOfRange : final ∈ repeatable → Halted final kinds n (.error .outOfRange)

/-- From the cursor, the production halts. -/
def Halts {α : Type} (x : Parse α) (c : Cursor) (final : Token.Kind) (kinds : List Token.Kind)
    (n : Nat) : Prop := Halted final kinds n (x c)

namespace Halts

section

variable {α β : Type} {x : Parse α} {k : α → Parse β} {c : Cursor} {final kind : Token.Kind}
  {S S' T : List Token.Kind} {n m : Nat}

theorem pure (h : c.Unmarked final S n) (a : α) : Halts (Pure.pure a) c final S n := .tree h

theorem mono (h : Halts x c final S n) (hnm : n ≤ m) (hS : Included S S') :
    Halts x c final S' m := by
  unfold Halts at h ⊢
  generalize x c = r at h
  cases h with
  | tree hc => exact .tree (hc.mono hnm hS)
  | rejected => exact .rejected
  | outOfRange hfinal => exact .outOfRange hfinal

theorem bind (hx : Halts x c final S n)
    (hk : ∀ a c₁, c₁.Unmarked final S n → Halts (k a) c₁ final T m) :
    Halts (x >>= k) c final T m := by
  unfold Halts at hx
  change Halted final T m (x c >>= fun p => k p.1 p.2)
  generalize x c = r at hx
  cases hx with
  | tree hc => exact hk _ _ hc
  | rejected => exact .rejected
  | outOfRange hfinal => exact .outOfRange hfinal

/-- A production with something made of its tree. -/
theorem map (hx : Halts x c final S n) (hnm : n ≤ m) (f : α → β)
    (hS : Included S S') : Halts (do let a ← x; return f a) c final S' m :=
  hx.bind fun _ _ h => .pure (h.mono hnm hS) _

theorem failAt (token : Token) (fault : Fault) :
    Halts (Grammar.failAt token fault : Parse α) c final S n := .rejected

theorem failExpecting (what : Expectation) :
    Halts (Grammar.failExpecting what : Parse α) c final S n := .rejected

/-- Looking at the cursor, or at the token in view. -/
theorem get {k : Cursor → Parse β} (h : Halts (k c) c final S m) :
    Halts (MonadState.get >>= k) c final S m := h

theorem peek {k : Token → Parse β} (h : Halts (k c.peek) c final S m) :
    Halts (Grammar.peek >>= k) c final S m := h

theorem freshId (h : c.Unmarked final S n) : Halts Grammar.freshId c final S n :=
  .tree (h.renumber _)

/-- Taking a token.  If there is none left, the one taken last would be taken again. -/
theorem advance (h : c.Unmarked final S n) (hpeek : c.peek.kind = kind)
    (hS : Unlike [kind] S) : Halts Grammar.advance c final [kind] (n - 1) := by
  obtain ⟨last, rest, nextId⟩ := c
  cases rest with
  | nil =>
    have hfinal : kind = final := hpeek.symm.trans (h.peek_of_nil rfl)
    rcases h.used rfl with hused | hused
    · exact .outOfRange (hfinal ▸ hS kind List.mem_cons_self (hfinal ▸ hused))
    · exact .outOfRange hused
  | cons t rest =>
    obtain rfl : t.kind = kind := hpeek
    unfold Halts
    rw [Reads.advance_cons (h.unmarked t (List.mem_cons_of_mem _ List.mem_cons_self))]
    exact .tree h.behind

/-- Taking two tokens that are in view one behind the other. -/
theorem advanceTwice {kind' : Token.Kind} (h : c.Unmarked final S n)
    (hnext : c.checkNext kind' = true) {k : Parse β}
    (hk : ∀ c₁, c₁.Unmarked final [kind'] (n - 1) → Halts k c₁ final T m) :
    Halts (do let _ ← Grammar.advance; let _ ← Grammar.advance; k) c final T m := by
  obtain ⟨last, rest, nextId⟩ := c
  obtain ⟨t, u, rest, rfl, rfl⟩ : ∃ t u rest', rest = t :: u :: rest' ∧ u.kind = kind' := by
    unfold Cursor.checkNext at hnext
    match rest with
    | [] | [_] => cases hnext
    | t :: u :: rest => exact ⟨t, u, rest, rfl, by simpa using hnext⟩
  have hunmarked := h.behind.behind.mono (m := n - 1) (Nat.sub_le _ 1)
    (fun k hk => .inl hk)
  unfold Halts
  change Halted final T m (Grammar.advance ⟨last, t :: u :: rest, nextId⟩ >>= fun p =>
    Grammar.advance p.2 >>= fun q => k q.2)
  rw [Reads.advance_cons (h.unmarked t (by simp))]
  change Halted final T m (Grammar.advance ⟨t, u :: rest, nextId⟩ >>= fun q => k q.2)
  rw [Reads.advance_cons (h.unmarked u (by simp))]
  exact hk _ hunmarked

theorem expect (h : c.Unmarked final S n) (kind : Token.Kind) (what : Expectation)
    (hS : Unlike [kind] S) :
    Halts (Grammar.expect kind what) c final [kind] (n - 1) := by
  change Halted final [kind] (n - 1) ((if c.check kind then _ else _ : Parse Token) c)
  split
  · next hcheck => exact advance h (Cursor.Unmarked.peek_of_check hcheck) hS
  · exact .rejected

theorem accept (h : c.Unmarked final S n) (hS : Unlike [kind] S) {k : Bool → Parse β}
    (hyes : ∀ c₁, c₁.Unmarked final [kind] (n - 1) → Halts (k true) c₁ final T m)
    (hno : Halts (k false) c final T m) :
    Halts (Grammar.accept kind >>= k) c final T m := by
  have haccept : Halts (if c.check kind then (do let _ ← Grammar.advance; k true) else k false) c
      final T m := by
    split
    · next hcheck =>
      exact (advance h (Cursor.Unmarked.peek_of_check hcheck) hS).bind fun _ c₁ h₁ => hyes c₁ h₁
    · exact hno
  unfold Halts at haccept ⊢
  convert haccept using 1
  change ((if c.check kind then (do let _ ← Grammar.advance; return true) else return false :
    Parse Bool) c >>= fun p => k p.1 p.2) = _
  split
  · change ((Grammar.advance c >>= fun p => .ok (true, p.2)) >>= fun p => k p.1 p.2) =
      (Grammar.advance c >>= fun p => k true p.2)
    cases Grammar.advance c <;> rfl
  · rfl

theorem acceptAny (h : c.Unmarked final S n) {kinds : List Token.Kind} (hS : Unlike kinds S)
    {k : Option Token → Parse β}
    (hyes : ∀ t c₁, c₁.Unmarked final kinds (n - 1) → Halts (k (some t)) c₁ final T m)
    (hno : Halts (k none) c final T m) :
    Halts (Grammar.acceptAny kinds >>= k) c final T m := by
  change Halted final T m (Grammar.acceptAny kinds c >>= fun p => k p.1 p.2)
  by_cases hcheck : kinds.any c.check = true
  · rw [Reads.acceptAny_of_check hcheck]
    obtain ⟨kind, hkind, hview⟩ := List.any_eq_true.1 hcheck
    have hadvance := advance h (Cursor.Unmarked.peek_of_check hview) (hS.of_mem hkind)
    unfold Halts at hadvance
    generalize Grammar.advance c = r at hadvance
    cases hadvance with
    | tree hc =>
      refine hyes _ _ (hc.mono (Nat.le_refl _) fun k hk => .inl ?_)
      rwa [List.mem_singleton.1 hk]
    | rejected => exact .rejected
    | outOfRange hfinal => exact .outOfRange hfinal
  · rw [Reads.acceptAny_of_not_check hcheck]
    exact hno

/-- Taking line feeds.  If they were all that is left, the last of them would be taken again. -/
theorem skipNewlines (h : c.Unmarked final S n) : Halts Grammar.skipNewlines c final S n := by
  obtain ⟨last, rest, nextId⟩ := c
  have hdrop : ∀ {last rest}, Cursor.Unmarked ⟨last, rest, nextId⟩ final S n →
      Halted final S n ((Grammar.dropNewlines last rest).map fun p =>
        ((), (⟨p.1, p.2, nextId⟩ : Cursor))) := by
    intro last rest h
    induction rest generalizing last with
    | nil =>
      rw [Grammar.dropNewlines]
      split
      · next hfeed =>
        refine .outOfRange ?_
        rw [← h.peek_of_nil rfl]
        change last.kind ∈ repeatable
        rw [hfeed]
        decide
      · exact .tree h
    | cons t rest ih =>
      rw [Grammar.dropNewlines]
      split
      · next hfeed =>
        refine ih (h.behind.mono (Nat.sub_le n 1) fun k hk => .inr ?_)
        rw [List.mem_singleton.1 hk, hfeed]
        decide
      · exact .tree h
  unfold Halts
  rw [Reads.skipNewlines_eq]
  exact hdrop h

theorem statementEnd (h : c.Unmarked final S n) : Halts Grammar.statementEnd c final [] n := by
  have hS : Unlike [.semicolon, .newline] S := by
    have hrepeatable : ∀ k ∈ [Token.Kind.semicolon, .newline], k ∈ repeatable := by decide
    exact fun k hk _ => hrepeatable k hk
  refine acceptAny h hS (fun _ c₁ h₁ => .pure (h₁.mono (Nat.sub_le n 1) (by decide)) _) (.get ?_)
  rw [h.atEnd, Bool.false_or]
  split
  · next hcheck => exact .pure (h.inView hcheck (by decide)) _
  · exact .failExpecting _

end

end Halts

/-! ### Annotations -/

section

variable {final : Token.Kind} {c : Cursor} {n fuel : Nat}

theorem arrayRest_halts (ty : Ty) (hn : 32 * n ≤ fuel + 13) (hc : c.Unmarked final typeEnds n) :
    Halts (arrayRest fuel ty) c final typeEnds n := by
  have hpos := hc.pos
  induction fuel generalizing c n ty with
  | zero => omega
  | succ fuel ih =>
    simp only [arrayRest]
    refine .get ?_
    split
    · next hcheck =>
      rw [Bool.and_eq_true] at hcheck
      refine .advanceTwice hc hcheck.2 fun c₁ h₁ => ?_
      exact (ih _ (by omega) (h₁.mono (Nat.le_refl _) (by decide)) h₁.pos).mono (Nat.sub_le n 1)
        (by decide)
    · exact .pure hc _

/-- The productions for annotations halt with a bound of `fuel`. -/
structure AnnotationsHalt (final : Token.Kind) (fuel : Nat) : Prop where
  announced : ∀ {n c}, 32 * n ≤ fuel + 13 → c.Unmarked final [] n →
    Halts (annotated fuel) c final typeEnds n
  unionType : ∀ {n c}, 32 * n ≤ fuel + 10 → c.Unmarked final links n →
    Halts (unionType fuel) c final typeEnds (n - 1)
  unionRest : ∀ {n c}, 32 * n ≤ fuel + 13 → c.Unmarked final typeEnds n →
    Halts (unionRest fuel) c final typeEnds n
  intersectionType : ∀ {n c}, 32 * n ≤ fuel + 11 → c.Unmarked final links n →
    Halts (intersectionType fuel) c final typeEnds (n - 1)
  intersectionRest : ∀ {n c}, 32 * n ≤ fuel + 13 → c.Unmarked final typeEnds n →
    Halts (intersectionRest fuel) c final typeEnds n
  arrayType : ∀ {n c}, 32 * n ≤ fuel + 12 → c.Unmarked final links n →
    Halts (arrayType fuel) c final typeEnds (n - 1)
  primaryType : ∀ {n c}, 32 * n ≤ fuel + 13 → c.Unmarked final links n →
    Halts (primaryType fuel) c final typeEnds (n - 1)
  typeArguments : ∀ {n c}, 32 * n ≤ fuel + 9 → c.Unmarked final links n →
    Halts (typeArguments fuel) c final typeEnds n
  tupleElements : ∀ {n c}, 32 * n ≤ fuel + 9 → c.Unmarked final links n →
    Halts (tupleElements fuel) c final typeEnds n
  typeEntries : ∀ {n c S}, 32 * n ≤ fuel + 13 → c.Unmarked final S n →
    Halts (typeEntries fuel) c final [] n
  parameters : ∀ {n c}, 32 * n ≤ fuel + 12 → c.Unmarked final [] n →
    Halts (parameters fuel) c final [] (n - 1)
  parameterRow : ∀ {n c} count, 32 * n ≤ fuel + 13 → c.Unmarked final links n →
    Halts (parameterRow fuel count) c final typeEnds n

theorem primaryType_halts (h : AnnotationsHalt final fuel) (hn : 32 * n ≤ fuel + 14)
    (hc : c.Unmarked final links n) : Halts (primaryType (fuel + 1)) c final typeEnds (n - 1) := by
  have hpos := hc.pos
  have hle := Nat.le_refl
  simp only [primaryType]
  refine .acceptAny hc (by decide) (fun _ c₁ h₁ => .pure (h₁.mono (hle _) (by decide)) _) ?_
  refine .acceptAny hc (by decide) (fun _ c₁ h₁ => ?_) ?_
  · refine .accept h₁ (by decide) (fun c₂ h₂ => ?_) (.pure (h₁.mono (hle _) (by decide)) _)
    refine (h.typeArguments (by omega) (h₂.mono (hle _) (by decide))).bind fun _ c₃ h₃ => ?_
    exact (Halts.expect h₃ _ _ (by decide)).map (by omega) _ (by decide)
  refine .accept hc (by decide) (fun c₁ h₁ => ?_) ?_
  · refine (h.parameters (by omega) (h₁.mono (hle _) (by decide))).bind fun _ c₂ h₂ => ?_
    refine (Halts.expect h₂ _ _ (by decide)).bind fun _ c₃ h₃ => ?_
    exact (h.unionType (by omega) (h₃.mono (hle _) (by decide))).map (by omega) _ (by decide)
  refine .accept hc (by decide) (fun c₁ h₁ => ?_) ?_
  · refine (h.tupleElements (by omega) (h₁.mono (hle _) (by decide))).bind fun _ c₂ h₂ => ?_
    exact (Halts.expect h₂ _ _ (by decide)).map (by omega) _ (by decide)
  refine .accept hc (by decide) (fun c₁ h₁ => .pure (h₁.mono (hle _) (by decide)) _) ?_
  refine .accept hc (by decide) (fun c₁ h₁ => ?_) (.failExpecting _)
  refine (Halts.skipNewlines h₁).bind fun _ c₂ h₂ => ?_
  refine (h.typeEntries (by omega) h₂).bind fun _ c₃ h₃ => ?_
  exact (Halts.expect h₃ _ _ (by decide)).map (by omega) _ (by decide)

theorem annotationsHalt_succ (h : AnnotationsHalt final fuel) :
    AnnotationsHalt final (fuel + 1) where
  announced {n c} hn hc := by
    have hpos := hc.pos
    simp only [annotated]
    refine .accept hc (by decide) (fun c₁ h₁ => ?_) (.pure (hc.mono (Nat.le_refl _) (by decide)) _)
    exact (h.unionType (by omega) (h₁.mono (Nat.le_refl _) (by decide))).map (by omega) _
      (by decide)
  unionType {n c} hn hc := by
    have hpos := hc.pos
    simp only [Grammar.unionType]
    refine (h.intersectionType (by omega) hc).bind fun _ c₁ h₁ => ?_
    exact (h.unionRest (by omega) h₁).map (Nat.le_refl _) _ (by decide)
  unionRest {n c} hn hc := by
    have hpos := hc.pos
    simp only [Grammar.unionRest]
    refine .accept hc (by decide) (fun c₁ h₁ => ?_) (.pure hc _)
    refine (h.intersectionType (by omega) (h₁.mono (Nat.le_refl _) (by decide))).bind
      fun _ c₂ h₂ => ?_
    exact (h.unionRest (by omega) h₂).map (by omega) _ (by decide)
  intersectionType {n c} hn hc := by
    have hpos := hc.pos
    simp only [Grammar.intersectionType]
    refine (h.arrayType (by omega) hc).bind fun _ c₁ h₁ => ?_
    exact (h.intersectionRest (by omega) h₁).map (Nat.le_refl _) _ (by decide)
  intersectionRest {n c} hn hc := by
    have hpos := hc.pos
    simp only [Grammar.intersectionRest]
    refine .accept hc (by decide) (fun c₁ h₁ => ?_) (.pure hc _)
    refine (h.arrayType (by omega) (h₁.mono (Nat.le_refl _) (by decide))).bind fun _ c₂ h₂ => ?_
    exact (h.intersectionRest (by omega) h₂).map (by omega) _ (by decide)
  arrayType {n c} hn hc := by
    have hpos := hc.pos
    simp only [Grammar.arrayType]
    refine (h.primaryType (by omega) hc).bind fun _ c₁ h₁ => ?_
    exact arrayRest_halts _ (by omega) h₁
  primaryType := primaryType_halts h
  typeArguments {n c} hn hc := by
    have hpos := hc.pos
    simp only [Grammar.typeArguments]
    refine (h.unionType (by omega) hc).bind fun _ c₁ h₁ => ?_
    refine .accept h₁ (by decide) (fun c₂ h₂ => ?_) (.pure (h₁.mono (by omega) (by decide)) _)
    exact (h.typeArguments (by omega) (h₂.mono (Nat.le_refl _) (by decide))).map (by omega) _
      (by decide)
  tupleElements {n c} hn hc := by
    have hpos := hc.pos
    simp only [Grammar.tupleElements]
    refine .get ?_
    rw [hc.atEnd, Bool.or_false]
    split
    · next hcheck => exact .pure (hc.inView hcheck (by decide)) _
    · refine (h.unionType (by omega) hc).bind fun _ c₁ h₁ => ?_
      refine .accept h₁ (by decide) (fun c₂ h₂ => ?_) (.pure (h₁.mono (by omega) (by decide)) _)
      exact (h.tupleElements (by omega) (h₂.mono (Nat.le_refl _) (by decide))).map (by omega) _
        (by decide)
  typeEntries {n c S} hn hc := by
    have hpos := hc.pos
    simp only [Grammar.typeEntries]
    refine .get ?_
    rw [hc.atEnd, Bool.or_false]
    split
    · next hcheck => exact .pure (hc.inView hcheck (by decide)) _
    · refine (Halts.expect hc _ _ (.of_repeatable (by decide))).bind fun _ c₁ h₁ => ?_
      refine (Halts.expect h₁ _ _ (by decide)).bind fun _ c₂ h₂ => ?_
      refine (h.unionType (by omega) (h₂.mono (Nat.le_refl _) (by decide))).bind fun _ c₃ h₃ => ?_
      have hmore : ∀ {c₄ : Cursor} {S' : List Token.Kind}, c₄.Unmarked final S' (n - 1 - 1 - 1) →
          ∀ ty : Ty, ∀ name : Token, Halts (do
            skipNewlines
            return TyEntry.mk name.lexeme ty :: (← Grammar.typeEntries fuel)) c₄ final [] n := by
        intro c₄ S' h₄ ty name
        refine (Halts.skipNewlines h₄).bind fun _ c₅ h₅ => ?_
        exact (h.typeEntries (by omega) h₅).map (by omega) _ (by decide)
      exact .acceptAny h₃ (by decide)
        (fun _ c₄ h₄ => hmore (h₄.mono (by omega) fun k hk => .inl hk) _ _)
        (hmore h₃ _ _)
  parameters {n c} hn hc := by
    have hpos := hc.pos
    simp only [Grammar.parameters]
    refine (Halts.skipNewlines hc).bind fun _ c₁ h₁ => .get ?_
    split
    · refine (Halts.pure h₁ _).bind fun _ c₂ h₂ => ?_
      exact (Halts.expect h₂ _ _ (by decide)).map (Nat.le_refl _) _ (by decide)
    · refine (h.parameterRow 0 (by omega) (h₁.mono (Nat.le_refl _) (by decide))).bind
        fun _ c₂ h₂ => ?_
      exact (Halts.expect h₂ _ _ (by decide)).map (Nat.le_refl _) _ (by decide)
  parameterRow {n c} count hn hc := by
    have hpos := hc.pos
    simp only [Grammar.parameterRow]
    refine (Halts.skipNewlines hc).bind fun _ c₁ h₁ => ?_
    split
    · exact .peek (.failAt _ _)
    · refine (Halts.expect h₁ _ _ (by decide)).bind fun _ c₂ h₂ => ?_
      refine (h.announced (by omega) (h₂.mono (Nat.le_refl _) (by decide))).bind fun _ c₃ h₃ =>
        .get ?_
      refine (Halts.skipNewlines h₃).bind fun _ c₄ h₄ => ?_
      refine .accept h₄ (by decide) (fun c₅ h₅ => ?_) (.pure (h₄.mono (by omega) (by decide)) _)
      exact (h.parameterRow (count + 1) (by omega) (h₅.mono (Nat.le_refl _) (by decide))).map
        (by omega) _ (by decide)

theorem annotationsHalt (final : Token.Kind) (fuel : Nat) : AnnotationsHalt final fuel := by
  induction fuel with
  | zero =>
    constructor
    all_goals
      intros
      rename_i hc
      have hpos := hc.pos
      omega
  | succ fuel ih => exact annotationsHalt_succ ih

/-! ### Expressions and statements -/

/-- The productions for expressions and statements halt with a bound of `fuel`. -/
structure ProductionsHalt (final : Token.Kind) (fuel : Nat) : Prop where
  expression : ∀ {n c}, 32 * n ≤ fuel + 4 → c.Unmarked final links n →
    Halts (expression fuel) c final expressionEnds (n - 1)
  binary : ∀ {n c} levels, (∀ l ∈ levels, l ∈ binaryLevels) → levels.length ≤ 6 →
    32 * n + levels.length ≤ fuel + 11 → c.Unmarked final links n →
    Halts (binary fuel levels) c final operandEnds (n - 1)
  binaryRest : ∀ {n c} operators tighter left, (∀ l ∈ operators :: tighter, l ∈ binaryLevels) →
    tighter.length ≤ 5 → 32 * n ≤ fuel + 13 → c.Unmarked final operandEnds n →
    Halts (binaryRest fuel operators tighter left) c final operandEnds n
  unary : ∀ {n c}, 32 * n ≤ fuel + 12 → c.Unmarked final links n →
    Halts (unary fuel) c final operandEnds (n - 1)
  postfixRest : ∀ {n c} head, 32 * n ≤ fuel + 13 → c.Unmarked final operandEnds n →
    Halts (postfixRest fuel head) c final operandEnds n
  argumentRow : ∀ {n c} count, 32 * n ≤ fuel + 3 → c.Unmarked final links n →
    Halts (argumentRow fuel count) c final expressionEnds n
  primary : ∀ {n c}, 32 * n ≤ fuel + 13 → c.Unmarked final links n →
    Halts (primary fuel) c final operandEnds (n - 1)
  elementRow : ∀ {n c}, 32 * n ≤ fuel + 3 → c.Unmarked final links n →
    Halts (elementRow fuel) c final expressionEnds n
  entryRow : ∀ {n c} entries, 32 * n ≤ fuel + 13 → c.Unmarked final links n →
    Halts (entryRow fuel entries) c final expressionEnds n
  functionRest : ∀ {n c} name, 32 * n ≤ fuel + 11 → c.Unmarked final [] n →
    Halts (functionRest fuel name) c final [] n
  block : ∀ {n c S}, 32 * n ≤ fuel + 13 → c.Unmarked final S n →
    Halts (block fuel) c final [] (n - 1)
  blockRow : ∀ {n c}, 32 * n ≤ fuel + 1 → c.Unmarked final [] n →
    Halts (blockRow fuel) c final [] n
  statement : ∀ {n c}, 32 * n ≤ fuel + 2 → c.Unmarked final [] n →
    Halts (statement fuel) c final [] (n - 1)
  expressionStatement : ∀ {n c}, 32 * n ≤ fuel + 3 → c.Unmarked final links n →
    Halts (expressionStatement fuel) c final [] (n - 1)
  classDeclaration : ∀ {n c S}, 32 * n ≤ fuel + 13 → c.Unmarked final S n →
    Halts (classDeclaration fuel) c final [] n
  memberRow : ∀ {n c}, 32 * n ≤ fuel + 13 → c.Unmarked final [] n →
    Halts (memberRow fuel) c final [] n
  ifStatement : ∀ {n c S} keyword, 32 * n ≤ fuel + 13 → c.Unmarked final S n →
    Halts (ifStatement fuel keyword) c final [] n
  whileStatement : ∀ {n c S} keyword, 32 * n ≤ fuel + 13 → c.Unmarked final S n →
    Halts (whileStatement fuel keyword) c final [] n
  forStatement : ∀ {n c S} keyword, 32 * n ≤ fuel + 13 → c.Unmarked final S n →
    Halts (forStatement fuel keyword) c final [] n
  forInit : ∀ {n c}, 32 * n ≤ fuel + 2 → c.Unmarked final [] n →
    Halts (forInit fuel) c final [] n
  variableDeclaration : ∀ {n c S} keyword, 32 * n ≤ fuel + 13 → c.Unmarked final S n →
    Halts (variableDeclaration fuel keyword) c final [] n
  returnStatement : ∀ {n c} keyword, 32 * n ≤ fuel + 3 → c.Unmarked final links n →
    Halts (returnStatement fuel keyword) c final [] n
  indexAssignment : ∀ {n c}, c.check .name = true → 32 * n ≤ fuel + 13 → c.Unmarked final [] n →
    Halts (indexAssignment fuel) c final [] (n - 1)

section

variable {S : List Token.Kind}

theorem assignment_halts (target : Expr) (equals : Token) (value : Expr) (hc : c.Unmarked final S n) :
    Halts (assignment target equals value) c final S n := by
  unfold assignment
  split
  · exact (Halts.freshId hc).map (Nat.le_refl n) _ fun k hk => .inl hk
  · exact .pure hc _
  · exact .failAt _ _

theorem compoundAssignment_halts (target : Expr) (operator : Token) (value : Expr)
    (hc : c.Unmarked final S n) : Halts (compoundAssignment target operator value) c final S n := by
  unfold compoundAssignment
  split
  · exact (Halts.freshId hc).map (Nat.le_refl n) _ fun k hk => .inl hk
  · exact .pure hc _
  · exact .failAt _ _

theorem numberLiteral_halts (token : Token) (hc : c.Unmarked final S n) :
    Halts (numberLiteral token) c final S n := by
  unfold numberLiteral
  split
  · exact .pure hc _
  · exact .failAt _ _

theorem emptyObjectStatement_halts (hc : c.Unmarked final S n) :
    Halts emptyObjectStatement c final [] n :=
  (Halts.statementEnd hc).map (Nat.le_refl n) _ (by decide)

end

theorem expression_halts (h : ProductionsHalt final fuel) (hn : 32 * n ≤ fuel + 5)
    (hc : c.Unmarked final links n) :
    Halts (expression (fuel + 1)) c final expressionEnds (n - 1) := by
  have hpos := hc.pos
  have hle := Nat.le_refl
  simp only [expression]
  have hlevels : binaryLevels.length = 6 := rfl
  refine (h.binary binaryLevels (fun l hl => hl) (by omega) (by omega) hc).bind
    fun target c₁ h₁ => ?_
  refine .acceptAny h₁ (by decide) (fun _ c₂ h₂ => ?_) ?_
  · refine (h.expression (by omega) (h₂.mono (hle _) (by decide))).bind fun _ c₃ h₃ => ?_
    exact assignment_halts _ _ _ (h₃.mono (by omega) (by decide))
  refine .acceptAny h₁ (by decide) (fun _ c₂ h₂ => ?_) ?_
  · refine (h.expression (by omega) (h₂.mono (hle _) (by decide))).bind fun _ c₃ h₃ => ?_
    exact compoundAssignment_halts _ _ _ (h₃.mono (by omega) (by decide))
  refine .acceptAny h₁ (by decide) (fun _ c₂ h₂ => ?_) (.pure (h₁.mono (hle _) (by decide)) _)
  exact compoundAssignment_halts _ _ _ (h₂.mono (by omega) (by decide))

theorem binary_halts (h : ProductionsHalt final fuel) (levels : List (List Token.Kind))
    (hlevels : ∀ l ∈ levels, l ∈ binaryLevels) (hlength : levels.length ≤ 6)
    (hn : 32 * n + levels.length ≤ fuel + 12) (hc : c.Unmarked final links n) :
    Halts (binary (fuel + 1) levels) c final operandEnds (n - 1) := by
  have hpos := hc.pos
  cases levels with
  | nil =>
    simp only [binary]
    exact h.unary (by simp at hn; omega) hc
  | cons operators tighter =>
    simp only [binary]
    simp only [List.length_cons] at hn hlength
    refine (h.binary tighter (fun l hl => hlevels l (List.mem_cons_of_mem _ hl)) (by omega)
      (by omega) hc).bind fun left c₁ h₁ => ?_
    exact h.binaryRest operators tighter left hlevels (by omega) (by omega) h₁

/-- An operator comes behind an operand and in front of one. -/
theorem binaryLevels_between : ∀ l ∈ binaryLevels, Unlike l operandEnds ∧ Included l links := by
  decide

theorem binaryRest_halts (h : ProductionsHalt final fuel) (operators : List Token.Kind)
    (tighter : List (List Token.Kind)) (left : Expr)
    (hlevels : ∀ l ∈ operators :: tighter, l ∈ binaryLevels) (hlength : tighter.length ≤ 5)
    (hn : 32 * n ≤ fuel + 14) (hc : c.Unmarked final operandEnds n) :
    Halts (binaryRest (fuel + 1) operators tighter left) c final operandEnds n := by
  have hpos := hc.pos
  obtain ⟨hbehind, hbefore⟩ := binaryLevels_between _ (hlevels _ List.mem_cons_self)
  simp only [binaryRest]
  refine .acceptAny hc hbehind (fun operator c₁ h₁ => ?_) (.pure hc _)
  refine (h.binary tighter (fun l hl => hlevels l (List.mem_cons_of_mem _ hl)) (by omega) (by omega)
    (h₁.mono (Nat.le_refl _) hbefore)).bind fun right c₂ h₂ => ?_
  exact (h.binaryRest _ _ _ hlevels hlength (by omega) h₂).mono (by omega) (by decide)

theorem postfixRest_halts (h : ProductionsHalt final fuel) (head : Expr)
    (hn : 32 * n ≤ fuel + 14) (hc : c.Unmarked final operandEnds n) :
    Halts (postfixRest (fuel + 1) head) c final operandEnds n := by
  have hpos := hc.pos
  simp only [postfixRest]
  refine .accept hc (by decide) (fun c₁ h₁ => ?_)
    (.accept hc (by decide) (fun c₁ h₁ => ?_) (.pure hc _))
  · refine (Halts.skipNewlines h₁).bind fun _ c₂ h₂ => .get ?_
    have hclose : ∀ {c₃ : Cursor} (args : List Expr), c₃.Unmarked final expressionEnds (n - 1) →
        Halts (do
          let paren ← expect .rightParen .argumentsClose
          Grammar.postfixRest fuel (.call head paren args)) c₃ final operandEnds n := by
      intro c₃ args h₃
      refine (Halts.expect h₃ _ _ (by decide)).bind fun paren c₄ h₄ => ?_
      exact (h.postfixRest _ (by omega) (h₄.mono (Nat.le_refl _) (by decide))).mono (by omega)
        (by decide)
    split
    · exact (Halts.pure (h₂.mono (Nat.le_refl _) (by decide)) _).bind
        fun args c₃ h₃ => hclose args h₃
    · exact (h.argumentRow 0 (by omega) (h₂.mono (Nat.le_refl _) (by decide))).bind
        fun args c₃ h₃ => hclose args h₃
  · refine (Halts.expect h₁ _ _ (by decide)).bind fun name c₂ h₂ => ?_
    exact (h.postfixRest _ (by omega) (h₂.mono (Nat.le_refl _) (by decide))).mono (by omega)
      (by decide)

theorem primary_halts (h : ProductionsHalt final fuel) (hn : 32 * n ≤ fuel + 14)
    (hc : c.Unmarked final links n) : Halts (primary (fuel + 1)) c final operandEnds (n - 1) := by
  have hpos := hc.pos
  have hle := Nat.le_refl
  simp only [primary]
  refine .get ?_
  split
  case h_1 hkind | h_2 hkind =>
    refine (Halts.advance hc hkind (by decide)).bind fun _ c₁ h₁ => ?_
    exact numberLiteral_halts _ (h₁.mono (hle _) (by decide))
  case h_3 hkind | h_4 hkind | h_5 hkind | h_6 hkind | h_7 hkind | h_8 hkind =>
    exact (Halts.advance hc hkind (by decide)).map (hle _) _ (by decide)
  case h_9 hkind =>
    refine (Halts.advance hc hkind (by decide)).bind fun token c₁ h₁ => ?_
    refine (Halts.expect h₁ _ _ (by decide)).bind fun _ c₂ h₂ => ?_
    exact (h.functionRest token (by omega) (h₂.mono (hle _) (by decide))).map (by omega) _
      (by decide)
  case h_10 hkind =>
    refine (Halts.advance hc hkind (by decide)).bind fun keyword c₁ h₁ => ?_
    exact (Halts.freshId h₁).map (hle _) _ (by decide)
  case h_11 hkind | h_12 hkind =>
    refine (Halts.advance hc hkind (by decide)).bind fun name c₁ h₁ => ?_
    refine (Halts.freshId h₁).bind fun id c₂ h₂ => ?_
    refine .accept h₂ (by decide) (fun c₃ h₃ => ?_) (.pure (h₂.mono (hle _) (by decide)) _)
    refine (h.expression (by omega) (h₃.mono (hle _) (by decide))).bind fun _ c₄ h₄ => ?_
    exact (Halts.expect h₄ _ _ (by decide)).map (by omega) _ (by decide)
  case h_13 hkind =>
    refine (Halts.advance hc hkind (by decide)).bind fun _ c₁ h₁ => ?_
    refine (Halts.skipNewlines h₁).bind fun _ c₂ h₂ => ?_
    refine (h.expression (by omega) (h₂.mono (hle _) (by decide))).bind fun _ c₃ h₃ => ?_
    refine (Halts.skipNewlines h₃).bind fun _ c₄ h₄ => ?_
    exact (Halts.expect h₄ _ _ (by decide)).map (by omega) _ (by decide)
  case h_14 hkind =>
    refine (Halts.advance hc hkind (by decide)).bind fun _ c₁ h₁ => ?_
    refine (Halts.skipNewlines h₁).bind fun _ c₂ h₂ => ?_
    refine (h.elementRow (by omega) (h₂.mono (hle _) (by decide))).bind fun _ c₃ h₃ => ?_
    exact (Halts.expect h₃ _ _ (by decide)).map (by omega) _ (by decide)
  case h_15 hkind =>
    split
    · refine (Halts.advance hc hkind (by decide)).bind fun _ c₁ h₁ => ?_
      refine (Halts.skipNewlines h₁).bind fun _ c₂ h₂ => ?_
      refine (h.entryRow [] (by omega) (h₂.mono (hle _) (by decide))).bind fun _ c₃ h₃ => ?_
      exact (Halts.expect h₃ _ _ (by decide)).map (by omega) _ (by decide)
    · exact .failExpecting _
  case h_16 => exact .failExpecting _

theorem statement_halts (h : ProductionsHalt final fuel) (hn : 32 * n ≤ fuel + 3)
    (hc : c.Unmarked final [] n) : Halts (statement (fuel + 1)) c final [] (n - 1) := by
  have hpos := hc.pos
  have hle := Nat.le_refl
  simp only [statement]
  refine (Halts.skipNewlines hc).bind fun _ c₁ h₁ => .get ?_
  have hlinks : c₁.Unmarked final links n := h₁.mono (hle n) (by decide)
  split
  case h_1 hkind =>
    exact (Halts.advance h₁ hkind (by decide)).bind fun _ c₂ h₂ => h.classDeclaration (by omega) h₂
  case h_2 hkind =>
    exact (Halts.advance h₁ hkind (by decide)).bind fun keyword c₂ h₂ =>
      h.forStatement keyword (by omega) h₂
  case h_3 hkind =>
    exact (Halts.advance h₁ hkind (by decide)).bind fun keyword c₂ h₂ =>
      h.whileStatement keyword (by omega) h₂
  case h_4 hkind =>
    exact (Halts.advance h₁ hkind (by decide)).bind fun keyword c₂ h₂ =>
      h.ifStatement keyword (by omega) h₂
  case h_5 hkind | h_6 hkind | h_7 hkind =>
    exact (Halts.advance h₁ hkind (by decide)).bind fun keyword c₂ h₂ =>
      h.variableDeclaration keyword (by omega) h₂
  case h_8 hkind =>
    split
    · refine (Halts.advance h₁ hkind (by decide)).bind fun _ c₂ h₂ => ?_
      refine (Halts.expect h₂ _ _ (by decide)).bind fun name c₃ h₃ => ?_
      refine (Halts.expect h₃ _ _ (by decide)).bind fun _ c₄ h₄ => ?_
      exact (h.functionRest name (by omega) (h₄.mono (hle _) (by decide))).map (by omega) _
        (by decide)
    · exact h.expressionStatement (by omega) hlinks
  case h_9 hkind =>
    exact (Halts.advance h₁ hkind (by decide)).bind fun keyword c₂ h₂ =>
      h.returnStatement keyword (by omega) (h₂.mono (hle _) (by decide))
  case h_10 =>
    split
    · next hnext => exact .advanceTwice h₁ hnext fun c₂ h₂ => emptyObjectStatement_halts h₂
    · split
      · exact h.expressionStatement (by omega) hlinks
      · exact (h.block (by omega) h₁).map (hle _) _ (by decide)
  case h_11 hkind =>
    exact (Halts.advance h₁ hkind (by decide)).bind fun _ c₂ h₂ => emptyObjectStatement_halts h₂
  case h_12 hkind =>
    have hend := h₁.atEnd
    simp [Cursor.atEnd, hkind] at hend
  case h_13 =>
    split
    · next hindex =>
      simp only [Cursor.atIndexAssignment, Bool.and_eq_true] at hindex
      exact h.indexAssignment hindex.1.1 (by omega) h₁
    · exact h.expressionStatement (by omega) hlinks

theorem ifStatement_halts {S : List Token.Kind} (h : ProductionsHalt final fuel) (keyword : Token)
    (hn : 32 * n ≤ fuel + 14) (hc : c.Unmarked final S n) :
    Halts (ifStatement (fuel + 1) keyword) c final [] n := by
  have hpos := hc.pos
  simp only [ifStatement]
  refine (Halts.expect hc _ _ (.of_repeatable (by decide))).bind fun _ c₁ h₁ => ?_
  refine (h.expression (by omega) (h₁.mono (Nat.le_refl _) (by decide))).bind fun _ c₂ h₂ => ?_
  refine (Halts.expect h₂ _ _ (by decide)).bind fun _ c₃ h₃ => ?_
  refine (h.block (by omega) h₃).bind fun _ c₄ h₄ => .get ?_
  refine (Halts.skipNewlines h₄).bind fun _ c₅ h₅ => ?_
  refine .accept h₅ (by decide) (fun c₆ h₆ => ?_) ?_
  · refine .acceptAny h₆ (by decide) (fun inner c₇ h₇ => ?_) ?_
    · exact (h.ifStatement inner (by omega) h₇).map (by omega) _ (by decide)
    · exact (h.block (by omega) h₆).map (by omega) _ (by decide)
  -- without `else` the cursor goes back before the line feeds
  · exact Halted.tree (h₄.mono (by omega) (by decide))

theorem variableDeclaration_halts {S : List Token.Kind} (h : ProductionsHalt final fuel)
    (keyword : Token) (hn : 32 * n ≤ fuel + 14) (hc : c.Unmarked final S n) :
    Halts (variableDeclaration (fuel + 1) keyword) c final [] n := by
  have hpos := hc.pos
  simp only [variableDeclaration]
  refine (Halts.expect hc _ _ (.of_repeatable (by decide))).bind fun _ c₁ h₁ => ?_
  refine ((annotationsHalt final fuel).announced (by omega)
    (h₁.mono (Nat.le_refl _) (by decide))).bind
    fun _ c₂ h₂ => .peek ?_
  split
  · exact (Halts.statementEnd h₂).map (by omega) _ (by decide)
  · refine (Halts.expect h₂ _ _ (by decide)).bind fun _ c₃ h₃ => .get ?_
    split
    · exact .failExpecting _
    · refine (h.expression (by omega) (h₃.mono (Nat.le_refl _) (by decide))).bind fun _ c₄ h₄ => ?_
      exact (Halts.statementEnd h₄).map (by omega) _ (by decide)

theorem forStatement_halts {S : List Token.Kind} (h : ProductionsHalt final fuel) (keyword : Token)
    (hn : 32 * n ≤ fuel + 14) (hc : c.Unmarked final S n) :
    Halts (forStatement (fuel + 1) keyword) c final [] n := by
  have hpos := hc.pos
  have hle := Nat.le_refl
  simp only [forStatement]
  refine (Halts.expect hc _ _ (.of_repeatable (by decide))).bind fun _ c₁ h₁ => ?_
  refine (h.forInit (by omega) (h₁.mono (hle _) (by decide))).bind fun init c₂ h₂ => .get ?_
  have hbody : ∀ {c₃ : Cursor} (condition : Expr) (increment : Option Expr),
      c₃.Unmarked final expressionEnds (n - 1) → Halts (do
        let _ ← expect .rightParen .forClose
        let body ← Grammar.statement fuel
        return forLoop keyword init condition increment body) c₃ final [] n := by
    intro c₃ condition increment h₃
    refine (Halts.expect h₃ _ _ (by decide)).bind fun _ c₄ h₄ => ?_
    exact (h.statement (by omega) (h₄.mono (hle _) (by decide))).map (by omega) _ (by decide)
  have hincrement : ∀ {c₃ : Cursor} (condition : Expr), c₃.Unmarked final expressionEnds (n - 1) →
      Halts (do
        let _ ← expect .semicolon .loopSemicolon
        let increment ←
          if (← get).check .rightParen then pure none
          else some <$> Grammar.expression fuel
        let _ ← expect .rightParen .forClose
        let body ← Grammar.statement fuel
        return forLoop keyword init condition increment body) c₃ final [] n := by
    intro c₃ condition h₃
    refine (Halts.expect h₃ _ _ (by decide)).bind fun _ c₄ h₄ => .get ?_
    split
    · exact (Halts.pure h₄ _).bind fun _ c₅ h₅ => hbody condition _ (h₅.mono (by omega) (by decide))
    · have hsome : Halts (do let e ← Grammar.expression fuel; return some e) c₄ final expressionEnds
          (n - 1) := (h.expression (by omega) (h₄.mono (hle _) (by decide))).map (by omega) _
            (by decide)
      rw [bind_pure_comp] at hsome
      exact hsome.bind fun _ c₅ h₅ => hbody condition _ h₅
  split
  · exact (Halts.pure h₂ _).bind fun _ c₃ h₃ => hincrement _ (h₃.mono (hle _) (by decide))
  · exact (h.expression (by omega) (h₂.mono (hle _) (by decide))).bind fun _ c₃ h₃ =>
      hincrement _ (h₃.mono (by omega) (by decide))

theorem memberRow_halts (h : ProductionsHalt final fuel) (hn : 32 * n ≤ fuel + 14)
    (hc : c.Unmarked final [] n) : Halts (memberRow (fuel + 1)) c final [] n := by
  have hpos := hc.pos
  have hle := Nat.le_refl
  simp only [memberRow]
  refine .get ?_
  split
  · exact .pure hc _
  · refine (Halts.expect hc _ _ (by decide)).bind fun name c₁ h₁ => ?_
    refine .accept h₁ (by decide) (fun c₂ h₂ => ?_) ?_
    · refine (h.functionRest name (by omega) (h₂.mono (hle _) (by decide))).bind fun _ c₃ h₃ => ?_
      refine (Halts.skipNewlines h₃).bind fun _ c₄ h₄ => ?_
      exact (h.memberRow (by omega) h₄).map (by omega) _ (by decide)
    · refine ((annotationsHalt final fuel).announced (by omega) (h₁.mono (hle _) (by decide))).bind
        fun _ c₂ h₂ => ?_
      refine (Halts.expect h₂ _ _ (by decide)).bind fun _ c₃ h₃ => ?_
      refine (h.expression (by omega) (h₃.mono (hle _) (by decide))).bind fun _ c₄ h₄ => ?_
      refine (Halts.statementEnd h₄).bind fun _ c₅ h₅ => ?_
      refine (Halts.skipNewlines h₅).bind fun _ c₆ h₆ => ?_
      exact (h.memberRow (by omega) h₆).map (by omega) _ (by decide)

theorem productionsHalt_succ (h : ProductionsHalt final fuel) :
    ProductionsHalt final (fuel + 1) where
  expression := expression_halts h
  binary := binary_halts h
  binaryRest := binaryRest_halts h
  unary {n c} hn hc := by
    have hpos := hc.pos
    simp only [Grammar.unary]
    refine .acceptAny hc (by decide) (fun operator c₁ h₁ => ?_) ?_
    · exact (h.unary (by omega) (h₁.mono (Nat.le_refl _) (by decide))).map (by omega) _ (by decide)
    · exact (h.primary (by omega) hc).bind fun head c₁ h₁ => h.postfixRest head (by omega) h₁
  postfixRest := postfixRest_halts h
  argumentRow {n c} count hn hc := by
    have hpos := hc.pos
    simp only [Grammar.argumentRow]
    refine (Halts.skipNewlines hc).bind fun _ c₁ h₁ => ?_
    split
    · exact .peek (.failAt _ _)
    · refine (h.expression (by omega) h₁).bind fun first c₂ h₂ => ?_
      refine (Halts.skipNewlines h₂).bind fun _ c₃ h₃ => ?_
      refine .accept h₃ (by decide) (fun c₄ h₄ => ?_) (.pure (h₃.mono (by omega) (by decide)) _)
      exact (h.argumentRow (count + 1) (by omega) (h₄.mono (Nat.le_refl _) (by decide))).map
        (by omega) _ (by decide)
  primary := primary_halts h
  elementRow {n c} hn hc := by
    have hpos := hc.pos
    simp only [Grammar.elementRow]
    refine .get ?_
    rw [hc.atEnd, Bool.or_false]
    split
    · next hcheck => exact .pure (hc.inView hcheck (by decide)) _
    · refine (h.expression (by omega) hc).bind fun first c₁ h₁ => ?_
      refine (Halts.skipNewlines h₁).bind fun _ c₂ h₂ => ?_
      refine .accept h₂ (by decide) (fun c₃ h₃ => ?_) (.pure (h₂.mono (by omega) (by decide)) _)
      refine (Halts.skipNewlines h₃).bind fun _ c₄ h₄ => ?_
      exact (h.elementRow (by omega) (h₄.mono (Nat.le_refl _) (by decide))).map (by omega) _
        (by decide)
  entryRow {n c} entries hn hc := by
    have hpos := hc.pos
    simp only [Grammar.entryRow]
    refine .get ?_
    rw [hc.atEnd, Bool.or_false]
    split
    · next hcheck => exact .pure (hc.inView hcheck (by decide)) _
    · refine (Halts.expect hc _ _ (by decide)).bind fun key c₁ h₁ => ?_
      refine (Halts.expect h₁ _ _ (by decide)).bind fun _ c₂ h₂ => ?_
      refine (Halts.skipNewlines h₂).bind fun _ c₃ h₃ => ?_
      refine (h.expression (by omega) (h₃.mono (Nat.le_refl _) (by decide))).bind fun value c₄
        h₄ => ?_
      refine (Halts.skipNewlines h₄).bind fun _ c₅ h₅ => ?_
      refine .accept h₅ (by decide) (fun c₆ h₆ => ?_) (.pure (h₅.mono (by omega) (by decide)) _)
      refine (Halts.skipNewlines h₆).bind fun _ c₇ h₇ => ?_
      exact (h.entryRow _ (by omega) (h₇.mono (Nat.le_refl _) (by decide))).mono (by omega)
        (by decide)
  functionRest {n c} name hn hc := by
    have hpos := hc.pos
    simp only [Grammar.functionRest]
    refine ((annotationsHalt final fuel).parameters (by omega) hc).bind fun _ c₁ h₁ => ?_
    refine ((annotationsHalt final fuel).announced (by omega) h₁).bind fun _ c₂ h₂ => ?_
    exact (h.block (by omega) h₂).map (by omega) _ (by decide)
  block {n c S} hn hc := by
    have hpos := hc.pos
    simp only [Grammar.block]
    refine (Halts.skipNewlines hc).bind fun _ c₁ h₁ => ?_
    refine .accept h₁ (.of_repeatable (by decide))
      (fun c₂ h₂ => .pure (h₂.mono (Nat.le_refl _) (by decide)) _) ?_
    refine (Halts.expect h₁ _ _ (.of_repeatable (by decide))).bind fun _ c₂ h₂ => ?_
    refine (Halts.skipNewlines h₂).bind fun _ c₃ h₃ => ?_
    refine (h.blockRow (by omega) (h₃.mono (Nat.le_refl _) (by decide))).bind fun _ c₄ h₄ => ?_
    exact (Halts.expect h₄ _ _ (by decide)).map (by omega) _ (by decide)
  blockRow {n c} hn hc := by
    have hpos := hc.pos
    simp only [Grammar.blockRow]
    refine .get ?_
    split
    · exact .pure hc _
    · refine (h.statement (by omega) hc).bind fun first c₁ h₁ => ?_
      refine (Halts.skipNewlines h₁).bind fun _ c₂ h₂ => ?_
      exact (h.blockRow (by omega) h₂).map (by omega) _ (by decide)
  statement := statement_halts h
  expressionStatement {n c} hn hc := by
    have hpos := hc.pos
    simp only [Grammar.expressionStatement]
    refine .peek ((h.expression (by omega) hc).bind fun e c₁ h₁ => ?_)
    exact (Halts.statementEnd h₁).map (Nat.le_refl _) _ (by decide)
  classDeclaration {n c S} hn hc := by
    have hpos := hc.pos
    simp only [Grammar.classDeclaration]
    refine (Halts.expect hc _ _ (.of_repeatable (by decide))).bind fun name c₁ h₁ => ?_
    refine (Halts.skipNewlines h₁).bind fun _ c₂ h₂ => ?_
    refine .accept h₂ (by decide) (fun c₃ h₃ => .pure (h₃.mono (by omega) (by decide)) _) ?_
    refine (Halts.expect h₂ _ _ (by decide)).bind fun _ c₃ h₃ => ?_
    refine (Halts.skipNewlines h₃).bind fun _ c₄ h₄ => ?_
    refine (h.memberRow (by omega) (h₄.mono (Nat.le_refl _) (by decide))).bind fun members c₅
      h₅ => ?_
    exact (Halts.expect h₅ _ _ (by decide)).map (by omega) _ (by decide)
  memberRow := memberRow_halts h
  ifStatement := ifStatement_halts h
  whileStatement {n c S} keyword hn hc := by
    have hpos := hc.pos
    simp only [Grammar.whileStatement]
    refine (Halts.expect hc _ _ (.of_repeatable (by decide))).bind fun _ c₁ h₁ => ?_
    refine (h.expression (by omega) (h₁.mono (Nat.le_refl _) (by decide))).bind fun _ c₂ h₂ => ?_
    refine (Halts.expect h₂ _ _ (by decide)).bind fun _ c₃ h₃ => ?_
    exact (h.statement (by omega) (h₃.mono (Nat.le_refl _) (by decide))).map (by omega) _
      (by decide)
  forStatement := forStatement_halts h
  forInit {n c} hn hc := by
    have hpos := hc.pos
    simp only [Grammar.forInit]
    refine .accept hc (by decide) (fun c₁ h₁ => .pure (h₁.mono (by omega) (by decide)) _) ?_
    refine .acceptAny hc (by decide) (fun keyword c₁ h₁ => ?_) ?_
    · exact (h.variableDeclaration keyword (by omega) h₁).map (by omega) _ (by decide)
    · exact (h.expressionStatement (by omega) (hc.mono (Nat.le_refl _) (by decide))).map
        (by omega) _ (by decide)
  variableDeclaration := variableDeclaration_halts h
  returnStatement {n c} keyword hn hc := by
    have hpos := hc.pos
    simp only [Grammar.returnStatement]
    refine .peek ?_
    split
    · refine (Halts.pure hc _).bind fun _ c₁ h₁ => ?_
      exact (Halts.statementEnd h₁).map (Nat.le_refl _) _ (by decide)
    · refine (h.expression (by omega) hc).bind fun _ c₁ h₁ => ?_
      exact (Halts.statementEnd h₁).map (by omega) _ (by decide)
  indexAssignment {n c} hname hn hc := by
    have hpos := hc.pos
    simp only [Grammar.indexAssignment]
    refine (Halts.advance hc (Cursor.Unmarked.peek_of_check hname) (by decide)).bind
      fun name c₁ h₁ => ?_
    refine (Halts.freshId h₁).bind fun id c₂ h₂ => ?_
    refine (Halts.expect h₂ _ _ (by decide)).bind fun _ c₃ h₃ => ?_
    refine (h.expression (by omega) (h₃.mono (Nat.le_refl _) (by decide))).bind fun _ c₄ h₄ => ?_
    refine (Halts.expect h₄ _ _ (by decide)).bind fun _ c₅ h₅ => ?_
    refine (Halts.expect h₅ _ _ (by decide)).bind fun _ c₆ h₆ => ?_
    refine (h.expression (by omega) (h₆.mono (Nat.le_refl _) (by decide))).bind fun _ c₇ h₇ => ?_
    exact (Halts.statementEnd h₇).map (by omega) _ (by decide)

theorem productionsHalt (final : Token.Kind) (fuel : Nat) : ProductionsHalt final fuel := by
  induction fuel with
  | zero =>
    constructor
    all_goals
      intros
      rename_i hc
      have hpos := hc.pos
      omega
  | succ fuel ih => exact productionsHalt_succ ih

/-! ### Programs -/

/-- The statements of a row without an end mark do not end. -/
theorem programRow_halts (hn : 32 * n ≤ fuel + 2) (hc : c.Unmarked final [] n) :
    (∃ e, programRow fuel c = .error (.rejected e)) ∨
      programRow fuel c = .error .outOfRange ∧ final ∈ repeatable := by
  induction n generalizing c with
  | zero => exact absurd hc.pos (Nat.lt_irrefl 0)
  | succ n ih =>
    have hstart : c.Unmarked final [] (c.rest.length + 1) :=
      ⟨hc.unmarked, hc.final_eq, Nat.lt_succ_self _, hc.used⟩
    have hlength := hc.length_lt
    have hfirst : Halts (topStatement fuel) c final [] c.rest.length :=
      ((productionsHalt final fuel).statement (by omega) hstart).bind fun first c₁ h₁ =>
        (Halts.skipNewlines h₁).map (Nat.le_refl _) _ (by decide)
    unfold Halts at hfirst
    rw [programRow, hc.atEnd, if_neg Bool.false_ne_true]
    generalize topStatement fuel c = r at hfirst
    cases hfirst with
    | rejected => exact .inl ⟨_, rfl⟩
    | outOfRange hfinal => exact .inr ⟨rfl, hfinal⟩
    | @tree first c₁ h₁ =>
      change (∃ e, (if _ : c₁.rest.length < c.rest.length then _ else _) = _) ∨
        (if _ : c₁.rest.length < c.rest.length then _ else _) = _ ∧ _
      rw [dif_pos h₁.length_lt]
      rcases ih (by omega) (h₁.mono (by omega) (by decide)) with ⟨e, he⟩ | ⟨hleft, hfinal⟩
      · exact .inl ⟨e, by rw [he]; rfl⟩
      · exact .inr ⟨by rw [hleft]; rfl, hfinal⟩

end

end Grammar

/-- A row of tokens without an end mark, however long, is no program.  It is rejected, unless its last
token would have to be taken twice, and then that is of a repeatable kind. -/
theorem parseFrom_unmarked (firstId : NodeId) {tokens : List Token} (hne : tokens ≠ [])
    (h : ∀ t ∈ tokens, t.kind ≠ .endMark) :
    (∃ e, parseFrom firstId tokens = .error (.rejected e)) ∨
      parseFrom firstId tokens = .error .outOfRange ∧
        (tokens.getLast hne).kind ∈ Grammar.repeatable := by
  cases tokens with
  | nil => exact absurd rfl hne
  | cons first rest =>
    have hc : Grammar.Cursor.Unmarked ⟨first, first :: rest, firstId⟩
        ((first :: rest).getLast hne).kind [] (rest.length + 2) := by
      refine ⟨List.forall_mem_cons.2 ⟨h first List.mem_cons_self, h⟩, ?_, Nat.lt_succ_self _,
        fun hrest => by cases hrest⟩
      rw [List.getLast?_eq_getLast_of_ne_nil hne]
      rfl
    have hskip := Grammar.Halts.skipNewlines hc
    unfold Grammar.Halts at hskip
    simp only [parseFrom, StateT.run]
    change (∃ e, (Grammar.skipNewlines _ >>= fun p => Grammar.programRow _ p.2) >>= _ = _) ∨
      (Grammar.skipNewlines _ >>= fun p => Grammar.programRow _ p.2) >>= _ = _ ∧ _
    generalize Grammar.skipNewlines (⟨first, first :: rest, firstId⟩ : Grammar.Cursor) = r at hskip
    cases hskip with
    | rejected => exact .inl ⟨_, rfl⟩
    | outOfRange hfinal => exact .inr ⟨rfl, hfinal⟩
    | @tree _ c₁ h₁ =>
      have hfuel : 32 * (rest.length + 2) ≤ Grammar.depthBound (rest.length + 1) + 2 := by
        unfold Grammar.depthBound
        omega
      rcases Grammar.programRow_halts hfuel h₁ with ⟨e, he⟩ | ⟨hleft, hfinal⟩
      · exact .inl ⟨e, congrArg (· >>= _) he⟩
      · exact .inr ⟨congrArg (· >>= _) hleft, hfinal⟩

/-- Rows by their kinds, one for each kind that is repeatable: the last token is needed once more. -/
def leavingRows : List (List Token.Kind) :=
  [[.newline], [.kwFor, .leftParen, .semicolon], [.not], [.minus], [.leftParen],
   [.leftParen, .leftParen, .name, .rightParen], [.leftBracket],
   [.leftBracket, .leftBracket, .rightBracket], [.leftBrace], [.leftBrace, .leftBrace, .rightBrace],
   [.kwClass, .name, .emptyObject],
   [.kwLet, .name, .colon, .name, .less, .name, .less, .name, .greater],
   [.kwLet, .name, .colon, .leftBrace, .name, .colon, .name]]

theorem parseFrom_leavingRows (firstId : NodeId) : ∀ row ∈ leavingRows,
    parseFrom firstId (row.map (Token.plain · "")) = .error .outOfRange := by
  simp only [leavingRows, List.forall_mem_cons, List.map_cons, List.map_nil]
  refine ⟨?_, ?_, ?_, ?_, ?_, ?_, ?_, ?_, ?_, ?_, ?_, ?_, ?_, by simp⟩
  all_goals cbv

/-- A row of tokens without an end mark is never a program.

* It is rejected, or its last token would have to be taken twice.  Then the row is left and reading
  breaks off, and the last token is of a repeatable kind.  The bound on the depth never gives out.
* For each repeatable kind there is a row that ends in a token of this kind and is left. -/
theorem unmarked_never_program (firstId : NodeId) :
    (∀ (tokens : List Token) (hne : tokens ≠ []), (∀ t ∈ tokens, t.kind ≠ .endMark) →
      (∃ e, parseFrom firstId tokens = .error (.rejected e)) ∨
        parseFrom firstId tokens = .error .outOfRange ∧
          (tokens.getLast hne).kind ∈ Grammar.repeatable) ∧
    ∀ kind ∈ Grammar.repeatable, ∃ tokens : List Token, (∀ t ∈ tokens, t.kind ≠ .endMark) ∧
      tokens.getLast?.map (·.kind) = some kind ∧ parseFrom firstId tokens = .error .outOfRange := by
  refine ⟨fun tokens hne h => parseFrom_unmarked firstId hne h, fun kind hkind => ?_⟩
  have hrows : ∀ k ∈ Grammar.repeatable, ∃ row ∈ leavingRows,
      (∀ k' ∈ row, k' ≠ .endMark) ∧ row.getLast? = some k := by
    decide
  obtain ⟨row, hrow, hunmarked, hlast⟩ := hrows kind hkind
  refine ⟨row.map (Token.plain · ""), ?_, ?_, parseFrom_leavingRows firstId row hrow⟩
  · exact List.forall_mem_map.2 hunmarked
  · rw [List.getLast?_map, hlast]
    rfl

/-- A declaration that breaks off behind its first word is rejected; a line feed with nothing behind
it is taken again. -/
theorem lone_feed_leaves :
    (∃ e, parseFrom 0 [.plain .kwLet "let"] = .error (.rejected e)) ∧
      parseFrom 0 [.plain .name "x", .plain .newline "\n"] = .error .outOfRange := by
  refine ⟨?_, by cbv⟩
  rcases (unmarked_never_program 0).1 [.plain .kwLet "let"] (by simp) (by decide) with
    hrejected | ⟨-, hlast⟩
  · exact hrejected
  · exact absurd hlast (by decide)

end ScopedScript
