import ScopedScript.Proofs.Parsing.Followers
import ScopedScript.Proofs.Parsing.Separators

/-! # Expressions by themselves

A row of tokens `Spells` an expression if the production for expressions takes all of them.  Such a row
is read in the same way wherever it stands, up to the numbers of the nodes: at the end of a program
(`Spells.ends`), and before any token that does not continue an expression (`Spells.followed`).  How
much room there is for the depth of productions does not matter as long as it is as much as a program
of so many tokens has. -/

namespace ScopedScript

/-- What can be assigned to: a variable or a property. -/
inductive Expr.IsTarget : Expr → Prop
  | name (id : NodeId) (token : Token) : IsTarget (.name id token)
  | get (object : Expr) (name : Token) : IsTarget (.get object name)

namespace Grammar

/-! ### Taking tokens -/

section

variable {β : Type} {c d : Cursor} {last t : Token} {ts : List Token} {i : NodeId}
  {kind : Token.Kind} {kinds : List Token.Kind}

theorem advance_taken (ht : t.kind ≠ .endMark) (y : Token → Parse β) :
    (advance >>= y) ⟨last, t :: ts, i⟩ = y t ⟨t, ts, i⟩ := Reads.bind_ok (Reads.advance_cons ht)

theorem check_taken (ht : t.kind = kind) (hkind : kind ≠ .endMark) :
    Cursor.check ⟨last, t :: ts, i⟩ kind = true := by
  simp [Cursor.check, Cursor.atEnd, Cursor.peek, ht, hkind]

theorem expect_taken (ht : t.kind = kind) (hkind : kind ≠ .endMark) (what : Expectation)
    (y : Token → Parse β) : (expect kind what >>= y) ⟨last, t :: ts, i⟩ = y t ⟨t, ts, i⟩ := by
  rw [expect_bind, if_pos (check_taken ht hkind), advance_taken (ht ▸ hkind)]

theorem accept_taken (ht : t.kind = kind) (hkind : kind ≠ .endMark) (y : Bool → Parse β) :
    (accept kind >>= y) ⟨last, t :: ts, i⟩ = y true ⟨t, ts, i⟩ := by
  rw [accept_bind, if_pos (check_taken ht hkind), advance_taken (ht ▸ hkind)]

theorem accept_passed (hc : c.peek.kind ≠ kind) (y : Bool → Parse β) :
    (accept kind >>= y) c = y false c := by
  rw [accept_bind, if_neg fun hcheck => hc (Cursor.kind_of_check hcheck)]

theorem acceptAny_taken (ht : t.kind ∈ kinds) (hkind : t.kind ≠ .endMark)
    (y : Option Token → Parse β) :
    (acceptAny kinds >>= y) ⟨last, t :: ts, i⟩ = y (some t) ⟨t, ts, i⟩ := by
  rw [acceptAny_bind, if_pos (List.any_eq_true.2 ⟨t.kind, ht, check_taken rfl hkind⟩),
    advance_taken hkind]

theorem acceptAny_passed (hc : c.peek.kind ∉ kinds) (y : Option Token → Parse β) :
    (acceptAny kinds >>= y) c = y none c := by
  rw [acceptAny_bind, if_neg fun hcheck => ?_]
  obtain ⟨kind, hmem, hcheck⟩ := List.any_eq_true.1 hcheck
  exact hc (Cursor.kind_of_check hcheck ▸ hmem)

theorem freshId_taken (y : NodeId → Parse β) :
    (freshId >>= y) ⟨last, ts, i⟩ = y i ⟨last, ts, i + 1⟩ := rfl

/-- A statement may end at the end mark. -/
theorem statementEnd_mark (ht : t.kind = .endMark) (y : Unit → Parse β) :
    (statementEnd >>= y) ⟨last, [t], i⟩ = y () ⟨last, [t], i⟩ := by
  have hend : Cursor.atEnd ⟨last, [t], i⟩ = true := by simp [Cursor.atEnd, Cursor.peek, ht]
  have hpeek : Cursor.peek ⟨last, [t], i⟩ = t := rfl
  unfold statementEnd
  rw [bind_assoc, acceptAny_passed (by rw [hpeek, ht]; decide)]
  change ((if Cursor.atEnd ⟨last, [t], i⟩ || Cursor.check ⟨last, [t], i⟩ .rightBrace then _ else _ :
    Parse Unit) >>= y) _ = _
  rw [hend, Bool.true_or, if_pos rfl]
  rfl

end

/-! ### Levels of operators -/

section

variable {fuel : Nat} {c d : Cursor} {e : Expr}

/-- An operand that no operator follows, at all levels. -/
theorem binary_passes (levels : List (List Token.Kind)) (h : unary (fuel + 1) c = .ok (e, d))
    (hnone : ∀ operators ∈ levels, d.peek.kind ∉ operators) :
    binary (fuel + levels.length + 2) levels c = .ok (e, d) := by
  induction levels with
  | nil =>
    simp only [List.length_nil, binary]
    exact h
  | cons operators tighter ih =>
    obtain ⟨hfirst, hrest⟩ := List.forall_mem_cons.1 hnone
    have hleft := ih hrest
    simp only [List.length_cons, binary, ← Nat.add_assoc] at hleft ⊢
    rw [show fuel + tighter.length + 1 + 1 = fuel + tighter.length + 2 from rfl,
      Reads.bind_ok hleft]
    simp only [binaryRest]
    rw [acceptAny_passed hfirst]
    rfl

end

/-! ### Assignments -/

/-- A compound assignment is the assignment of what its operator makes of the target and the value. -/
theorem compoundAssignment_eq {d value : Expr} {t : Token} (hd : d.IsTarget) :
    compoundAssignment d t value = assignment d t (.binary d (compoundOperator t) value) := by
  cases hd <;> rfl

section

variable {fuel : Nat} {c d : Cursor} {target : Expr} {last t : Token} {ts : List Token}
  {i : NodeId}

theorem expression_assign (h : binary fuel binaryLevels c = .ok (target, ⟨last, t :: ts, i⟩))
    (ht : t.kind = .assign) : expression (fuel + 1) c =
      (expression fuel >>= fun value => assignment target t value) ⟨t, ts, i⟩ := by
  simp only [expression]
  rw [Reads.bind_ok h, acceptAny_taken (by rw [ht]; decide) (by rw [ht]; decide)]

theorem expression_compound (h : binary fuel binaryLevels c = .ok (target, ⟨last, t :: ts, i⟩))
    (ht : t.kind ∈ [.plusAssign, .minusAssign, .timesAssign, .divideAssign]) :
    expression (fuel + 1) c =
      (expression fuel >>= fun value => compoundAssignment target t value) ⟨t, ts, i⟩ := by
  have hpeek : Cursor.peek ⟨last, t :: ts, i⟩ = t := rfl
  have hmark : t.kind ≠ .endMark := fun hmark => by rw [hmark] at ht; exact absurd ht (by decide)
  have hassign : t.kind ∉ [.assign] := fun hassign => by
    rw [List.mem_singleton.1 hassign] at ht
    exact absurd ht (by decide)
  simp only [expression]
  rw [Reads.bind_ok h, acceptAny_passed (hpeek ▸ hassign)]
  change (acceptAny _ >>= _) _ = _
  rw [acceptAny_taken ht hmark]

theorem expression_step (h : binary fuel binaryLevels c = .ok (target, ⟨last, t :: ts, i⟩))
    (ht : t.kind ∈ [.increment, .decrement]) : expression (fuel + 1) c =
      compoundAssignment target t (.literal .number (.num 1.0)) ⟨t, ts, i⟩ := by
  have hpeek : Cursor.peek ⟨last, t :: ts, i⟩ = t := rfl
  have hmark : t.kind ≠ .endMark := fun hmark => by rw [hmark] at ht; exact absurd ht (by decide)
  have hassign : t.kind ∉ [.assign] := fun hassign => by
    rw [List.mem_singleton.1 hassign] at ht
    exact absurd ht (by decide)
  have hcompound : t.kind ∉ [.plusAssign, .minusAssign, .timesAssign, .divideAssign] := by
    revert ht
    generalize t.kind = kind
    cases kind <;> decide
  simp only [expression]
  rw [Reads.bind_ok h, acceptAny_passed (hpeek ▸ hassign)]
  change (acceptAny _ >>= _) _ = _
  rw [acceptAny_passed (hpeek ▸ hcompound)]
  change (acceptAny _ >>= _) _ = _
  rw [acceptAny_taken ht hmark]

/-- No assignment follows. -/
theorem expression_plain (h : binary fuel binaryLevels c = .ok (target, d))
    (hd : d.peek.kind ∉ assigners) : expression (fuel + 1) c = .ok (target, d) := by
  have hnone : ∀ {kinds : List Token.Kind}, (∀ kind ∈ kinds, kind ∈ assigners) →
      d.peek.kind ∉ kinds := fun hkinds hmem => hd (hkinds _ hmem)
  simp only [expression]
  rw [Reads.bind_ok h, acceptAny_passed (hnone (by decide))]
  change (acceptAny _ >>= _) _ = _
  rw [acceptAny_passed (hnone (by decide))]
  change (acceptAny _ >>= _) _ = _
  rw [acceptAny_passed (hnone (by decide))]
  rfl

end

/-! ### Enough room -/

section

variable {H : Horizon} {α : Type} {x x' : Parse α} {c d : Cursor} {a : α} {n : Nat}

theorem SameToMark.eq {behind ts ts' : List Token} {seen : Token → Prop}
    (h : SameToMark ⟨seen, behind, behind⟩ ts ts') : ts' = ts := by
  induction h with
  | mark => rfl
  | cons _ _ _ ih => rw [ih]

theorem Tracks.eq {behind : List Token} {seen : Token → Prop} {c c' : Cursor}
    (h : c.Tracks ⟨seen, behind, behind⟩ c') : c' = c := by
  obtain ⟨last, rest, nextId⟩ := c
  obtain ⟨last', rest', nextId'⟩ := c'
  obtain ⟨hrows, -, rfl, rfl⟩ := h
  obtain rfl : rest' = rest := hrows.eq
  rfl

/-- A tree that is made with some room is made with more. -/
theorem Echoes.ok (hx : ∀ H, Echoes H x x') (hmark : ∃ t ∈ c.rest, t.kind = .endMark)
    (hok : x c = .ok (a, d)) : x' c = .ok (a, d) := by
  obtain ⟨behind, hrows⟩ := sameToMark_self hmark
  have hfollows := hx _ c c ⟨hrows, trivial, rfl, rfl⟩
  rw [hok] at hfollows
  generalize x' c = r' at hfollows
  cases hfollows with
  | tree hd => rw [Tracks.eq hd]

/-- What comes to an end with some room comes to the same end with more. -/
theorem Finishes.settled (hx : ∀ H, Echoes H x x') (hfinishes : Finishes x c n)
    (hmark : ∃ t ∈ c.rest, t.kind = .endMark) (hok : x' c = .ok (a, d)) : x c = .ok (a, d) := by
  obtain ⟨behind, hrows⟩ := sameToMark_self hmark
  have hfollows := hx _ c c ⟨hrows, trivial, rfl, rfl⟩
  unfold Finishes at hfinishes
  generalize x c = r, x' c = r' at hfinishes hfollows hok
  cases hfollows with
  | outOfFuel => cases hfinishes
  | rejected => cases hok
  | tree he =>
    rw [← hok, Tracks.eq he]

/-- All that there is room for is read in the same way. -/
theorem expression_settled {fuel fuel' : Nat} {e : Expr} (hc : c.Within n)
    (hfuel : 32 * n + 10 ≤ fuel) (hok : expression fuel' c = .ok (e, d)) :
    expression fuel c = .ok (e, d) :=
  ((productionsFinish fuel).expression hfuel hc).settled
    (fun _ => (productionsEcho (Nat.le_max_left fuel fuel')).expression) hc.marked
    (Echoes.ok (fun _ => (productionsEcho (Nat.le_max_right fuel fuel')).expression) hc.marked hok)

end

/-! ### Rows that spell an expression -/

/-- A parser that has these tokens before its end mark takes all of them for the expression. -/
def Spells (ts : List Token) (e : Expr) : Prop :=
  ∃ fuel last mark c, mark.kind = .endMark ∧
    expression fuel ⟨last, ts ++ [mark], 0⟩ = .ok (e, c) ∧ c.rest = [mark]

namespace Spells

variable {ts : List Token} {e : Expr} {mark : Token} {i : NodeId} {fuel : Nat}

/-- The end mark stands behind the tokens, and not among them. -/
theorem ne_endMark (h : Spells ts e) : ∀ t ∈ ts, t.kind ≠ .endMark := by
  obtain ⟨fuel, last, mark, c, hmark, hread, hrest⟩ := h
  have hsame : ∀ {us : List Token}, (∃ t ∈ us, t.kind = .endMark) → ∃ behind, behind ≠ [] ∧
      SameToMark ⟨fun _ => True, behind, behind⟩ (us ++ [mark]) (us ++ [mark]) := by
    intro us hus
    induction us with
    | nil =>
      obtain ⟨t, ht, -⟩ := hus
      cases ht
    | cons u us ih =>
      by_cases hu : u.kind = .endMark
      · exact ⟨us ++ [mark], by simp, .mark trivial hu⟩
      · obtain ⟨t, ht, hmark⟩ := hus
        have ht : t ∈ us := (List.mem_cons.1 ht).resolve_left fun heq => hu (heq ▸ hmark)
        obtain ⟨behind, hne, hrows⟩ := ih ⟨t, ht, hmark⟩
        exact ⟨behind, hne, .cons trivial hu hrows⟩
  intro t ht hkind
  obtain ⟨behind, hne, hrows⟩ := hsame ⟨t, ht, hkind⟩
  have htracks : Cursor.Tracks ⟨fun _ => True, behind, behind⟩ ⟨last, ts ++ [mark], 0⟩
      ⟨last, ts ++ [mark], 0⟩ := ⟨hrows, trivial, rfl, rfl⟩
  have hfollows := (productionsEcho (Nat.le_refl fuel)).expression _ _ htracks
  rw [hread] at hfollows
  cases hfollows with
  | tree hc =>
    have hrows := hc.rows
    rw [hrest] at hrows
    cases hrows with
    | mark => exact hne rfl
    | cons _ hkind => exact hkind hmark

/-- The end mark is left, and pairs of brackets have been taken. -/
theorem taken {last m : Token} {c : Cursor} (hts : ∀ t ∈ ts, t.kind ≠ .endMark)
    (hmark : mark.kind = .endMark)
    (hread : expression fuel ⟨last, ts ++ [mark], i⟩ = .ok (e, c)) (hrest : c.rest = [m]) :
    m = mark ∧ Brackets 0 ts 0 := by
  let J : Seam := ⟨mark, .plain .rightParen ")", [], hmark, by decide⟩
  have hbefore : Cursor.Before J ⟨last, ts ++ [mark], i⟩ ⟨last, ts ++ [J.next], i⟩ :=
    ⟨J.rows hts, rfl, rfl⟩
  obtain ⟨⟨us, hus, hsplit⟩, -⟩ := (productionsCarry fuel).expression 0 _ _ hbefore e c hread
  rw [hrest] at hsplit
  obtain ⟨rfl, hm⟩ := List.append_inj' hsplit rfl
  exact ⟨(List.cons.inj hm).1.symm, hus⟩

/-- The tokens are read in the same way whatever token came before, whatever the end mark, with other
numbers and with more room. -/
theorem read (h : Spells ts e) : ∃ fuel₀ j, ∀ fuel, fuel₀ ≤ fuel → ∀ mark, mark.kind = .endMark →
    ∀ last i, ∃ e' last', e.Made Eq i 0 j e' ∧
      expression fuel ⟨last, ts ++ [mark], i⟩ = .ok (e', ⟨last', [mark], j + i⟩) := by
  have hts := h.ne_endMark
  obtain ⟨fuel₀, last₀, mark₀, c, hmark₀, hread, hrest⟩ := h
  refine ⟨fuel₀, c.nextId, fun fuel hfuel mark hmark last i => ?_⟩
  have hrows : List.Forall₂ (Viewed Eq fun _ _ => True) (ts ++ [mark₀]) (ts ++ [mark]) :=
    List.rel_append (List.forall₂_same.2 fun _ _ => .inl rfl)
      (.cons (.inr ⟨hmark₀, hmark, trivial⟩) .nil)
  have hstep : (Reading.throughout .eq (fun _ _ => True) i False).Step
      ⟨last₀, ts ++ [mark₀], 0⟩ ⟨last, ts ++ [mark], i⟩ :=
    ⟨rows_throughout .eq i False hrows, fun h => h.elim (by simp) False.elim,
      (fun hj => by cases hj), (Nat.zero_add i).symm⟩
  have hmade := (productionsMake _ ⟨hfuel, False.elim⟩).expression hstep
  rw [hread] at hmade
  generalize hread' : expression fuel ⟨last, ts ++ [mark], i⟩ = r at hmade
  cases hmade with
  | escaped hnever => exact hnever.elim
  | @read _ e' _ c' hstep' hmade =>
    obtain ⟨last', rest', nextId'⟩ := c'
    have hrows' := hstep'.rows
    rw [hrest] at hrows'
    cases hrows' with
    | mark hlater => cases hlater
    | cons _ _ hnil =>
      cases hnil with
      | nil =>
        obtain ⟨rfl, -⟩ := taken hts hmark hread' rfl
        obtain rfl : nextId' = c.nextId + i := hstep'.nextId
        exact ⟨e', last', hmade, rfl⟩

theorem brackets (h : Spells ts e) : Brackets 0 ts 0 := by
  obtain ⟨fuel₀, j, hread⟩ := h.read
  obtain ⟨e', last', -, hread⟩ :=
    hread fuel₀ (Nat.le_refl _) (.plain .endMark "") rfl (.plain .endMark "") 0
  exact (taken h.ne_endMark rfl hread rfl).2

end Spells

/-- A token before which an expression ends. -/
def Closing (next : Token) : Prop := next.kind ∉ soughtAhead ∧ next.kind ∉ expressionFollowers

namespace Spells

variable {ts more : List Token} {e : Expr} {mark next : Token} {i : NodeId} {fuel : Nat}

/-- The row is read at the end of the tokens. -/
theorem ends (h : Spells ts e) : ∃ j, ∀ mark, mark.kind = .endMark → ∀ last i, ∃ e' last',
    e.Made Eq i 0 j e' ∧ ∀ fuel, 32 * (ts.length + 1) + 10 ≤ fuel →
      expression fuel ⟨last, ts ++ [mark], i⟩ = .ok (e', ⟨last', [mark], j + i⟩) := by
  obtain ⟨fuel₀, j, hread⟩ := h.read
  refine ⟨j, fun mark hmark last i => ?_⟩
  obtain ⟨e', last', hmade, hread⟩ := hread fuel₀ (Nat.le_refl _) mark hmark last i
  have hwithin : Cursor.Within ⟨last, ts ++ [mark], i⟩ (ts.length + 1) :=
    ⟨⟨mark, by simp, hmark⟩, by simp⟩
  exact ⟨e', last', hmade, fun fuel hfuel => expression_settled hwithin hfuel hread⟩

/-- The row is read before a token that does not continue an expression. -/
theorem followed (h : Spells ts e) : ∃ j, ∀ next, Closing next → ∀ more,
    (∃ t ∈ more, t.kind = .endMark) → ∀ last i, ∃ e' last', e.Made Eq i 0 j e' ∧
      ∀ fuel, 32 * (ts.length + 1 + more.length) + 10 ≤ fuel →
        expression fuel ⟨last, ts ++ next :: more, i⟩ =
          .ok (e', ⟨last', next :: more, j + i⟩) := by
  obtain ⟨fuel₀, j, hread⟩ := h.read
  refine ⟨j, fun next hnext more ⟨m, hm, hmark⟩ last i => ?_⟩
  obtain ⟨e', last', hmade, hread⟩ := hread fuel₀ (Nat.le_refl _) m hmark last i
  let J : Seam := ⟨m, next, more, hmark, hnext.1⟩
  have hbefore : Cursor.Before J ⟨last, ts ++ [m], i⟩ ⟨last, ts ++ next :: more, i⟩ :=
    ⟨J.rows h.ne_endMark, rfl, rfl⟩
  obtain ⟨-, ⟨-, hfollower⟩ | ⟨c', hread', hbefore'⟩⟩ :=
    (productionsCarry _).expression 0 _ _ hbefore e' _ hread
  · exact absurd hfollower hnext.2
  rw [hbefore'.ended] at hread'
  have hwithin : Cursor.Within ⟨last, ts ++ next :: more, i⟩ (ts.length + 1 + more.length) :=
    ⟨⟨m, by simp [hm], hmark⟩, by simp only [List.length_append, List.length_cons]; omega⟩
  exact ⟨e', last', hmade, fun fuel hfuel => expression_settled hwithin hfuel hread'⟩

end Spells

section

variable {fuel : Nat} {last l mark next : Token} {ts more : List Token} {e : Expr} {i k : NodeId}

/-- An expression is read in the same way before a token that does not continue it. -/
theorem expression_followed (hts : ∀ t ∈ ts, t.kind ≠ .endMark) (hmark : mark.kind = .endMark)
    (hnext : Closing next)
    (h : expression fuel ⟨last, ts ++ [mark], i⟩ = .ok (e, ⟨l, [mark], k⟩)) :
    expression fuel ⟨last, ts ++ next :: more, i⟩ = .ok (e, ⟨l, next :: more, k⟩) := by
  let J : Seam := ⟨mark, next, more, hmark, hnext.1⟩
  have hbefore : Cursor.Before J ⟨last, ts ++ [mark], i⟩ ⟨last, ts ++ next :: more, i⟩ :=
    ⟨J.rows hts, rfl, rfl⟩
  obtain ⟨-, ⟨-, hfollower⟩ | ⟨c', hread, hbefore'⟩⟩ :=
    (productionsCarry fuel).expression 0 _ _ hbefore e _ h
  · exact absurd hfollower hnext.2
  · rwa [hbefore'.ended] at hread

end

/-! ### First tokens -/

/-- The kinds of tokens that an expression starts with. -/
def expressionStarters : List Token.Kind :=
  [.number, .float, .string, .trueLit, .falseLit, .nullLit, .undefinedLit, .emptyObject, .kwFunction,
   .kwThis, .name, .kwPrint, .leftParen, .leftBracket, .leftBrace, .not, .minus]

theorem starter_ne {kind kind' : Token.Kind} (h : kind ∈ expressionStarters)
    (h' : kind' ∉ expressionStarters) : kind ≠ kind' := fun heq => h' (heq ▸ h)

section

variable {fuel : Nat} {c d : Cursor} {e : Expr}

theorem starter_of_primary (h : primary fuel c = .ok (e, d)) : c.peek.kind ∈ expressionStarters := by
  cases fuel with
  | zero => cases h
  | succ fuel =>
    simp only [primary, Reads.get_bind] at h
    generalize c.peek.kind = kind at h
    cases kind <;> first | decide | cases h

theorem starter_of_unary (h : unary fuel c = .ok (e, d)) :
    c.peek.kind ∈ expressionStarters := by
  cases fuel with
  | zero => cases h
  | succ fuel =>
    simp only [unary] at h
    rw [acceptAny_bind] at h
    split at h
    · next hcheck =>
      obtain ⟨kind, hkind, hcheck⟩ := List.any_eq_true.1 hcheck
      rw [Cursor.kind_of_check hcheck]
      revert hkind
      cases kind <;> decide
    · change (primary fuel >>= _) _ = _ at h
      obtain ⟨head, c₁, hhead, -⟩ := bind_eq_ok h
      exact starter_of_primary hhead

theorem starter_of_binary {levels : List (List Token.Kind)}
    (h : binary fuel levels c = .ok (e, d)) : c.peek.kind ∈ expressionStarters := by
  induction fuel generalizing levels e d with
  | zero => cases h
  | succ fuel ih =>
    cases levels with
    | nil =>
      simp only [binary] at h
      exact starter_of_unary h
    | cons operators tighter =>
      simp only [binary] at h
      obtain ⟨left, c₁, hleft, -⟩ := bind_eq_ok h
      exact ih hleft

theorem starter_of_expression (h : expression fuel c = .ok (e, d)) :
    c.peek.kind ∈ expressionStarters := by
  cases fuel with
  | zero => cases h
  | succ fuel =>
    simp only [expression] at h
    obtain ⟨left, c₁, hleft, -⟩ := bind_eq_ok h
    exact starter_of_binary hleft

/-- No line feeds are taken where none is in view. -/
theorem skipNewlines_before (h : c.peek.kind ≠ .newline) : skipNewlines c = .ok ((), c) := by
  obtain ⟨last, ts, i⟩ := c
  rw [Reads.skipNewlines_eq]
  cases ts with
  | nil =>
    replace h : last.kind ≠ .newline := h
    simp only [dropNewlines, if_neg h]
    rfl
  | cons t ts =>
    replace h : t.kind ≠ .newline := h
    simp only [dropNewlines, if_neg h]
    rfl

/-- A statement starts behind the line feeds. -/
theorem statement_behind (h : skipNewlines c = .ok ((), d)) (fuel : Nat) :
    statement (fuel + 1) c = statement (fuel + 1) d := by
  simp only [statement]
  rw [Reads.bind_ok h, Reads.bind_ok (skipNewlines_before (skipNewlines_peek h))]

end

/-! ### Before the end of a statement -/

section

variable {t next : Token} {ts : List Token}

/-- What ends a statement ends an expression. -/
theorem closing_terminator (h : next.kind.isTerminator = true) (hmark : next.kind ≠ .endMark) :
    Closing next := by
  unfold Closing
  revert h hmark
  generalize next.kind = kind
  cases kind <;> decide

theorem sameToMark_append (hts : ∀ u ∈ ts, u.kind ≠ .endMark) (ht : t.kind = .endMark)
    (us us' : List Token) : SameToMark ⟨fun _ => True, us, us'⟩ (ts ++ t :: us) (ts ++ t :: us') := by
  induction ts with
  | nil => exact .mark trivial ht
  | cons u ts ih =>
    obtain ⟨hu, hts⟩ := List.forall_mem_cons.1 hts
    exact .cons trivial hu (ih hts)

/-- Before what ends a statement, an expression is read as it is before some end mark. -/
theorem exists_mark_before (ht : t.kind.isTerminator = true) (more : List Token) :
    ∃ mark : Token, mark.kind = .endMark ∧ ∀ {fuel : Nat} {last l : Token} {ts : List Token}
      {e : Expr} {i k : NodeId}, (∀ u ∈ ts, u.kind ≠ .endMark) →
      expression fuel ⟨last, ts ++ [mark], i⟩ = .ok (e, ⟨l, [mark], k⟩) →
      expression fuel ⟨last, ts ++ t :: more, i⟩ = .ok (e, ⟨l, t :: more, k⟩) := by
  by_cases hmark : t.kind = .endMark
  · refine ⟨t, hmark, fun {fuel last l ts e i k} hts h => ?_⟩
    have hfollows := (productionsEcho (Nat.le_refl fuel)).expression ⟨last, ts ++ [t], i⟩
      ⟨last, ts ++ t :: more, i⟩ ⟨sameToMark_append hts hmark [] more, trivial, rfl, rfl⟩
    rw [h] at hfollows
    generalize expression fuel ⟨last, ts ++ t :: more, i⟩ = r at hfollows ⊢
    cases hfollows with
    | @tree _ _ c' htracks =>
      obtain ⟨l', rest', k'⟩ := c'
      obtain ⟨hrows, -, rfl, rfl⟩ := htracks
      cases hrows with
      | mark => rfl
      | cons _ hne => exact absurd hmark hne
  · exact ⟨.plain .endMark "", rfl, fun hts h =>
      expression_followed hts rfl (closing_terminator ht hmark) h⟩

end

end Grammar

end ScopedScript
