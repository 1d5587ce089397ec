import ScopedScript.Proofs.Parsing.IndexAssignments
import ScopedScript.Proofs.Parsing.ReplacedStatements

/-! # Compound assignments

The row of `T op= E` or `T++`, and that of the assignment `T = T op (E)` that it stands for.

* A target is a name or a property (`Expr.IsTarget`).  A row that spells one is read by the production
  for operands, whatever operator comes behind it (`unary_of_expression`, `unary_followed`).
* A statement that starts with a target is read as an expression, unless the target starts with empty
  braces, which are a statement by themselves (`statement_target`).
* Both rows are read to the end, as assignments to the target of the value that the operator makes of
  the target and the operand (`Expr.Assigns`, `Expansion.Unfolds`).
* Either row is a program of its own (`Expansion.parseFrom_alone`), and in the place of a statement
  (`Gap`) the second can stand for the first (`Expansion.replacement`). -/

namespace ScopedScript

/-- The last tree is the assignment of the value to the target. -/
inductive Expr.Assigns : Expr → Expr → Expr → Prop
  | name (id id' : NodeId) (token : Token) (value : Expr) :
      Assigns (.name id token) value (.assign id' token value)
  | get (object : Expr) (name : Token) (value : Expr) :
      Assigns (.get object name) value (.set object name value)

namespace Grammar

section

variable {fuel : Nat} {c d : Cursor} {e target value : Expr} {t : Token}

/-! ### Targets as operands -/

theorem not_target_of_assignment (h : assignment target t value c = .ok (e, d)) : ¬e.IsTarget := by
  unfold assignment at h
  split at h
  · obtain ⟨id, c₁, -, h⟩ := bind_eq_ok h
    obtain ⟨rfl, -⟩ := Prod.mk.inj (Except.ok.inj h)
    rintro ⟨⟩
  · obtain ⟨rfl, -⟩ := Prod.mk.inj (Except.ok.inj h)
    rintro ⟨⟩
  · cases h

theorem not_target_of_compoundAssignment (h : compoundAssignment target t value c = .ok (e, d)) :
    ¬e.IsTarget := by
  unfold compoundAssignment at h
  split at h
  · obtain ⟨id, c₁, -, h⟩ := bind_eq_ok h
    obtain ⟨rfl, -⟩ := Prod.mk.inj (Except.ok.inj h)
    rintro ⟨⟩
  · obtain ⟨rfl, -⟩ := Prod.mk.inj (Except.ok.inj h)
    rintro ⟨⟩
  · cases h

/-- An expression that is a target is no assignment. -/
theorem binary_of_expression (he : e.IsTarget) (h : expression (fuel + 1) c = .ok (e, d)) :
    binary fuel binaryLevels c = .ok (e, d) := by
  simp only [expression] at h
  obtain ⟨target, c₁, htarget, h⟩ := bind_eq_ok h
  rw [acceptAny_bind] at h
  split at h
  · obtain ⟨equals, c₂, -, h⟩ := bind_eq_ok h
    obtain ⟨value, c₃, -, h⟩ := bind_eq_ok h
    exact absurd he (not_target_of_assignment h)
  · change (acceptAny _ >>= _) _ = _ at h
    rw [acceptAny_bind] at h
    split at h
    · obtain ⟨operator, c₂, -, h⟩ := bind_eq_ok h
      obtain ⟨value, c₃, -, h⟩ := bind_eq_ok h
      exact absurd he (not_target_of_compoundAssignment h)
    · change (acceptAny _ >>= _) _ = _ at h
      rw [acceptAny_bind] at h
      split at h
      · obtain ⟨operator, c₂, -, h⟩ := bind_eq_ok h
        exact absurd he (not_target_of_compoundAssignment h)
      · obtain ⟨rfl, rfl⟩ := Prod.mk.inj (Except.ok.inj h)
        exact htarget

/-- What the operators of a level make of an operand: nothing, or a binary expression. -/
theorem binaryRest_left_or_binary {operators : List Token.Kind} {tighter : List (List Token.Kind)}
    {left : Expr} (h : binaryRest fuel operators tighter left c = .ok (e, d)) :
    (e = left ∧ d = c) ∨ ∃ l operator r, e = .binary l operator r := by
  induction fuel generalizing left c with
  | zero => cases h
  | succ fuel ih =>
    simp only [binaryRest] at h
    rw [acceptAny_bind] at h
    split at h
    · obtain ⟨operator, c₁, -, h⟩ := bind_eq_ok h
      obtain ⟨right, c₂, -, h⟩ := bind_eq_ok h
      obtain ⟨rfl, -⟩ | hbinary := ih h
      · exact .inr ⟨_, _, _, rfl⟩
      · exact .inr hbinary
    · obtain ⟨rfl, rfl⟩ := Prod.mk.inj (Except.ok.inj h)
      exact .inl ⟨rfl, rfl⟩

theorem unary_of_binary_target (he : e.IsTarget) (levels : List (List Token.Kind))
    (h : binary (fuel + levels.length + 1) levels c = .ok (e, d)) :
    unary fuel c = .ok (e, d) := by
  induction levels with
  | nil => exact h
  | cons operators tighter ih =>
    simp only [List.length_cons, ← Nat.add_assoc, binary] at h
    obtain ⟨left, c₁, hleft, h⟩ := bind_eq_ok h
    obtain ⟨rfl, rfl⟩ | ⟨_, _, _, rfl⟩ := binaryRest_left_or_binary h
    · exact ih hleft
    · cases he

/-- An expression that is a target is read as an operand. -/
theorem unary_of_expression (he : e.IsTarget) (h : expression (fuel + 8) c = .ok (e, d)) :
    unary fuel c = .ok (e, d) :=
  unary_of_binary_target he binaryLevels (binary_of_expression he h)

end

/-! ### The token behind an operand -/

section

variable {fuel : Nat} {last l mark next : Token} {ts more : List Token} {e : Expr} {i k : NodeId}

/-- An operand is read in the same way before a token that is no parenthesis and no dot. -/
theorem unary_followed (more : List Token) (hts : ∀ t ∈ ts, t.kind ≠ .endMark)
    (hmark : mark.kind = .endMark)
    (hnext : next.kind ∉ soughtAhead) (hnext' : next.kind ∉ postfixFollowers)
    (h : unary fuel ⟨last, ts ++ [mark], i⟩ = .ok (e, ⟨l, [mark], k⟩)) :
    unary fuel ⟨last, ts ++ next :: more, i⟩ = .ok (e, ⟨l, next :: more, k⟩) := by
  let J : Seam := ⟨mark, next, more, hmark, hnext⟩
  have hbefore : Cursor.Before J ⟨last, ts ++ [mark], i⟩ ⟨last, ts ++ next :: more, i⟩ :=
    ⟨J.rows hts, rfl, rfl⟩
  obtain ⟨-, ⟨-, hfollower⟩ | ⟨c', hread, hbefore'⟩⟩ :=
    (productionsCarry fuel).unary 0 _ _ hbefore e _ h
  · exact absurd hfollower hnext'
  · rwa [hbefore'.ended] at hread

end

/-! ### Rows read twice -/

section

variable {token : Token → Token → Prop} {ts ts' : List Token} {e : Expr}

theorem ne_endMark_alike (hm : Matches token) (hts : List.Forall₂ token ts ts')
    (h : ∀ t ∈ ts, t.kind ≠ .endMark) : ∀ t ∈ ts', t.kind ≠ .endMark := by
  induction hts with
  | nil => exact h
  | cons ht _ ih =>
    obtain ⟨hkind, hrest⟩ := List.forall_mem_cons.1 h
    exact List.forall_mem_cons.2 ⟨(hm.same ht).1 ▸ hkind, ih hrest⟩

/-- Two rows that correspond are read side by side, with any numbers for the nodes. -/
theorem Spells.ends_alike (h : Spells ts e) (hm : Matches token) (hts : List.Forall₂ token ts ts') :
    ∃ j, ∀ mark mark', mark.kind = .endMark → mark'.kind = .endMark → ∀ last last' i k,
      ∃ d d' l l', e.Made Eq i 0 j d ∧ d.Made token k i (j + i) d' ∧
        ∀ fuel, 32 * (ts.length + 1) + 10 ≤ fuel →
          expression fuel ⟨last, ts ++ [mark], i⟩ = .ok (d, ⟨l, [mark], j + i⟩) ∧
          expression fuel ⟨last', ts' ++ [mark'], i + k⟩ = .ok (d', ⟨l', [mark'], j + i + k⟩) := by
  obtain ⟨j, hread⟩ := h.ends
  refine ⟨j, fun mark mark' hmark hmark' last last' i k => ?_⟩
  obtain ⟨d, l, hmade, hread⟩ := hread mark hmark last i
  have hts' := ne_endMark_alike hm hts h.ne_endMark
  obtain ⟨bound, hbound⟩ : ∃ n, n = 32 * (ts.length + 1) + 10 := ⟨_, rfl⟩
  have hrows : List.Forall₂ (Viewed token fun _ _ => True) (ts ++ [mark]) (ts' ++ [mark']) :=
    List.rel_append (hts.imp fun _ _ => .inl) (.cons (.inr ⟨hmark, hmark', trivial⟩) .nil)
  have hstep : (Reading.throughout hm (fun _ _ => True) k False).Step
      ⟨last, ts ++ [mark], i⟩ ⟨last', ts' ++ [mark'], i + k⟩ :=
    ⟨rows_throughout hm k False hrows, fun h => h.elim (by simp) False.elim,
      (fun hj => by cases hj), rfl⟩
  have hmade' := (productionsMake _ ⟨Nat.le_refl bound, False.elim⟩).expression hstep
  rw [hread bound hbound.ge] at hmade'
  generalize hread' : expression bound ⟨last', ts' ++ [mark'], i + k⟩ = r at hmade'
  cases hmade' with
  | escaped hnever => exact hnever.elim
  | @read _ d' _ c' hstep' hmade' =>
    obtain ⟨l', rest', nextId'⟩ := c'
    have hrows' := hstep'.rows
    cases hrows' with
    | mark hlater => cases hlater
    | cons _ _ hnil =>
      cases hnil with
      | nil =>
        obtain ⟨hend, -⟩ := Spells.taken hts' hmark' hread' rfl
        obtain rfl := hend.symm
        obtain rfl : nextId' = j + i + k := hstep'.nextId
        have hwithin : Cursor.Within ⟨last', ts' ++ [mark'], i + k⟩ (ts.length + 1) :=
          ⟨⟨mark', by simp, hmark'⟩, by simp [hts.length_eq]⟩
        exact ⟨d, d', l, l', hmade, hmade', fun fuel hfuel =>
          ⟨hread fuel hfuel, expression_settled hwithin hfuel hread'⟩⟩

end

/-! ### Operators between operands -/

section

variable {fuel : Nat} {c d : Cursor} {e : Expr}

/-- What is read at one level, with no operator of a looser level behind it. -/
theorem binary_passes_outer (outer : List (List Token.Kind)) {tighter : List (List Token.Kind)}
    (h : binary (fuel + 1) tighter c = .ok (e, d))
    (hnone : ∀ operators ∈ outer, d.peek.kind ∉ operators) :
    binary (fuel + outer.length + 1) (outer ++ tighter) c = .ok (e, d) := by
  induction outer with
  | nil => exact h
  | cons operators outer ih =>
    obtain ⟨hfirst, hrest⟩ := List.forall_mem_cons.1 hnone
    have hleft := ih hrest
    simp only [List.length_cons, List.cons_append, binary, ← Nat.add_assoc]
    rw [Reads.bind_ok hleft]
    simp only [binaryRest]
    rw [acceptAny_passed hfirst]
    rfl

/-- Two operands with an operator between them, and no operator behind them. -/
theorem binary_between (outer tighter : List (List Token.Kind)) {operators : List Token.Kind}
    {operator l : Token} {rest : List Token} {left right : Expr} {i : NodeId}
    (hop : operator.kind ∈ operators) (hend : operator.kind ≠ .endMark)
    (hothers : ∀ ops ∈ tighter, operator.kind ∉ ops)
    (hleft : unary (fuel + 2) c = .ok (left, ⟨l, operator :: rest, i⟩))
    (hright : unary (fuel + 1) ⟨operator, rest, i⟩ = .ok (right, d))
    (hnone : ∀ ops ∈ outer ++ operators :: tighter, d.peek.kind ∉ ops) :
    binary (fuel + tighter.length + outer.length + 4) (outer ++ operators :: tighter) c =
      .ok (.binary left operator right, d) := by
  have hfirst := binary_passes tighter hleft hothers
  have hsecond := binary_passes tighter hright fun ops hops =>
    hnone ops (List.mem_append_right _ (List.mem_cons_of_mem _ hops))
  have hlevel : binary (fuel + tighter.length + 3 + 1) (operators :: tighter) c =
      .ok (.binary left operator right, d) := by
    simp only [binary]
    rw [show fuel + tighter.length + 3 = fuel + 1 + tighter.length + 2 by omega,
      Reads.bind_ok hfirst]
    rw [show fuel + 1 + tighter.length + 2 = fuel + tighter.length + 2 + 1 by omega]
    simp only [binaryRest]
    rw [acceptAny_taken hop hend]
    change (binary (fuel + tighter.length + 2) tighter >>= _) _ = _
    rw [Reads.bind_ok hsecond]
    rw [acceptAny_passed (hnone operators (List.mem_append_right _ List.mem_cons_self))]
    rfl
  rw [show fuel + tighter.length + outer.length + 4 =
    fuel + tighter.length + 3 + outer.length + 1 by omega]
  exact binary_passes_outer outer hlevel fun ops hops => hnone ops (List.mem_append_left _ hops)

/-- The end mark is no operator. -/
theorem endMark_not_operator {kind : Token.Kind} (h : kind = .endMark) :
    ∀ operators ∈ binaryLevels, kind ∉ operators := by
  subst h
  decide

/-- An operator of arithmetic, between two operands at the end of a row. -/
theorem binary_arithmetic {operator l : Token} {rest : List Token} {left right : Expr} {i : NodeId}
    (hop : operator.kind ∈ arithmetic)
    (hleft : unary (fuel + 2) c = .ok (left, ⟨l, operator :: rest, i⟩))
    (hright : unary (fuel + 1) ⟨operator, rest, i⟩ = .ok (right, d))
    (hd : d.peek.kind = .endMark) :
    binary (fuel + 9) binaryLevels c = .ok (.binary left operator right, d) := by
  have hend : operator.kind ≠ .endMark := fun h => by rw [h] at hop; exact absurd hop (by decide)
  have hnone := endMark_not_operator hd
  by_cases hsum : operator.kind ∈ [Token.Kind.plus, .minus]
  · exact binary_between (binaryLevels.take 4) [[.divide, .times]] hsum hend
      (by
        intro ops hops
        obtain rfl := List.mem_singleton.1 hops
        revert hsum
        generalize operator.kind = kind
        cases kind <;> decide) hleft hright hnone
  · have hproduct : operator.kind ∈ [Token.Kind.divide, .times] := by
      revert hop hsum
      generalize operator.kind = kind
      cases kind <;> decide
    exact binary_between (binaryLevels.take 5) [] hproduct hend (by simp)
      hleft hright hnone

end

/-! ### Groupings -/

section

variable {fuel : Nat} {e : Expr}

/-- An expression in parentheses, read as an operand at the end of a row. -/
theorem unary_grouping (last : Token) {opening closing mark l : Token} {es : List Token} {i k : NodeId}
    (hopening : opening.kind = .leftParen) (hclosing : closing.kind = .rightParen)
    (hmark : mark.kind = .endMark)
    (he : expression fuel ⟨opening, es ++ [closing, mark], i⟩ = .ok (e, ⟨l, [closing, mark], k⟩)) :
    unary (fuel + 2) ⟨last, opening :: (es ++ [closing, mark]), i⟩ =
      .ok (.grouping e, ⟨closing, [mark], k⟩) := by
  have hpeek : Cursor.peek ⟨last, opening :: (es ++ [closing, mark]), i⟩ = opening := rfl
  have hpeek' : Cursor.peek ⟨closing, [mark], k⟩ = mark := rfl
  have hskip := skipNewlines_before (starter_ne (starter_of_expression he) (by decide))
  have hskip' : skipNewlines ⟨l, [closing, mark], k⟩ = .ok ((), ⟨l, [closing, mark], k⟩) :=
    skipNewlines_before (by
      change closing.kind ≠ _
      rw [hclosing]
      decide)
  have hprimary : primary (fuel + 1) ⟨last, opening :: (es ++ [closing, mark]), i⟩ =
      .ok (.grouping e, ⟨closing, [mark], k⟩) := by
    simp only [primary, Reads.get_bind, hpeek, hopening]
    rw [advance_taken (by rw [hopening]; decide), Reads.bind_ok hskip, Reads.bind_ok he,
      Reads.bind_ok hskip', expect_taken hclosing (by decide)]
    rfl
  simp only [unary]
  rw [acceptAny_passed (by rw [hpeek, hopening]; decide)]
  change (primary (fuel + 1) >>= fun head => postfixRest (fuel + 1) head) _ = _
  rw [Reads.bind_ok hprimary]
  simp only [postfixRest]
  rw [accept_passed (by rw [hpeek', hmark]; decide), if_neg Bool.false_ne_true,
    accept_passed (by rw [hpeek', hmark]; decide)]
  rfl

end

/-! ### Statements that start with a target -/

/-- Do the tokens start with braces that have nothing but line feeds between them? -/
def startsEmptyBraces : List Token → Bool
  | t :: rest => t.kind == .emptyObject || t.kind == .leftBrace && closesAtOnce rest
  | [] => false

section

variable {fuel : Nat} {last l mark next t : Token} {ts more : List Token} {e : Expr} {i k : NodeId}
  {c d : Cursor}

/-- Without an operator in front, an operand is read with what goes on behind it. -/
theorem primary_of_unary (h : unary (fuel + 1) c = .ok (e, d))
    (hc : c.peek.kind ∉ [.not, .minus]) :
    ∃ head c₁, primary fuel c = .ok (head, c₁) ∧ postfixRest fuel head c₁ = .ok (e, d) := by
  simp only [unary] at h
  rw [acceptAny_passed hc] at h
  change (primary fuel >>= _) _ = _ at h
  exact bind_eq_ok h

/-- Behind an operand that is no target, a target goes on with a call or a property. -/
theorem postfixRest_goes_on {head : Expr} (he : e.IsTarget) (hhead : ¬head.IsTarget)
    (h : postfixRest fuel head c = .ok (e, d)) : c.peek.kind ∈ postfixFollowers := by
  by_contra hnone
  obtain ⟨hparen, hdot⟩ : c.peek.kind ≠ .leftParen ∧ c.peek.kind ≠ .dot := by
    simpa [postfixFollowers] using hnone
  cases fuel with
  | zero => cases h
  | succ fuel =>
    simp only [postfixRest] at h
    rw [accept_passed hparen, if_neg Bool.false_ne_true, accept_passed hdot] at h
    obtain ⟨rfl, -⟩ := Prod.mk.inj (Except.ok.inj h)
    exact hhead he

/-- A target that starts with a name and an index goes on behind the bracket, and not with `=`. -/
theorem not_assigned_index (more : List Token) (he : e.IsTarget) (ht : t.kind = .name)
    (hnext : next.kind = .leftBracket)
    (hmark : mark.kind = .endMark) (hts : ∀ u ∈ ts, u.kind ≠ .endMark)
    (h : unary (fuel + 1) ⟨last, t :: next :: (ts ++ [mark]), i⟩ = .ok (e, d)) :
    assignsAfterBracket 0 (next :: (ts ++ more)) = false := by
  have hpeek : Cursor.peek ⟨last, t :: next :: (ts ++ [mark]), i⟩ = t := rfl
  obtain ⟨head, c₁, hhead, hrest⟩ := primary_of_unary h (by rw [hpeek, ht]; decide)
  cases fuel with
  | zero => cases hhead
  | succ fuel =>
    simp only [primary, Reads.get_bind, hpeek, ht] at hhead
    rw [advance_taken (by rw [ht]; decide), freshId_taken, accept_taken hnext (by decide),
      if_pos rfl] at hhead
    obtain ⟨index, c₂, hindex, hhead⟩ := bind_eq_ok hhead
    obtain ⟨closing, c₃, hclosing, hhead⟩ := bind_eq_ok hhead
    obtain ⟨rfl, rfl⟩ := Prod.mk.inj (Except.ok.inj hhead)
    have hfollower := postfixRest_goes_on he (by rintro ⟨⟩) hrest
    let J : Seam := ⟨mark, .plain .rightParen ")", [], hmark, by decide⟩
    have hbefore : Cursor.Before J ⟨next, ts ++ [mark], i + 1⟩ ⟨next, ts ++ [J.next], i + 1⟩ :=
      ⟨J.rows hts, rfl, rfl⟩
    obtain ⟨⟨inner, hinner, hsplit⟩, -⟩ :=
      (productionsCarry fuel).expression 0 _ _ hbefore index c₂ hindex
    -- the bracket and the token behind it are taken from the row
    obtain ⟨last₂, rest, j⟩ := c₂
    change (if Cursor.check _ _ then _ else _ : Parse Token) _ = _ at hclosing
    split at hclosing
    · next hcheck =>
      have hkind := Cursor.kind_of_check hcheck
      cases rest with
      | nil => cases hclosing
      | cons u rest =>
        replace hkind : u.kind = .rightBracket := hkind
        rw [Reads.advance_cons (by rw [hkind]; decide)] at hclosing
        obtain ⟨rfl, rfl⟩ := Prod.mk.inj (Except.ok.inj hclosing)
        cases rest with
        | nil =>
          change u.kind ∈ _ at hfollower
          rw [hkind] at hfollower
          exact absurd hfollower (by decide)
        | cons v rest =>
          change v.kind ∈ postfixFollowers at hfollower
          have hv : v.kind ≠ .endMark := fun hv => by
            rw [hv] at hfollower
            exact absurd hfollower (by decide)
          obtain ⟨us, rfl⟩ : ∃ us, ts = inner ++ u :: v :: us := by
            change ts ++ [mark] = inner ++ u :: v :: rest at hsplit
            rcases List.eq_nil_or_concat rest with rfl | ⟨us, w, rfl⟩
            · have hsplit' : ts ++ [mark] = (inner ++ [u]) ++ [v] := by simpa using hsplit
              obtain ⟨-, hlast⟩ := List.append_inj' hsplit' rfl
              exact absurd hmark ((List.cons.inj hlast).1 ▸ hv)
            · have hsplit' : ts ++ [mark] = (inner ++ u :: v :: us) ++ [w] := by simpa using hsplit
              exact ⟨us, (List.append_inj' hsplit' rfl).1⟩
          simp only [List.append_assoc, List.cons_append, assignsAfterBracket, hnext]
          by_cases hjoint : ∃ w ∈ inner, w.kind ∈ joints
          · exact hinner.assignsAfterBracket_joint hjoint _
          · rw [hinner.assignsAfterBracket_append fun w hw hmem => hjoint ⟨w, hw, hmem⟩]
            simp only [assignsAfterBracket, hkind]
            rw [if_pos (by decide)]
            refine beq_eq_false_iff_ne.2 fun hassign => ?_
            rw [hassign] at hfollower
            exact absurd hfollower (by decide)
    · cases hclosing

/-- An operand that starts with the word `function` goes on with a parenthesis. -/
theorem function_goes_on (ht : t.kind = .kwFunction)
    (h : primary fuel ⟨last, t :: ts, i⟩ = .ok (e, d)) :
    Cursor.checkNext ⟨last, t :: ts, i⟩ .name = false := by
  have hpeek : Cursor.peek ⟨last, t :: ts, i⟩ = t := rfl
  cases fuel with
  | zero => cases h
  | succ fuel =>
    simp only [primary, Reads.get_bind, hpeek, ht] at h
    rw [advance_taken (by rw [ht]; decide)] at h
    obtain ⟨opening, c₁, hopening, -⟩ := bind_eq_ok h
    change (if Cursor.check _ _ then _ else _ : Parse Token) _ = _ at hopening
    split at hopening
    · next hcheck =>
      have hkind := Cursor.kind_of_check hcheck
      cases ts with
      | nil => rfl
      | cons u ts =>
        replace hkind : u.kind = .leftParen := hkind
        simp [Cursor.checkNext, hkind]
    · cases hopening

/-- An operand that starts with a brace is an object. -/
theorem object_goes_on (ht : t.kind = .leftBrace)
    (h : primary fuel ⟨last, t :: ts, i⟩ = .ok (e, d)) :
    Cursor.atObject ⟨last, t :: ts, i⟩ = true := by
  have hpeek : Cursor.peek ⟨last, t :: ts, i⟩ = t := rfl
  cases fuel with
  | zero => cases h
  | succ fuel =>
    simp only [primary, Reads.get_bind, hpeek, ht] at h
    split at h
    · assumption
    · cases h

theorem closesAtOnce_mark (hmark : mark.kind = .endMark) (ts : List Token) :
    closesAtOnce (ts ++ [mark]) = closesAtOnce ts := by
  unfold closesAtOnce
  induction ts with
  | nil =>
    rw [List.nil_append, List.dropWhile_cons_of_neg (by simp [hmark])]
    simp [hmark]
  | cons t ts ih =>
    by_cases hkind : t.kind = .newline
    · rw [List.cons_append, List.dropWhile_cons_of_pos (by simp [hkind]),
        List.dropWhile_cons_of_pos (by simp [hkind])]
      exact ih
    · rw [List.cons_append, List.dropWhile_cons_of_neg (by simp [hkind]),
        List.dropWhile_cons_of_neg (by simp [hkind])]

/-- A statement that starts with a target, and not with empty braces, is read as an expression. -/
theorem statement_target (fuel' : Nat) (he : e.IsTarget) (hbraces : startsEmptyBraces ts = false)
    (hmark : mark.kind = .endMark) (hts : ∀ u ∈ ts, u.kind ≠ .endMark)
    (hread : unary (fuel + 1) ⟨last, ts ++ [mark], i⟩ = .ok (e, d))
    (hnext : next.kind ∉ soughtAhead) :
    statement (fuel' + 1) ⟨last, ts ++ next :: more, i⟩ =
      expressionStatement fuel' ⟨last, ts ++ next :: more, i⟩ := by
  have hstart := starter_of_unary hread
  let J : Seam := ⟨mark, next, more, hmark, hnext⟩
  have hbefore : Cursor.Before J ⟨last, ts ++ [mark], i⟩ ⟨last, ts ++ next :: more, i⟩ :=
    ⟨J.rows hts, rfl, rfl⟩
  cases ts with
  | nil => exact absurd hmark (starter_ne hstart (by decide))
  | cons t ts =>
    replace hstart : t.kind ∈ expressionStarters := hstart
    obtain ⟨ht, hinner⟩ := List.forall_mem_cons.1 hts
    have hend : Cursor.atEnd ⟨last, t :: (ts ++ [mark]), i⟩ = false := by
      simpa [Cursor.atEnd, Cursor.peek] using ht
    have hskip : skipNewlines ⟨last, t :: (ts ++ next :: more), i⟩ =
        .ok ((), ⟨last, t :: (ts ++ next :: more), i⟩) :=
      skipNewlines_before (starter_ne hstart (by decide))
    have hpeek : Cursor.peek ⟨last, t :: (ts ++ next :: more), i⟩ = t := rfl
    simp only [startsEmptyBraces, Bool.or_eq_false_iff, Bool.and_eq_false_iff,
      beq_eq_false_iff_ne] at hbraces
    obtain ⟨hempty, hcloses⟩ := hbraces
    have hprimary := primary_of_unary (c := ⟨last, t :: (ts ++ [mark]), i⟩) hread
    -- what is in view behind the first token is the same before the end mark and before `next`
    have hfunction : t.kind = .kwFunction →
        Cursor.checkNext ⟨last, t :: (ts ++ next :: more), i⟩ .name = false := by
      intro hkind
      obtain ⟨head, c₁, hhead, -⟩ := hprimary (by
        change t.kind ∉ _
        rw [hkind]
        decide)
      exact (Seam.Rows.checkNext hbefore hend (by decide)).trans (function_goes_on hkind hhead)
    have hobject : t.kind = .leftBrace →
        Cursor.checkNext ⟨last, t :: (ts ++ next :: more), i⟩ .rightBrace = false ∧
          startsEntry (ts ++ next :: more) = true := by
      intro hkind
      obtain ⟨head, c₁, hhead, -⟩ := hprimary (by
        change t.kind ∉ _
        rw [hkind]
        decide)
      have hnot := hcloses.resolve_left fun h => h hkind
      have hobject := object_goes_on hkind hhead
      have hentry : startsEntry (ts ++ [mark]) = true := by
        simpa [Cursor.atObject, closesAtOnce_mark hmark, hnot] using hobject
      have hfed : ¬J.Fed (ts ++ [mark]) := fun hfed => by
        rw [hfed.startsEntry] at hentry
        cases hentry
      refine ⟨((Seam.Rows.checkNext_brace hbefore hend).resolve_left hfed).trans ?_,
        ((J.rows hinner).startsEntry_eq.resolve_left hfed).trans hentry⟩
      cases ts with
      | nil => simp [Cursor.checkNext, hmark]
      | cons u ts =>
        refine beq_eq_false_iff_ne.2 fun hclosing => ?_
        replace hclosing : u.kind = .rightBrace := hclosing
        simp [closesAtOnce, hclosing] at hnot
    have hindex : Cursor.atIndexAssignment ⟨last, t :: (ts ++ next :: more), i⟩ = false := by
      unfold Cursor.atIndexAssignment
      refine Bool.eq_false_iff.2 fun hat => ?_
      rw [Bool.and_eq_true, Bool.and_eq_true] at hat
      obtain ⟨⟨hname, hbracket⟩, hassigns⟩ := hat
      replace hbracket : Cursor.checkNext ⟨last, t :: (ts ++ [mark]), i⟩ .leftBracket = true :=
        (Seam.Rows.checkNext hbefore hend (by decide)).symm.trans hbracket
      cases ts with
      | nil => simp [Cursor.checkNext, hmark] at hbracket
      | cons u ts =>
        replace hbracket : u.kind = .leftBracket := beq_iff_eq.1 hbracket
        have hsearch := not_assigned_index (next :: more) he (Cursor.kind_of_check hname)
          hbracket hmark (List.forall_mem_cons.1 hinner).2 hread
        exact absurd hassigns (by simp [hsearch])
    simp only [List.cons_append, statement]
    rw [Reads.bind_ok hskip, Reads.get_bind, hpeek]
    generalize hkind : t.kind = kind at hstart hfunction hobject hempty
    split
    case h_8 => rw [if_neg (by rw [hfunction rfl]; decide)]
    case h_10 =>
      obtain ⟨hnone, hentry⟩ := hobject rfl
      rw [if_neg (by rw [hnone]; decide)]
      exact congrFun (if_pos hentry) _
    case h_11 => exact absurd rfl hempty
    case h_13 => rw [if_neg (by rw [hindex]; decide)]
    all_goals exact absurd hstart (by decide)

end

/-! ### Assignments to targets -/

section

variable {fuel : Nat} {c : Cursor} {d e value : Expr} {t : Token} {token : Token → Token → Prop}

theorem isTarget_of_made {k i j : Nat} (hd : d.IsTarget) (hmade : d.Made token k i j e) :
    e.IsTarget := by
  cases hd with
  | name id t =>
    obtain ⟨-, id', t', rfl, -⟩ := made_name hmade
    exact .name id' t'
  | get object t =>
    obtain ⟨object', t', rfl, -, -⟩ := made_get hmade
    exact .get object' t'

/-- Targets that correspond are both assigned to, with as many numbers used up. -/
theorem assignments_to {k i j : Nat} (hd : d.IsTarget) (hmade : d.Made token k i j e) :
    ∃ n, ∀ t value t' value' last rest m last' rest' m', ∃ whole whole',
      d.Assigns value whole ∧ e.Assigns value' whole' ∧
      assignment d t value ⟨last, rest, m⟩ = .ok (whole, ⟨last, rest, m + n⟩) ∧
      assignment e t' value' ⟨last', rest', m'⟩ = .ok (whole', ⟨last', rest', m' + n⟩) := by
  cases hd with
  | name id token =>
    obtain ⟨-, id', token', rfl, -⟩ := made_name hmade
    exact ⟨1, fun _ value _ value' _ _ m _ _ m' =>
      ⟨_, _, .name id m token value, .name id' m' token' value', rfl, rfl⟩⟩
  | get object name =>
    obtain ⟨object', name', rfl, -, -⟩ := made_get hmade
    exact ⟨0, fun _ value _ value' _ _ _ _ _ _ =>
      ⟨_, _, .get object name value, .get object' name' value', rfl, rfl⟩⟩

end

/-! ### The operand -/

/-- The operator with the tokens of its operand, a copy of these to stand in parentheses, and the
operand.  That of `++` and `--` is the number 1, which only the copy spells. -/
inductive Operand (token : Token → Token → Prop) (operator : Token) :
    List Token → List Token → Expr → Prop
  | compound {es es' : List Token} {value : Expr} :
      operator.kind ∈ [.plusAssign, .minusAssign, .timesAssign, .divideAssign] → Spells es value →
      List.Forall₂ token es es' → Operand token operator es es' value
  | step {one : Token} : operator.kind ∈ [.increment, .decrement] → one.kind = .number →
      one.literal = some (.num 1.0) →
      Operand token operator [] [one] (.literal .number (.num 1.0))

section

variable {token : Token → Token → Prop} {operator : Token} {es es' : List Token} {value : Expr}

theorem Operand.kind (h : Operand token operator es es' value) : operator.kind ∈ assigners := by
  cases h with
  | compound hkind | step hkind =>
    revert hkind
    generalize operator.kind = kind
    cases kind <;> decide

theorem Operand.length_le (h : Operand token operator es es' value) : es'.length ≤ es.length + 1 := by
  cases h with
  | compound _ _ hcopy => exact hcopy.length_eq ▸ Nat.le_succ _
  | step => exact Nat.le_refl 1

/-- The number 1 in front of a closing parenthesis. -/
theorem expression_one {one closing last : Token} {more : List Token} {i : NodeId} (fuel : Nat)
    (hkind : one.kind = .number) (hvalue : one.literal = some (.num 1.0))
    (hclosing : closing.kind = .rightParen) :
    expression (fuel + 10) ⟨last, one :: closing :: more, i⟩ =
      .ok (.literal .number (.num 1.0), ⟨one, closing :: more, i⟩) := by
  have hpeek : Cursor.peek ⟨last, one :: closing :: more, i⟩ = one := rfl
  have hpeek' : Cursor.peek ⟨one, closing :: more, i⟩ = closing := rfl
  have hprimary : primary (fuel + 1) ⟨last, one :: closing :: more, i⟩ =
      .ok (.literal .number (.num 1.0), ⟨one, closing :: more, i⟩) := by
    simp only [primary, Reads.get_bind, hpeek, hkind]
    rw [advance_taken (by rw [hkind]; decide)]
    simp only [numberLiteral, hvalue, hkind]
    rfl
  have hunary : unary (fuel + 2) ⟨last, one :: closing :: more, i⟩ =
      .ok (.literal .number (.num 1.0), ⟨one, closing :: more, i⟩) := by
    simp only [unary]
    rw [acceptAny_passed (by rw [hpeek, hkind]; decide)]
    change (primary (fuel + 1) >>= fun head => postfixRest (fuel + 1) head) _ = _
    rw [Reads.bind_ok hprimary]
    simp only [postfixRest]
    rw [accept_passed (by rw [hpeek', hclosing]; decide), if_neg Bool.false_ne_true,
      accept_passed (by rw [hpeek', hclosing]; decide)]
    rfl
  exact expression_plain (binary_passes binaryLevels hunary (by rw [hpeek', hclosing]; decide))
    (by rw [hpeek', hclosing]; decide)

theorem closing_rightParen {closing : Token} (h : closing.kind = .rightParen) : Closing closing := by
  unfold Closing
  rw [h]
  decide

/-- The operand is read behind its operator, and its copy in parentheses. -/
theorem Operand.read (h : Operand token operator es es' value) (hm : Matches token) :
    ∃ j, ∀ opening closing mark mark', closing.kind = .rightParen → mark.kind = .endMark →
      mark'.kind = .endMark → ∀ i k, ∃ v v' l l',
      value.Made Eq i 0 j v ∧ v.Made token k i (j + i) v' ∧
      ∀ fuel, 32 * (es'.length + 1) + 10 ≤ fuel →
        (∀ c target last, binary fuel binaryLevels c =
            .ok (target, ⟨last, operator :: (es ++ [mark]), i⟩) →
          expression (fuel + 1) c = compoundAssignment target operator v ⟨l, [mark], j + i⟩) ∧
        expression fuel ⟨opening, es' ++ [closing, mark'], i + k⟩ =
          .ok (v', ⟨l', [closing, mark'], j + i + k⟩) := by
  cases h with
  | compound hkind hspells hcopy =>
    obtain ⟨j, hread⟩ := hspells.ends_alike hm hcopy
    refine ⟨j, fun opening closing mark mark' hclosing hmark hmark' i k => ?_⟩
    obtain ⟨v, v', l, l', hmade, hmade', hboth⟩ := hread mark mark' hmark hmark' operator opening i k
    refine ⟨v, v', l, l', hmade, hmade', fun fuel hfuel => ?_⟩
    obtain ⟨hv, hv'⟩ := hboth fuel (by rwa [hcopy.length_eq])
    refine ⟨fun c target last htarget => ?_, expression_followed
      (ne_endMark_alike hm hcopy hspells.ne_endMark) hmark' (closing_rightParen hclosing) hv'⟩
    rw [expression_compound htarget hkind, Reads.bind_ok hv]
  | @step one hkind hone hvalue =>
    refine ⟨0, fun opening closing mark mark' hclosing hmark hmark' i k => ?_⟩
    refine ⟨_, _, operator, one, .literal .number (Nat.le_refl 0) (by simp),
      .literal .number (Nat.zero_add i).ge (by simp),
      fun fuel hfuel => ⟨fun c target last htarget => ?_, ?_⟩⟩
    · rw [expression_step htarget hkind, Nat.zero_add]
      rfl
    · obtain ⟨fuel, rfl⟩ : ∃ n, fuel = n + 10 := ⟨_, (Nat.sub_add_cancel (by omega)).symm⟩
      rw [Nat.zero_add]
      exact expression_one fuel hone hvalue hclosing

end

/-! ### Statements that assign to a target -/

section

variable {fuel g : Nat} {last l mark mark' next : Token} {ts ts' more : List Token} {e whole : Expr}
  {i j : NodeId} {d : Cursor} {t : Token} {token : Token → Token → Prop}

theorem startsEmptyBraces_alike (hm : Matches token) (hts : List.Forall₂ token ts ts') :
    startsEmptyBraces ts' = startsEmptyBraces ts := by
  cases hts with
  | nil => rfl
  | cons ht hts => rw [startsEmptyBraces, startsEmptyBraces, (hm.same ht).1, closesAtOnce_alike hm hts]

end

/-! ### Both rows -/

/-- A compound assignment and the assignment that it is short for, as rows of tokens. -/
structure Expansion (token : Token → Token → Prop) where
  target : Expr
  operand : Expr
  targetRow : List Token
  writtenRow : List Token
  readRow : List Token
  operandRow : List Token
  innerRow : List Token
  operator : Token
  equals : Token
  plain : Token
  opening : Token
  closing : Token
  isTarget : target.IsTarget
  spelled : Spells targetRow target
  written : List.Forall₂ token targetRow writtenRow
  read : List.Forall₂ token targetRow readRow
  applied : Operand token operator operandRow innerRow operand
  equals_kind : equals.kind = .assign
  plain_word : (compoundOperator operator).SameWord plain
  opening_kind : opening.kind = .leftParen
  closing_kind : closing.kind = .rightParen

namespace Expansion

variable {token : Token → Token → Prop}

/-- The tokens of `T op= E` or `T++`. -/
def short (x : Expansion token) : List Token := x.targetRow ++ x.operator :: x.operandRow

/-- The tokens of `T = T op (E)`. -/
def long (x : Expansion token) : List Token :=
  x.writtenRow ++ x.equals :: (x.readRow ++ x.plain :: x.opening :: (x.innerRow ++ [x.closing]))

end Expansion

/-- The second expression is the assignment that the first is short for: both assign to the target what
the operator makes of the target and the operand, wherever their tokens stand and whatever the numbers
of their nodes. -/
inductive Expansion.Unfolds {token : Token → Token → Prop} (x : Expansion token) : Expr → Expr → Prop
  | mk {d d₁ d₂ v v₁ whole whole₁ : Expr} {i j i' j' : Nat} :
      x.target.Made Eq i 0 j d → x.operand.Made Eq i' 0 j' v →
      d.Assigns (.binary d (compoundOperator x.operator) v) whole →
      d₁.Assigns (.binary d₂ x.plain (.grouping v₁)) whole₁ →
      d.Paraphrases (fun _ _ => True) d₁ → d.Paraphrases (fun _ _ => True) d₂ → d₂.IsTarget →
      v.Paraphrases (fun _ _ => True) v₁ → x.Unfolds whole whole₁

namespace Expansion

variable {token : Token → Token → Prop}

/-- What corresponds says the same. -/
theorem says_shifting (hm : Matches token) (k : Nat) :
    (shifting token k).Says fun _ _ => True where
  token ht := ⟨(hm.same ht).1, (hm.same ht).2.1⟩
  name ht := ⟨(hm.same ht).1, (hm.same ht).2.1⟩
  node _ _ _ := trivial
  spelled := trivial

theorem paraphrases_of_made (hm : Matches token) {e e' : Expr} {k i j : Nat}
    (h : e.Made token k i j e') : e.Paraphrases (fun _ _ => True) e' :=
  Expr.Alike.paraphrases (says_shifting hm k) e (h .top).1

/-- A token behind which no row goes on, and that makes an assignment of what is in front of it. -/
theorem assigners_apart {kind : Token.Kind} (h : kind ∈ assigners) :
    kind ∉ soughtAhead ∧ kind ∉ postfixFollowers ∧ ∀ operators ∈ binaryLevels, kind ∉ operators := by
  revert h
  cases kind <;> decide

theorem arithmetic_apart {kind : Token.Kind} (h : kind ∈ arithmetic) :
    kind ∉ soughtAhead ∧ kind ∉ postfixFollowers := by
  revert h
  cases kind <;> decide

theorem compoundOperator_arithmetic (t : Token) : (compoundOperator t).kind ∈ arithmetic := by
  unfold compoundOperator
  split <;> simp [Token.derived, arithmetic]

theorem equals_assigns (x : Expansion token) : x.equals.kind ∈ assigners := by
  rw [x.equals_kind]
  decide

theorem plain_arithmetic (x : Expansion token) : x.plain.kind ∈ arithmetic := by
  rw [x.plain_word.kind]
  exact compoundOperator_arithmetic x.operator

/-- The targets of both rows, read from the same number, and what the second row reads. -/
theorem targets (x : Expansion token) (hm : Matches token) : ∃ j, ∀ mark, mark.kind = .endMark →
    ∀ last last₁ last₂ i, ∃ d d₁ d₂ l l₁ l₂, x.target.Made Eq i 0 j d ∧
      d.Made token 0 i (j + i) d₁ ∧ d.Made token j i (j + i) d₂ ∧
      ∀ fuel, 32 * (x.targetRow.length + 1) + 2 ≤ fuel →
        unary fuel ⟨last, x.targetRow ++ [mark], i⟩ = .ok (d, ⟨l, [mark], j + i⟩) ∧
        unary fuel ⟨last₁, x.writtenRow ++ [mark], i⟩ = .ok (d₁, ⟨l₁, [mark], j + i⟩) ∧
        unary fuel ⟨last₂, x.readRow ++ [mark], j + i⟩ = .ok (d₂, ⟨l₂, [mark], j + i + j⟩) := by
  obtain ⟨j, hwritten⟩ := x.spelled.ends_alike hm x.written
  obtain ⟨j', hread⟩ := x.spelled.ends_alike hm x.read
  refine ⟨j, fun mark hmark last last₁ last₂ i => ?_⟩
  obtain ⟨d, d₁, l, l₁, hmade, hmade₁, hboth⟩ := hwritten mark mark hmark hmark last last₁ i 0
  obtain ⟨d', d₂, l', l₂, hmade', hmade₂, hboth'⟩ := hread mark mark hmark hmark last last₂ i j
  obtain ⟨room, hroom⟩ : ∃ n, n = 32 * (x.targetRow.length + 1) + 10 := ⟨_, rfl⟩
  obtain ⟨hd, hc⟩ := Prod.mk.inj (Except.ok.inj
    ((hboth' room hroom.ge).1.symm.trans (hboth room hroom.ge).1))
  obtain rfl : j' = j := Nat.add_right_cancel (Cursor.mk.inj hc).2.2
  subst hd
  have ht := isTarget_of_made x.isTarget hmade
  refine ⟨d', d₁, d₂, l, l₁, l₂, hmade, hmade₁, hmade₂, fun fuel hfuel => ?_⟩
  obtain ⟨h, h₁⟩ := hboth (fuel + 8) (by omega)
  obtain ⟨-, h₂⟩ := hboth' (fuel + 8) (by omega)
  rw [Nat.add_comm i j'] at h₂
  exact ⟨unary_of_expression ht h, unary_of_expression (isTarget_of_made ht hmade₁) h₁,
    unary_of_expression (isTarget_of_made ht hmade₂) h₂⟩

/-- How deep the productions may call each other on the two rows. -/
def room (x : Expansion token) : Nat := 32 * (x.targetRow.length + x.operandRow.length + 4)

/-- Both rows are read to the end, from the same number. -/
theorem read_marked (x : Expansion token) (hm : Matches token) {mark mark' : Token}
    (hmark : mark.kind = .endMark) (hmark' : mark'.kind = .endMark) (last last' : Token)
    (i : NodeId) : ∃ whole whole₁ l l₁ j j₁, x.Unfolds whole whole₁ ∧ ∀ fuel, x.room ≤ fuel →
      expression fuel ⟨last, x.short ++ [mark], i⟩ = .ok (whole, ⟨l, [mark], j⟩) ∧
      expression fuel ⟨last', x.long ++ [mark'], i⟩ = .ok (whole₁, ⟨l₁, [mark'], j₁⟩) := by
  obtain ⟨n, htargets⟩ := x.targets hm
  obtain ⟨j, hoperand⟩ := x.applied.read hm
  -- the trees
  obtain ⟨d, d₁, d₂, l, l₁, l₂, hd, hd₁, hd₂, htargets⟩ := htargets mark hmark last last' x.equals i
  obtain ⟨v, v₁, m, m₁, hv, hv₁, hoperand⟩ :=
    hoperand x.opening x.closing mark mark' x.closing_kind hmark hmark' (n + i) n
  have ht := isTarget_of_made x.isTarget hd
  have ht₁ := isTarget_of_made ht hd₁
  obtain ⟨used, hassign⟩ := assignments_to ht hd₁
  obtain ⟨whole, whole₁, hwhole, hwhole₁, hshort, hlong⟩ := hassign x.operator
    (.binary d (compoundOperator x.operator) v) x.equals (.binary d₂ x.plain (.grouping v₁))
    m [mark] (j + (n + i)) x.closing [mark'] (j + (n + i) + n)
  -- what the tokens between them are
  obtain ⟨hop, hop', hopLevels⟩ := assigners_apart x.applied.kind
  obtain ⟨heq, heq', heqLevels⟩ := assigners_apart x.equals_assigns
  obtain ⟨hpl, hpl'⟩ := arithmetic_apart x.plain_arithmetic
  have htarget := x.spelled.ne_endMark
  have hwritten := ne_endMark_alike hm x.written htarget
  have hread := ne_endMark_alike hm x.read htarget
  have hinner := x.applied.length_le
  refine ⟨whole, whole₁, m, x.closing, j + (n + i) + used, j + (n + i) + n + used,
    .mk hd hv hwhole hwhole₁ (paraphrases_of_made hm hd₁)
    (paraphrases_of_made hm hd₂) (isTarget_of_made ht hd₂) (paraphrases_of_made hm hv₁),
    fun fuel hfuel => ?_⟩
  unfold room at hfuel
  obtain ⟨g, rfl⟩ : ∃ g, fuel = g + 12 := ⟨_, (Nat.sub_add_cancel (by omega)).symm⟩
  constructor
  · have hunary := (htargets (g + 4) (by omega)).1
    have hbinary := binary_passes binaryLevels
      (unary_followed (x.operandRow ++ [mark]) htarget hmark hop hop' hunary) hopLevels
    have hexpression := (hoperand (g + 11) (by omega)).1 _ _ _ hbinary
    rw [compoundAssignment_eq ht, hshort] at hexpression
    simpa [short] using hexpression
  · have hunary := (htargets (g + 4) (by omega)).2.1
    let inner := x.innerRow ++ [x.closing, mark']
    have hbinary : binary (g + 11) binaryLevels
        ⟨last', x.writtenRow ++ x.equals :: (x.readRow ++ x.plain :: x.opening :: inner), i⟩ =
        .ok (d₁, ⟨l₁, x.equals :: (x.readRow ++ x.plain :: x.opening :: inner), n + i⟩) :=
      binary_passes binaryLevels (unary_followed _ hwritten hmark heq heq' hunary) heqLevels
    have hleft := unary_followed (x.opening :: inner) hread hmark hpl hpl'
      (htargets (g + 3) (by omega)).2.2
    have hright := unary_grouping x.plain x.opening_kind x.closing_kind hmark'
      (hoperand g (by omega)).2
    have hvalue : expression (g + 11)
        ⟨x.equals, x.readRow ++ x.plain :: x.opening :: inner, n + i⟩ =
        .ok (.binary d₂ x.plain (.grouping v₁), ⟨x.closing, [mark'], j + (n + i) + n⟩) :=
      expression_plain (binary_arithmetic x.plain_arithmetic hleft hright hmark') (by
        change mark'.kind ∉ _
        rw [hmark']
        decide)
    have hexpression := expression_assign hbinary x.equals_kind
    rw [Reads.bind_ok hvalue, hlong] at hexpression
    simpa [long, inner] using hexpression

/-- Assignments of values that say the same to targets that say the same. -/
theorem assigns_paraphrase {d d₁ value value₁ whole whole₁ : Expr} (h : d.Assigns value whole)
    (h₁ : d₁.Assigns value₁ whole₁) (hd : d.Paraphrases (fun _ _ => True) d₁)
    (hvalue : value.Paraphrases (fun _ _ => True) value₁) :
    whole.Paraphrases (fun _ _ => True) whole₁ := by
  cases h with
  | name id id' name value =>
    obtain ⟨_, _, hd, -, hname⟩ := hd
    cases h₁ with
    | name =>
      obtain ⟨-, rfl⟩ := Expr.name.inj hd
      exact ⟨_, _, _, rfl, trivial, hname, hvalue⟩
    | get => cases hd
  | get object name value =>
    obtain ⟨_, _, hd, hname, hobject⟩ := hd
    cases h₁ with
    | name => cases hd
    | get =>
      obtain ⟨rfl, rfl⟩ := Expr.get.inj hd
      exact ⟨_, _, _, rfl, hname, hobject, hvalue⟩

/-- The assignment says the same as the one that it is short for. -/
theorem Unfolds.paraphrases {x : Expansion token} {e e' : Expr} (h : x.Unfolds e e') :
    e.Paraphrases (fun _ _ => True) e' := by
  cases h with
  | @mk _ _ _ v v₁ _ _ _ _ _ _ _ _ hwhole hwhole₁ hd₁ hd₂ _ hv₁ =>
    have hbare : v.Paraphrases (fun _ _ => True) v₁.bare :=
      (Expr.paraphrases_bare_right v).2 hv₁
    exact assigns_paraphrase hwhole hwhole₁ hd₁
      ⟨_, _, _, rfl, x.plain_word, hd₂, (Expr.paraphrases_bare_right v).1 hbare⟩

end Expansion

/-! ### In the place of a statement -/

section

variable {n m fuel : Nat} {ts ts' us more post : List Token} {t next last : Token} {e : Expr}
  {i : NodeId}
  {d : Cursor} {token : Token → Token → Prop}

theorem Brackets.alike (h : Brackets n ts m) (hm : Matches token) (hts : List.Forall₂ token ts ts') :
    Brackets n ts' m := by
  induction h generalizing ts' with
  | nil =>
    cases hts
    exact .nil
  | opening ht _ ih =>
    cases hts with
    | cons hu hts => exact .opening ((hm.same hu).1.trans ht) (ih hts)
  | closing ht _ ih =>
    cases hts with
    | cons hu hts => exact .closing ((hm.same hu).1.trans ht) (ih hts)
  | other ht _ ih =>
    cases hts with
    | cons hu hts => exact .other ((hm.same hu).1 ▸ ht) (ih hts)

theorem joint_alike (hm : Matches token) (hts : List.Forall₂ token ts ts') :
    (∃ t ∈ ts', t.kind ∈ joints) ↔ ∃ t ∈ ts, t.kind ∈ joints := by
  induction hts with
  | nil => rfl
  | cons ht _ ih => simp only [List.exists_mem_cons_iff, (hm.same ht).1, ih]

/-- The tokens of an operand and its copy are pairs of brackets. -/
theorem Operand.brackets {operator : Token} {es es' : List Token} {value : Expr}
    (h : Operand token operator es es' value) (hm : Matches token) :
    Brackets 0 es 0 ∧ Brackets 0 es' 0 := by
  cases h with
  | compound _ hspells hcopy => exact ⟨hspells.brackets, hspells.brackets.alike hm hcopy⟩
  | step _ hone => exact ⟨.nil, .single (by rw [hone]; decide)⟩

theorem Operand.joint_iff {operator : Token} {es es' : List Token} {value : Expr}
    (h : Operand token operator es es' value) (hm : Matches token) :
    (∃ t ∈ es', t.kind ∈ joints) ↔ ∃ t ∈ es, t.kind ∈ joints := by
  cases h with
  | compound _ _ hcopy => exact joint_alike hm hcopy
  | step _ hone =>
    simp only [List.exists_mem_cons_iff, hone]
    decide

/-- An operand is no more than a name if no bracket, parenthesis or dot follows. -/
theorem unary_name (ht : t.kind = .name) (hnext : next.kind ∉ [.leftBracket, .leftParen, .dot])
    (h : unary fuel ⟨last, t :: next :: ts, i⟩ = .ok (e, d)) : d.rest = next :: ts := by
  have hpeek : Cursor.peek ⟨last, t :: next :: ts, i⟩ = t := rfl
  simp only [List.mem_cons, List.not_mem_nil, or_false, not_or] at hnext
  obtain ⟨hbracket, hparen, hdot⟩ := hnext
  cases fuel with
  | zero => cases h
  | succ fuel =>
    obtain ⟨head, c₁, hhead, hrest⟩ := primary_of_unary h (by rw [hpeek, ht]; decide)
    cases fuel with
    | zero => cases hhead
    | succ fuel =>
      simp only [primary, Reads.get_bind, hpeek, ht] at hhead
      rw [advance_taken (by rw [ht]; decide), freshId_taken,
        accept_passed (c := ⟨t, next :: ts, i + 1⟩) hbracket] at hhead
      obtain ⟨rfl, rfl⟩ := Prod.mk.inj (Except.ok.inj hhead)
      simp only [postfixRest] at hrest
      rw [accept_passed (c := ⟨t, next :: ts, i + 1⟩) hparen, if_neg Bool.false_ne_true,
        accept_passed (c := ⟨t, next :: ts, i + 1⟩) hdot] at hrest
      obtain ⟨-, rfl⟩ := Prod.mk.inj (Except.ok.inj hrest)
      rfl

/-- An assignment to a target that does not start with empty braces, in the place of a statement. -/
theorem sentence_of_target (hbraces : startsEmptyBraces ts = false)
    (hts : ∀ t ∈ ts, t.kind ≠ .endMark) (hnext : next.kind ∈ assigners)
    (hbrackets : Brackets 0 (ts ++ next :: more) 0)
    (hread : ∀ last i, ∃ fuel mark e l k, mark.kind = .endMark ∧ e.IsTarget ∧
      unary (fuel + 1) ⟨last, ts ++ [mark], i⟩ = .ok (e, ⟨l, [mark], k⟩)) :
    Sentence (ts ++ next :: more) post where
  brackets := hbrackets
  no_entry := by
    obtain ⟨fuel, mark, e, l, k, hmark, -, hread⟩ := hread next 0
    have hstart := starter_of_unary hread
    cases ts with
    | nil => exact absurd hmark (starter_ne hstart (by decide))
    | cons t ts =>
      replace hstart : t.kind ∈ expressionStarters := hstart
      rw [List.cons_append, List.cons_append, startsEntry_cons, if_neg (starter_ne hstart (by decide)),
        Bool.and_eq_false_iff, beq_eq_false_iff_ne, Classical.or_iff_not_imp_left]
      intro hname
      rw [Classical.not_not] at hname
      cases ts with
      | nil =>
        refine beq_eq_false_iff_ne.2 fun hcolon => ?_
        rw [hcolon] at hnext
        exact absurd hnext (by decide)
      | cons u ts =>
        refine beq_eq_false_iff_ne.2 fun hcolon => ?_
        replace hread : unary (fuel + 1) ⟨next, t :: u :: (ts ++ [mark]), 0⟩ =
          .ok (e, ⟨l, [mark], k⟩) := hread
        have hrest := unary_name hname (by rw [hcolon]; decide) hread
        obtain ⟨rfl, -⟩ := List.cons.inj hrest
        rw [hmark] at hcolon
        cases hcolon
  statement fuel last i := by
    obtain ⟨fuel', mark, e, l, k, hmark, he, hread⟩ := hread last i
    rw [List.append_assoc]
    exact statement_target fuel he hbraces hmark hts hread (Expansion.assigners_apart hnext).1

/-- An expression that may stand as a statement is a program of its own. -/
theorem parseFrom_of_sentence {row : List Token} {mark l : Token} {room : Nat} {j : NodeId}
    (h : Sentence row [mark]) (hrow : row = t :: ts) (ht : t.kind ∈ expressionStarters)
    (hmark : mark.kind = .endMark)
    (hread : ∀ fuel, room ≤ fuel → expression fuel ⟨t, row ++ [mark], i⟩ = .ok (e, ⟨l, [mark], j⟩)) :
    parseFrom i (row ++ [mark]) = .ok ([.expression e t], j) := by
  subst hrow
  have hfeed : t.kind ≠ .newline := starter_ne ht (by decide)
  have hskip : skipNewlines ⟨t, t :: ts ++ [mark], i⟩ = .ok ((), ⟨t, t :: ts ++ [mark], i⟩) :=
    skipNewlines_before hfeed
  have hskip' : skipNewlines ⟨l, [mark], j⟩ = .ok ((), ⟨l, [mark], j⟩) :=
    skipNewlines_before (by
      change mark.kind ≠ _
      rw [hmark]
      decide)
  have hpeek : Cursor.peek ⟨t, t :: ts ++ [mark], i⟩ = t := rfl
  have hstatement : statement (room + 2) ⟨t, t :: ts ++ [mark], i⟩ =
      .ok (.expression e t, ⟨l, [mark], j⟩) := by
    rw [h.statement]
    simp only [expressionStatement, Reads.peek_bind, hpeek]
    rw [Reads.bind_ok (hread room (Nat.le_refl _)), statementEnd_mark hmark]
    rfl
  have htop : topStatement (room + 2) ⟨t, t :: ts ++ [mark], i⟩ =
      .ok (.expression e t, ⟨l, [mark], j⟩) := by
    unfold topStatement
    rw [Reads.bind_ok hstatement, Reads.bind_ok hskip']
    rfl
  have hend : Cursor.atEnd ⟨t, t :: ts ++ [mark], i⟩ = false := by
    simpa [Cursor.atEnd, Cursor.peek] using starter_ne ht (by decide)
  have hrow : programRow (room + 2) ⟨t, t :: ts ++ [mark], i⟩ =
      .ok ([.expression e t], ⟨l, [mark], j⟩) := by
    rw [programRow_cons hend htop (by simp),
      programRow_atEnd (by simp [Cursor.atEnd, Cursor.peek, hmark])]
    rfl
  have hmarked : ∃ u ∈ t :: ts ++ [mark], u.kind = .endMark := ⟨mark, by simp, hmark⟩
  exact Replacement.parseFrom_of_room hmarked hskip hrow

end

/-- The tokens around a statement, in two sources, and the beginning of a declaration. -/
structure Gap (token : Token → Token → Prop) where
  pre : List Token
  pre' : List Token
  post : List Token
  post' : List Token
  word : Token
  name : Token
  equals : Token
  pres : List.Forall₂ token pre pre'
  posts : List.Forall₂ token post post'
  marked : ∃ t ∈ post, t.kind = .endMark
  ends : ∃ t ts, post = t :: ts ∧ t.kind.isTerminator = true
  word_kind : word.kind ∈ declarationKinds
  name_kind : name.kind = .name
  equals_kind : equals.kind = .assign

namespace Gap

variable {token : Token → Token → Prop}

/-- The first source, with a row in the place. -/
def first (G : Gap token) (row : List Token) : List Token := G.pre ++ (row ++ G.post)

/-- The second source, with a row in the place. -/
def second (G : Gap token) (row : List Token) : List Token := G.pre' ++ (row ++ G.post')

theorem ends_alike (G : Gap token) (hm : Matches token) :
    ∃ t ts, G.post' = t :: ts ∧ t.kind.isTerminator = true := by
  obtain ⟨t, ts, hpost, ht⟩ := G.ends
  have hposts := G.posts
  rw [hpost] at hposts
  obtain ⟨t', ts', ht', -, hpost'⟩ := List.forall₂_cons_left_iff.1 hposts
  exact ⟨t', ts', hpost', by rwa [(hm.same ht').1]⟩

/-- The second source in the place of the first. -/
def swap (G : Gap token) (hm : Matches token) (hsymm : ∀ {t t' : Token}, token t t' → token t' t) :
    Gap token where
  pre := G.pre'
  pre' := G.pre
  post := G.post'
  post' := G.post
  word := G.word
  name := G.name
  equals := G.equals
  pres := (G.pres.imp fun _ _ => hsymm).flip
  posts := (G.posts.imp fun _ _ => hsymm).flip
  marked := marked_alike hm G.posts G.marked
  ends := G.ends_alike hm
  word_kind := G.word_kind
  name_kind := G.name_kind
  equals_kind := G.equals_kind

/-- The row may be the value of a new variable there, so that the place is that of a statement. -/
def Admits (G : Gap token) (row : List Token) : Prop :=
  ∃ p, parse (G.first (G.word :: G.name :: G.equals :: row)) = .ok p

/-- So may the row in the second source. -/
def AdmitsSecond (G : Gap token) (row : List Token) : Prop :=
  ∃ p, parse (G.second (G.word :: G.name :: G.equals :: row)) = .ok p

end Gap

namespace Expansion

variable {token : Token → Token → Prop}

/-- Both rows start with tokens that correspond. -/
theorem starts (x : Expansion token) (hm : Matches token) : ∃ t t' ts ts', x.short = t :: ts ∧
    x.long = t' :: ts' ∧ token t t' ∧ t.kind ∈ expressionStarters ∧ t'.kind ∈ expressionStarters := by
  obtain ⟨fuel, last, mark, c, hmark, hread, -⟩ := x.spelled
  have hstart := starter_of_expression hread
  have hwritten := x.written
  cases hrow : x.targetRow with
  | nil =>
    rw [hrow] at hstart
    exact absurd hmark (starter_ne hstart (by decide))
  | cons t ts =>
    rw [hrow] at hstart hwritten
    cases hrow' : x.writtenRow with
    | nil =>
      rw [hrow'] at hwritten
      cases hwritten
    | cons t' ts' =>
      rw [hrow'] at hwritten
      replace hstart : t.kind ∈ expressionStarters := hstart
      have ht := (List.forall₂_cons.1 hwritten).1
      exact ⟨t, t', _, _, by rw [short, hrow]; rfl, by rw [long, hrow']; rfl, ht, hstart,
        by rwa [(hm.same ht).1]⟩

theorem short_brackets (x : Expansion token) (hm : Matches token) : Brackets 0 x.short 0 := by
  have hop : x.operator.kind ∉ [.leftBracket, .rightBracket, .endMark] := by
    have hkind := x.applied.kind
    revert hkind
    generalize x.operator.kind = kind
    cases kind <;> decide
  exact x.spelled.brackets.append (.other hop (x.applied.brackets hm).1)

theorem long_brackets (x : Expansion token) (hm : Matches token) : Brackets 0 x.long 0 := by
  have hother : ∀ {t : Token} {ts : List Token},
      t.kind ∈ [.assign, .leftParen, .rightParen] ++ arithmetic → Brackets 0 ts 0 →
        Brackets 0 (t :: ts) 0 := by
    intro t ts ht hts
    refine .other ?_ hts
    revert ht
    generalize t.kind = kind
    cases kind <;> decide
  have htarget := x.spelled.brackets
  refine (htarget.alike hm x.written).append (hother (by simp [x.equals_kind]) ?_)
  refine (htarget.alike hm x.read).append (hother (List.mem_append_right _ x.plain_arithmetic) ?_)
  refine hother (by simp [x.opening_kind]) ((x.applied.brackets hm).2.append ?_)
  exact hother (by simp [x.closing_kind]) .nil

/-- Line feeds and semicolons stand in both rows or in neither. -/
theorem joint_iff (x : Expansion token) (hm : Matches token) :
    (∃ t ∈ x.short, t.kind ∈ joints) ↔ ∃ t ∈ x.long, t.kind ∈ joints := by
  have hother : ∀ kind ∈ [.assign, .leftParen, .rightParen] ++ arithmetic ++ assigners,
      kind ∉ joints := by decide
  have hoperator : x.operator.kind ∉ joints :=
    hother _ (List.mem_append_right _ x.applied.kind)
  have hplain : x.plain.kind ∉ joints :=
    hother _ (List.mem_append_left _ (List.mem_append_right _ x.plain_arithmetic))
  have hequals : x.equals.kind ∉ joints := hother _ (by simp [x.equals_kind])
  have hopening : x.opening.kind ∉ joints := hother _ (by simp [x.opening_kind])
  have hclosing : x.closing.kind ∉ joints := hother _ (by simp [x.closing_kind])
  have happend : ∀ ts us : List Token, (∃ t ∈ ts ++ us, t.kind ∈ joints) ↔
      (∃ t ∈ ts, t.kind ∈ joints) ∨ ∃ t ∈ us, t.kind ∈ joints := by
    intro ts us
    simp only [List.mem_append, or_and_right, exists_or]
  simp only [short, long, happend, List.exists_mem_cons_iff, hoperator, hplain, hequals, hopening,
    hclosing, joint_alike hm x.written, joint_alike hm x.read, x.applied.joint_iff hm, false_or]
  simp only [List.not_mem_nil, false_and, exists_false, or_false, or_self_left]

theorem short_sentence (x : Expansion token) (hm : Matches token)
    (hbraces : startsEmptyBraces x.targetRow = false) (post : List Token) :
    Sentence x.short post := by
  obtain ⟨j, htargets⟩ := x.targets hm
  refine sentence_of_target hbraces x.spelled.ne_endMark x.applied.kind (x.short_brackets hm)
    fun last i => ?_
  obtain ⟨d, d₁, d₂, l, l₁, l₂, hd, -, -, hread⟩ :=
    htargets (.plain .endMark "") rfl last last last i
  exact ⟨_, _, d, l, _, rfl, isTarget_of_made x.isTarget hd, (hread _ (Nat.le_succ _)).1⟩

theorem long_sentence (x : Expansion token) (hm : Matches token)
    (hbraces : startsEmptyBraces x.targetRow = false) (post : List Token) :
    Sentence x.long post := by
  obtain ⟨j, htargets⟩ := x.targets hm
  refine sentence_of_target ((startsEmptyBraces_alike hm x.written).trans hbraces)
    (ne_endMark_alike hm x.written x.spelled.ne_endMark) x.equals_assigns (x.long_brackets hm)
    fun last i => ?_
  obtain ⟨d, d₁, d₂, l, l₁, l₂, hd, hd₁, -, hread⟩ :=
    htargets (.plain .endMark "") rfl last last last i
  exact ⟨_, _, d₁, l₁, _, rfl, isTarget_of_made (isTarget_of_made x.isTarget hd) hd₁,
    (hread _ (Nat.le_succ _)).2.1⟩

/-- Where the assignment may stand as a statement, what it is short for may. -/
def replacement (x : Expansion token) (hm : Matches token)
    (hbraces : startsEmptyBraces x.targetRow = false) (G : Gap token) : Replacement token where
  row := x.short
  row' := x.long
  post := G.post
  post' := G.post'
  word := G.word
  name := G.name
  equals := G.equals
  room := x.room
  tokens := hm
  word_kind := G.word_kind
  name_kind := G.name_kind
  equals_kind := G.equals_kind
  posts := G.posts
  marked := G.marked
  starts := by
    obtain ⟨t, t', ts, ts', hrow, hrow', ht, hstart, -⟩ := x.starts hm
    exact ⟨t, t', ts, ts', hrow, hrow', ht, hstart⟩
  sentence := x.short_sentence hm hbraces G.post
  sentence' := x.long_sentence hm hbraces G.post'
  joints := x.joint_iff hm
  read last last' i := by
    obtain ⟨t, ts, hpost, ht⟩ := G.ends
    obtain ⟨t', ts', hpost', ht'⟩ := G.ends_alike hm
    rw [hpost, hpost']
    obtain ⟨mark, hmark, hread⟩ := exists_mark_before ht ts
    obtain ⟨mark', hmark', hread'⟩ := exists_mark_before ht' ts'
    obtain ⟨e, e', l, l', j, j', hunfolds, hboth⟩ := x.read_marked hm hmark hmark' last last' i
    refine ⟨e, e', l, l', j, j', hunfolds.paraphrases, fun fuel hfuel => ?_⟩
    exact ⟨hread (x.short_brackets hm).ne_endMark (hboth fuel hfuel).1,
      hread' (x.long_brackets hm).ne_endMark (hboth fuel hfuel).2⟩

/-- Either row may be a program of its own. -/
theorem parseFrom_alone (x : Expansion token) (hm : Matches token)
    (hbraces : startsEmptyBraces x.targetRow = false) {mark mark' : Token}
    (hmark : mark.kind = .endMark) (hmark' : mark'.kind = .endMark) (i : NodeId) :
    ∃ e e' t t' j j', x.Unfolds e e' ∧
      parseFrom i (x.short ++ [mark]) = .ok ([.expression e t], j) ∧
      parseFrom i (x.long ++ [mark']) = .ok ([.expression e' t'], j') := by
  obtain ⟨t, t', ts, ts', hrow, hrow', -, ht, ht'⟩ := x.starts hm
  obtain ⟨e, e', l, l', j, j', hunfolds, hread⟩ := x.read_marked hm hmark hmark' t t' i
  refine ⟨e, e', t, t', j, j', hunfolds, ?_, ?_⟩
  · exact parseFrom_of_sentence (x.short_sentence hm hbraces [mark]) hrow ht hmark fun fuel hfuel =>
      (hread fuel hfuel).1
  · exact parseFrom_of_sentence (x.long_sentence hm hbraces [mark']) hrow' ht' hmark'
      fun fuel hfuel => (hread fuel hfuel).2

end Expansion

end Grammar

end ScopedScript
