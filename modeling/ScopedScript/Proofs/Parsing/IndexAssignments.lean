import ScopedScript.Proofs.Parsing.Expressions

/-! # Assignments to an index

Whether a statement that starts with a name and a bracket is an assignment to an index is decided by a
search for the bracket that closes the index (`Cursor.atIndexAssignment`).  The search counts brackets,
while the index is read by the production for expressions.

The two agree on the brackets: an expression has them in pairs.  They do not agree on where a line
ends.  An expression may have line feeds in it, between the arguments of a call for instance, and line
feeds and semicolons in the body of a function, and the search gives up at the first of them.  Then the
assignment is refused although its index and its value could both be read
(`index_assignment_unless_separated`). -/

namespace ScopedScript

namespace Grammar

/-! ### Programs of one statement -/

section

variable {t mark last : Token} {ts : List Token} {s : Stmt} {i j : NodeId} {e : Failure}

/-- A statement up to the end mark is a program. -/
theorem parseFrom_of_statement (ht : t.kind ≠ .newline) (ht' : t.kind ≠ .endMark)
    (hts : ts ≠ []) (hmark : mark.kind = .endMark)
    (hs : statement (depthBound (ts.length + 1)) ⟨t, t :: ts, i⟩ = .ok (s, ⟨last, [mark], j⟩)) :
    parseFrom i (t :: ts) = .ok ([s], j) := by
  have hskip : skipNewlines ⟨t, t :: ts, i⟩ = .ok ((), ⟨t, t :: ts, i⟩) := by
    rw [Reads.skipNewlines_eq, dropNewlines, if_neg ht]
    rfl
  have hskip' : skipNewlines ⟨last, [mark], j⟩ = .ok ((), ⟨last, [mark], j⟩) := by
    rw [Reads.skipNewlines_eq, dropNewlines, if_neg (by rw [hmark]; decide)]
    rfl
  have htop : topStatement (depthBound (ts.length + 1)) ⟨t, t :: ts, i⟩ =
      .ok (s, ⟨last, [mark], j⟩) := by
    unfold topStatement
    rw [Reads.bind_ok hs, Reads.bind_ok hskip']
    rfl
  have hend : Cursor.atEnd ⟨t, t :: ts, i⟩ = false := by
    simpa [Cursor.atEnd, Cursor.peek] using ht'
  have hlt : [mark].length < (t :: ts).length := by
    simpa using List.length_pos_iff.2 hts
  have hrow : programRow (depthBound (ts.length + 1)) ⟨t, t :: ts, i⟩ =
      .ok ([s], ⟨last, [mark], j⟩) := by
    rw [programRow_cons hend htop hlt,
      programRow_atEnd (by simp [Cursor.atEnd, Cursor.peek, hmark])]
    rfl
  exact parseFrom_of_programRow hskip hrow

/-- A fault in a statement is one of the program. -/
theorem parseFrom_of_statement_error (ht : t.kind ≠ .newline) (ht' : t.kind ≠ .endMark)
    (hs : statement (depthBound (ts.length + 1)) ⟨t, t :: ts, i⟩ = .error e) :
    parseFrom i (t :: ts) = .error e := by
  have hskip : skipNewlines ⟨t, t :: ts, i⟩ = .ok ((), ⟨t, t :: ts, i⟩) := by
    rw [Reads.skipNewlines_eq, dropNewlines, if_neg ht]
    rfl
  have htop : topStatement (depthBound (ts.length + 1)) ⟨t, t :: ts, i⟩ = .error e := by
    unfold topStatement
    change (statement _ _ >>= fun p => _) = _
    rw [hs]
    rfl
  have hend : Cursor.atEnd ⟨t, t :: ts, i⟩ = false := by
    simpa [Cursor.atEnd, Cursor.peek] using ht'
  rw [parseFrom_cons, hskip]
  change (programRow _ _).map _ = _
  rw [programRow_error hend htop]
  rfl

end

/-! ### The statement -/

section

variable {name opening closing equals mark : Token} {es vs : List Token} {e v : Expr}

/-- What is searched from a name on: a bracket that closes the index, and `=` behind it. -/
theorem atIndexAssignment_spelled (hname : name.kind = .name)
    (hopening : opening.kind = .leftBracket) (hclosing : closing.kind = .rightBracket)
    (hequals : equals.kind = .assign) (hes : Brackets 0 es 0) (last : Token) (rest : List Token)
    (i : NodeId) :
    Cursor.atIndexAssignment ⟨last, name :: opening :: (es ++ closing :: equals :: rest), i⟩ = true ↔
      ∀ t ∈ es, t.kind ∉ joints := by
  have hfront : ∀ b : Bool, (Cursor.check ⟨last, name :: opening :: (es ++ closing :: equals :: rest),
      i⟩ .name && Cursor.checkNext ⟨last, name :: opening :: (es ++ closing :: equals :: rest), i⟩
      .leftBracket && b) = b := by
    simp [Cursor.check, Cursor.checkNext, Cursor.atEnd, Cursor.peek, hname, hopening]
  unfold Cursor.atIndexAssignment
  rw [hfront]
  simp only [List.tail_cons, assignsAfterBracket, hopening]
  by_cases hjoint : ∃ t ∈ es, t.kind ∈ joints
  · rw [hes.assignsAfterBracket_joint hjoint]
    simpa using hjoint
  · have hplain : ∀ t ∈ es, t.kind ∉ joints := fun t ht h => hjoint ⟨t, ht, h⟩
    rw [hes.assignsAfterBracket_append hplain]
    exact iff_of_true (by simp [assignsAfterBracket, hclosing, hequals]) hplain

theorem closing_closing (h : closing.kind = .rightBracket) : Closing closing := by
  unfold Closing
  rw [h]
  decide

/-- Name, index and value, read as an assignment. -/
theorem indexAssignment_read (hname : name.kind = .name)
    (hopening : opening.kind = .leftBracket) (hclosing : closing.kind = .rightBracket)
    (hequals : equals.kind = .assign) (hmark : mark.kind = .endMark) {fuel : Nat}
    {i j k : NodeId} {last last₁ last₂ : Token}
    (he : expression fuel ⟨opening, es ++ closing :: equals :: (vs ++ [mark]), i + 1⟩ =
      .ok (e, ⟨last₁, closing :: equals :: (vs ++ [mark]), j⟩))
    (hv : expression fuel ⟨equals, vs ++ [mark], j⟩ = .ok (v, ⟨last₂, [mark], k⟩)) :
    indexAssignment (fuel + 1)
        ⟨last, name :: opening :: (es ++ closing :: equals :: (vs ++ [mark])), i⟩ =
      .ok (.indexAssign i name e v, ⟨last₂, [mark], k⟩) := by
  simp only [indexAssignment]
  rw [advance_taken (by rw [hname]; decide), freshId_taken,
    expect_taken hopening (by decide), Reads.bind_ok he, expect_taken hclosing (by decide),
    expect_taken hequals (by decide), Reads.bind_ok hv, statementEnd_mark hmark]
  rfl

/-- Name and index, read as an expression that something else follows. -/
theorem unary_index (hname : name.kind = .name)
    (hopening : opening.kind = .leftBracket) (hclosing : closing.kind = .rightBracket)
    (hequals : equals.kind = .assign) {fuel : Nat} {i j : NodeId} {last last₁ : Token}
    {rest : List Token} (he : expression fuel ⟨opening, es ++ closing :: equals :: rest, i + 1⟩ =
      .ok (e, ⟨last₁, closing :: equals :: rest, j⟩)) :
    unary (fuel + 2) ⟨last, name :: opening :: (es ++ closing :: equals :: rest), i⟩ =
      .ok (.index i name e, ⟨closing, equals :: rest, j⟩) := by
  have hpeek : Cursor.peek ⟨last, name :: opening :: (es ++ closing :: equals :: rest), i⟩ = name :=
    rfl
  have hpeek' : Cursor.peek ⟨closing, equals :: rest, j⟩ = equals := rfl
  have hprimary : primary (fuel + 1)
      ⟨last, name :: opening :: (es ++ closing :: equals :: rest), i⟩ =
        .ok (.index i name e, ⟨closing, equals :: rest, j⟩) := by
    simp only [primary, Reads.get_bind, hpeek, hname]
    rw [advance_taken (by rw [hname]; decide), freshId_taken, accept_taken hopening (by decide),
      if_pos rfl, Reads.bind_ok he, expect_taken hclosing (by decide)]
    rfl
  simp only [unary]
  rw [acceptAny_passed (by rw [hpeek, hname]; decide)]
  change (primary (fuel + 1) >>= fun head => postfixRest (fuel + 1) head) _ = _
  rw [Reads.bind_ok hprimary]
  simp only [postfixRest]
  rw [accept_passed (by rw [hpeek', hequals]; decide), if_neg Bool.false_ne_true,
    accept_passed (by rw [hpeek', hequals]; decide)]
  rfl

/-- Name, index and value, read as an expression: the index is no target. -/
theorem expressionStatement_refused (hname : name.kind = .name)
    (hopening : opening.kind = .leftBracket) (hclosing : closing.kind = .rightBracket)
    (hequals : equals.kind = .assign) {fuel : Nat} {i j k : NodeId} {last last₁ last₂ : Token}
    {rest rest' : List Token}
    (he : expression fuel ⟨opening, es ++ closing :: equals :: rest, i + 1⟩ =
      .ok (e, ⟨last₁, closing :: equals :: rest, j⟩))
    (hv : expression (fuel + 9) ⟨equals, rest, j⟩ = .ok (v, ⟨last₂, rest', k⟩)) :
    expressionStatement (fuel + 11)
        ⟨last, name :: opening :: (es ++ closing :: equals :: rest), i⟩ =
      .error (.rejected ⟨.invalidTarget, equals⟩) := by
  have hpeek' : Cursor.peek ⟨closing, equals :: rest, j⟩ = equals := rfl
  have htarget : binary (fuel + 9) binaryLevels
      ⟨last, name :: opening :: (es ++ closing :: equals :: rest), i⟩ =
        .ok (.index i name e, ⟨closing, equals :: rest, j⟩) :=
    binary_passes binaryLevels (unary_index hname hopening hclosing hequals he)
      (by rw [hpeek', hequals]; decide)
  have hexpression : expression (fuel + 10)
      ⟨last, name :: opening :: (es ++ closing :: equals :: rest), i⟩ =
        .error (.rejected ⟨.invalidTarget, equals⟩) := by
    rw [expression_assign htarget hequals, Reads.bind_ok hv]
    rfl
  simp only [expressionStatement, Reads.peek_bind]
  change (expression (fuel + 10) _ >>= fun p => _) = _
  rw [hexpression]
  rfl

/-- A statement that starts with a name. -/
theorem statement_name {fuel : Nat} {last : Token} {rest : List Token} {i : NodeId}
    (hname : name.kind = .name) : statement (fuel + 1) ⟨last, name :: rest, i⟩ =
      if Cursor.atIndexAssignment ⟨last, name :: rest, i⟩ then
        indexAssignment fuel ⟨last, name :: rest, i⟩
      else expressionStatement fuel ⟨last, name :: rest, i⟩ := by
  have hskip : skipNewlines ⟨last, name :: rest, i⟩ = .ok ((), ⟨last, name :: rest, i⟩) := by
    rw [Reads.skipNewlines_eq, dropNewlines, if_neg (by rw [hname]; decide)]
    rfl
  have hpeek : Cursor.peek ⟨last, name :: rest, i⟩ = name := rfl
  simp only [statement]
  rw [Reads.bind_ok hskip, Reads.get_bind]
  simp only [hpeek, hname]
  split <;> rfl

end

end Grammar

open Grammar

/-! ### Name, index and value -/

/-- A name, an expression in brackets and another one behind `=` are an assignment to an index, if no
line feed and no semicolon stands in the brackets.  If one does, the expressions are read as before,
and the assignment is refused. -/
theorem index_assignment_unless_separated {name opening closing equals mark : Token}
    {es vs : List Token} {e v : Expr} (hname : name.kind = .name)
    (hopening : opening.kind = .leftBracket) (hclosing : closing.kind = .rightBracket)
    (hequals : equals.kind = .assign) (hmark : mark.kind = .endMark)
    (he : Spells es e) (hv : Spells vs v) (i : NodeId) :
    ∃ e' v' j k, e.Made Eq (i + 1) 0 j e' ∧ v.Made Eq (i + 1 + j) 0 k v' ∧
      parseFrom i (name :: opening :: (es ++ closing :: equals :: (vs ++ [mark]))) =
        if ∀ t ∈ es, t.kind ∉ joints then .ok ([.indexAssign i name e' v'], i + 1 + j + k)
        else .error (.rejected ⟨.invalidTarget, equals⟩) := by
  obtain ⟨j, hread⟩ := he.followed
  obtain ⟨k, hread'⟩ := hv.ends
  have hends : ∃ t ∈ equals :: (vs ++ [mark]), t.kind = .endMark := ⟨mark, by simp, hmark⟩
  obtain ⟨e', last₁, hmade, he'⟩ := hread closing (closing_closing hclosing) _ hends opening (i + 1)
  obtain ⟨v', last₂, hmade', hv'⟩ := hread' mark hmark equals (j + (i + 1))
  -- there is room for the two expressions on both ways
  obtain ⟨g, hg⟩ : ∃ g, depthBound ((opening :: (es ++ closing :: equals :: (vs ++ [mark]))).length
      + 1) = g + 12 := ⟨_, (Nat.sub_add_cancel (by unfold depthBound; omega)).symm⟩
  have hroom : 32 * (es.length + vs.length + 5) ≤ g := by
    simp only [depthBound, List.length_cons, List.length_append, List.length_nil] at hg
    omega
  have he'' : ∀ fuel, g ≤ fuel → _ := fun fuel hfuel => he' fuel (by
    simp only [List.length_cons, List.length_append, List.length_nil]
    omega)
  have hv'' : ∀ fuel, g ≤ fuel → _ := fun fuel hfuel => hv' fuel (by omega)
  refine ⟨e', v', j, k, hmade, by rwa [Nat.add_comm j] at hmade', ?_⟩
  have hsearch := atIndexAssignment_spelled hname hopening hclosing hequals he.brackets name
    (vs ++ [mark]) i
  split
  · next hplain =>
    have hstatement : statement (g + 12)
        ⟨name, name :: opening :: (es ++ closing :: equals :: (vs ++ [mark])), i⟩ =
          .ok (.indexAssign i name e' v', ⟨last₂, [mark], i + 1 + j + k⟩) := by
      rw [statement_name hname, if_pos (hsearch.2 hplain),
        indexAssignment_read hname hopening hclosing hequals hmark (he'' _ (by omega))
          (hv'' _ (by omega))]
      rw [show k + (j + (i + 1)) = i + 1 + j + k by omega]
    exact parseFrom_of_statement (by rw [hname]; decide) (by rw [hname]; decide)
      (List.cons_ne_nil _ _) hmark (hg ▸ hstatement)
  · next hplain =>
    have hstatement : statement (g + 12)
        ⟨name, name :: opening :: (es ++ closing :: equals :: (vs ++ [mark])), i⟩ =
          .error (.rejected ⟨.invalidTarget, equals⟩) := by
      rw [statement_name hname, if_neg fun h => hplain (hsearch.1 h),
        expressionStatement_refused hname hopening hclosing hequals (he'' g (Nat.le_refl g))
          (hv'' (g + 9) (by omega))]
    exact parseFrom_of_statement_error (by rw [hname]; decide) (by rw [hname]; decide)
      (hg ▸ hstatement)

/-- A call over two lines can be read, and cannot be assigned to as an index. -/
theorem call_over_lines_refused :
    (Spells [.plain .name "f", .plain .leftParen "(", .plain .newline "\n", .plain .name "y",
      .plain .rightParen ")"] (.call (.name 0 (.plain .name "f")) (.plain .rightParen ")")
        [.name 1 (.plain .name "y")])) ∧
    parseFrom 0 [.plain .name "x", .plain .leftBracket "[", .plain .name "f",
      .plain .leftParen "(", .plain .newline "\n", .plain .name "y", .plain .rightParen ")",
      .plain .rightBracket "]", .plain .assign "=", .plain .name "z", .plain .endMark ""] =
      .error (.rejected ⟨.invalidTarget, .plain .assign "="⟩) := by
  have he : Spells [.plain .name "f", .plain .leftParen "(", .plain .newline "\n",
      .plain .name "y", .plain .rightParen ")"] (.call (.name 0 (.plain .name "f"))
        (.plain .rightParen ")") [.name 1 (.plain .name "y")]) :=
    ⟨30, .plain .endMark "", .plain .endMark "", _, rfl, by cbv, rfl⟩
  have hv : Spells [.plain .name "z"] (.name 0 (.plain .name "z")) :=
    ⟨20, .plain .endMark "", .plain .endMark "", _, rfl, by cbv, rfl⟩
  obtain ⟨_, _, _, _, -, -, hparse⟩ := index_assignment_unless_separated
    (rfl : (Token.plain .name "x").kind = .name)
    (rfl : (Token.plain .leftBracket "[").kind = .leftBracket)
    (rfl : (Token.plain .rightBracket "]").kind = .rightBracket)
    (rfl : (Token.plain .assign "=").kind = .assign)
    (rfl : (Token.plain .endMark "").kind = .endMark) he hv 0
  rw [if_neg (by decide)] at hparse
  exact ⟨he, hparse⟩

end ScopedScript
