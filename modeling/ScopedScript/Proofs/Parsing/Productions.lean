import ScopedScript.Proofs.Parsing.Annotations

/-! # Expressions and statements, read side by side

Each production, applied to two rows that correspond, makes trees side by side.  The productions
call each other, so this is proved of all of them at once, by induction on the bound on their depth
(`productionsMake`).

Expressions keep cursors in step.  A statement may take the second cursor over the end of the first
row.  It escapes if it is the loop that has no body because the first row is at its end: then it
has an empty statement inside (`Stmt.Unfinished`). -/

namespace ScopedScript

/-- The statement has an empty statement inside. -/
def Stmt.Unfinished (s : Stmt) : Prop :=
  ∀ sure ctx, ∃ p ∈ s.places sure ctx, p.node = .stmt .empty

/-- Of two alike statements both have an empty statement inside or neither has. -/
theorem Stmt.Alike.unfinished {L : TreeLikeness} {sure : Bool} {ctx : Surroundings} {s s' : Stmt}
    (h : s.Alike L sure ctx s') (hs' : s'.Unfinished) : s.Unfinished := by
  intro u k
  obtain ⟨p', hp', hempty'⟩ := hs' u k
  have hmem : Shape.empty ∈ (s'.places u k).map Place.shape :=
    List.mem_map.2 ⟨p', hp', Node.shape_eq_empty.2 hempty'⟩
  rw [Stmt.Alike.shape u u k k s h] at hmem
  obtain ⟨p, hp, hshape⟩ := List.mem_map.1 hmem
  exact ⟨p, hp, Node.shape_eq_empty.1 hshape⟩

/-- The row has no statement with an empty statement inside. -/
def Filled (ss : List Stmt) : Prop := ∀ s ∈ ss, ¬s.Unfinished

theorem Filled.append {ss ts : List Stmt} (hs : Filled ss) (ht : Filled ts) :
    Filled (ss ++ ts) := fun s h =>
  (List.mem_append.1 h).elim (hs s) (ht s)

theorem Filled.alike {L : TreeLikeness} {sure : Bool} {ctx : Surroundings} {ss ss' : List Stmt}
    (h : Filled ss) (halike : stmtsAlike L sure ctx ss ss') : Filled ss' := by
  induction ss generalizing ctx ss' with
  | nil =>
    obtain rfl := halike
    exact h
  | cons s ss ih =>
    obtain ⟨t, ts, rfl, ht, hts⟩ := halike
    obtain ⟨hs, hss⟩ := List.forall_mem_cons.1 h
    exact List.forall_mem_cons.2 ⟨fun hun => hs (ht.unfinished hun), ih hss hts⟩

namespace Grammar

open Reading

/-- The escape of a statement. -/
def unfinished (G : Reading) : Cursor → Stmt → Prop := fun c s => G.Lost c ∧ s.Unfinished

/-- Cursors after a statement. -/
def Ended (G : Reading) (c c' : Cursor) : Prop := G.Step c c' ∨ G.Over c c'

/-- Operators that are no separators. -/
def NoJoints (levels : List (List Token.Kind)) : Prop :=
  ∀ operators ∈ levels, ∀ kind ∈ operators, kind ∉ joints

/-- What is known of the productions with bounds `n` and `n'`. -/
structure ProductionsMake (G : Reading) (n n' : Nat) : Prop where
  expression : ∀ {c c'}, G.Step c c' → Reads G never G.Step
    (fun j e e' => e.Made G.token G.shift c.nextId j e') (expression n c) (expression n' c')
  binary : ∀ {levels}, NoJoints levels → ∀ {c c'}, G.Step c c' → Reads G never G.Step
    (fun j e e' => e.Made G.token G.shift c.nextId j e') (binary n levels c) (binary n' levels c')
  binaryRest : ∀ {operators tighter}, (∀ kind ∈ operators, kind ∉ joints) → NoJoints tighter →
    ∀ {i left left' c c'}, G.Step c c' → left.Made G.token G.shift i c.nextId left' →
    Reads G never G.Step (fun j e e' => e.Made G.token G.shift i j e')
      (binaryRest n operators tighter left c) (binaryRest n' operators tighter left' c')
  unary : ∀ {c c'}, G.Step c c' → Reads G never G.Step
    (fun j e e' => e.Made G.token G.shift c.nextId j e') (unary n c) (unary n' c')
  postfixRest : ∀ {i head head' c c'}, G.Step c c' →
    head.Made G.token G.shift i c.nextId head' →
    Reads G never G.Step (fun j e e' => e.Made G.token G.shift i j e')
      (postfixRest n head c) (postfixRest n' head' c')
  argumentRow : ∀ (count : Nat) {c c'}, G.Step c c' → Reads G (outside G) G.Step
    (fun j es es' => exprsMade G.token G.shift c.nextId j es es')
    (argumentRow n count c) (argumentRow n' count c')
  primary : ∀ {c c'}, G.Step c c' → Reads G never G.Step
    (fun j e e' => e.Made G.token G.shift c.nextId j e') (primary n c) (primary n' c')
  elementRow : ∀ {c c'}, G.Step c c' → Reads G (outside G) G.Step
    (fun j es es' => exprsMade G.token G.shift c.nextId j es es') (elementRow n c) (elementRow n' c')
  entryRow : ∀ {i entries entries' c c'}, G.Step c c' →
    entriesMade G.token G.shift i c.nextId entries entries' →
    Reads G (outside G) G.Step (fun j es es' => entriesMade G.token G.shift i j es es')
      (entryRow n entries c) (entryRow n' entries' c')
  functionRest : ∀ {t t'}, G.token t t' → ∀ {c c'}, G.Step c c' → G.token c.last c'.last →
    Reads G never G.Step (fun j f f' => f.Made G.token G.shift c.nextId j f' ∧ f.name = t)
      (functionRest n t c) (functionRest n' t' c')
  block : ∀ {c c'}, G.Step c c' → Reads G never G.Step
    (fun j ss ss' => stmtsMade G.token G.shift c.nextId j ss ss') (block n c) (block n' c')
  blockRow : ∀ {c c'}, G.Step c c' → Reads G (outside G) G.Step
    (fun j ss ss' => stmtsMade G.token G.shift c.nextId j ss ss') (blockRow n c) (blockRow n' c')
  statement : ∀ {c c'}, G.Step c c' → Reads G (unfinished G) (Ended G)
    (fun j s s' => s.Made G.token G.shift c.nextId j s') (statement n c) (statement n' c')
  expressionStatement : ∀ {c c'}, G.Step c c' → Reads G never (Ended G)
    (fun j s s' => s.Made G.token G.shift c.nextId j s')
    (expressionStatement n c) (expressionStatement n' c')
  classDeclaration : ∀ {c c'}, G.Step c c' → Reads G never G.Step
    (fun j s s' => s.Made G.token G.shift c.nextId j s')
    (classDeclaration n c) (classDeclaration n' c')
  memberRow : ∀ {c c'}, G.Step c c' → Reads G (outside G) G.Step
    (fun j m m' => membersMade G.token G.shift c.nextId j m m') (memberRow n c) (memberRow n' c')
  ifStatement : (∃ u u', G.token u u' ∧ u.kind = .kwIf) → ∀ {t t'}, G.token t t' →
    ∀ {c c'}, G.Step c c' → Reads G never G.Step
    (fun j s s' => s.Made G.token G.shift c.nextId j s') (ifStatement n t c) (ifStatement n' t' c')
  whileStatement : ∀ {t t'}, G.token t t' → ∀ {c c'}, G.Step c c' →
    Reads G (unfinished G) (Ended G) (fun j s s' => s.Made G.token G.shift c.nextId j s')
      (whileStatement n t c) (whileStatement n' t' c')
  forStatement : ∀ {t t'}, G.token t t' → ∀ {c c'}, G.Step c c' →
    Reads G (unfinished G) (Ended G) (fun j s s' => s.Made G.token G.shift c.nextId j s')
      (forStatement n t c) (forStatement n' t' c')
  forInit : ∀ {c c'}, G.Step c c' → Reads G never (Ended G)
    (fun j o o' => optionMade G.token G.shift c.nextId j o o') (forInit n c) (forInit n' c')
  variableDeclaration : ∀ {t t'}, G.token t t' → ∀ {c c'}, G.Step c c' →
    Reads G never (Ended G) (fun j s s' => s.Made G.token G.shift c.nextId j s')
      (variableDeclaration n t c) (variableDeclaration n' t' c')
  returnStatement : ∀ {t t'}, G.token t t' → ∀ {c c'}, G.Step c c' →
    Reads G never (Ended G) (fun j s s' => s.Made G.token G.shift c.nextId j s')
      (returnStatement n t c) (returnStatement n' t' c')
  indexAssignment : ∀ {c c'}, c.check .name = true → G.Step c c' → Reads G never (Ended G)
    (fun j s s' => s.Made G.token G.shift c.nextId j s')
    (indexAssignment n c) (indexAssignment n' c')

/-! ### Targets and literals -/

section

variable {token : Token → Token → Prop} {shift i j : Nat}

theorem made_name {id : NodeId} {t : Token} {e : Expr}
    (h : (Expr.name id t).Made token shift i j e) :
    t.kind ∈ [.name, .kwPrint] ∧ ∃ id' t', e = .name id' t' ∧ token t t' := by
  obtain ⟨⟨hn, id', t', rfl, ht⟩, _⟩ := h .top
  exact ⟨(hn.1 id t rfl).1, id', t', rfl, ht⟩

theorem made_get {o : Expr} {t : Token} {e : Expr} (h : (Expr.get o t).Made token shift i j e) :
    ∃ o' t', e = .get o' t' ∧ token t t' ∧ o.Made token shift i j o' := by
  obtain ⟨⟨_, o', t', rfl, ht, _⟩, _⟩ := h .top
  refine ⟨o', t', rfl, ht, fun ctx => ?_⟩
  obtain ⟨⟨_, o₁, t₁, heq, _, ho⟩, hnum⟩ := h ctx
  obtain ⟨rfl, rfl⟩ := Expr.get.inj heq
  simp only [Expr.places] at hnum
  exact ⟨ho, hnum.tail fun _ _ _ => by simp⟩

/-- What can be assigned to: a name, a property, or nothing else in either tree. -/
theorem made_target {e e' : Expr} (h : e.Made token shift i j e') :
    (∃ id t, e = .name id t) ∨ (∃ o t, e = .get o t) ∨
      ((∀ id t, e ≠ .name id t) ∧ (∀ o t, e ≠ .get o t) ∧
        (∀ id t, e' ≠ .name id t) ∧ ∀ o t, e' ≠ .get o t) := by
  have halike := (h .top).1
  cases e with
  | name id t => exact .inl ⟨id, t, rfl⟩
  | get o t => exact .inr (.inl ⟨o, t, rfl⟩)
  | grouping | literal =>
    obtain ⟨_, _, rfl, _⟩ := halike
    exact .inr (.inr ⟨fun _ _ => by simp, fun _ _ => by simp, fun _ _ => by simp, fun _ _ => by simp⟩)
  | unary | this | function | object =>
    obtain ⟨_, _, _, rfl, _⟩ := halike
    exact .inr (.inr ⟨fun _ _ => by simp, fun _ _ => by simp, fun _ _ => by simp, fun _ _ => by simp⟩)
  | binary | call | index | set | assign =>
    obtain ⟨_, _, _, _, rfl, _⟩ := halike
    exact .inr (.inr ⟨fun _ _ => by simp, fun _ _ => by simp, fun _ _ => by simp, fun _ _ => by simp⟩)

end

section

variable {G : Reading} {i j : Nat} {c c' : Cursor} {target target' value value' : Expr}
variable {t t' : Token}

theorem assignment_of_other (ht : ∀ id t, target ≠ .name id t) (ht' : ∀ o t, target ≠ .get o t)
    (equals : Token) (value : Expr) :
    assignment target equals value = failAt equals .invalidTarget := by
  cases target with
  | name id t => exact absurd rfl (ht id t)
  | get o t => exact absurd rfl (ht' o t)
  | _ => rfl

theorem assignment_makes (hc : G.Step c c') (htarget : target.Made G.token G.shift i j target')
    (ht : G.token t t') (hvalue : value.Made G.token G.shift j c.nextId value') :
    Reads G never G.Step (fun k e e' => e.Made G.token G.shift i k e')
      (assignment target t value c) (assignment target' t' value' c') := by
  obtain ⟨id, name, rfl⟩ | ⟨o, name, rfl⟩ | ⟨h₁, h₂, h₃, h₄⟩ := made_target htarget
  · obtain ⟨hword, id', name', rfl, hname⟩ := made_name htarget
    refine (Reads.freshId hc).bind ?_
    rintro _ _ c₁ c₁' hc₁ ⟨hj₁, rfl, rfl⟩
    refine .pure hc₁ ?_
    rw [hj₁]
    exact .assign hname hword (hvalue.widen htarget.le)
  · obtain ⟨o', name', rfl, hname, ho⟩ := made_get htarget
    exact .pure hc (ho.set hname hvalue)
  · rw [assignment_of_other h₁ h₂, assignment_of_other h₃ h₄]
    exact .failAt (fun _ => .inl ht) _

theorem compoundAssignment_of_other (ht : ∀ id t, target ≠ .name id t)
    (ht' : ∀ o t, target ≠ .get o t) (operator : Token) (value : Expr) :
    compoundAssignment target operator value = failAt operator .invalidTarget := by
  cases target with
  | name id t => exact absurd rfl (ht id t)
  | get o t => exact absurd rfl (ht' o t)
  | _ => rfl

theorem compoundOperator_token (ht : G.token t t') :
    G.token (compoundOperator t) (compoundOperator t') := by
  unfold compoundOperator
  rw [kind_eq ht]
  split <;> exact G.derived _ (by decide) ht

theorem compoundAssignment_makes (hc : G.Step c c')
    (htarget : target.Made G.token G.shift i j target') (ht : G.token t t')
    (hvalue : value.Made G.token G.shift j c.nextId value') :
    Reads G never G.Step (fun k e e' => e.Made G.token G.shift i k e')
      (compoundAssignment target t value c) (compoundAssignment target' t' value' c') := by
  have hop := compoundOperator_token ht
  obtain ⟨id, name, rfl⟩ | ⟨o, name, rfl⟩ | ⟨h₁, h₂, h₃, h₄⟩ := made_target htarget
  · obtain ⟨hword, id', name', rfl, hname⟩ := made_name htarget
    refine (Reads.freshId hc).bind ?_
    rintro _ _ c₁ c₁' hc₁ ⟨hj₁, rfl, rfl⟩
    refine .pure hc₁ ?_
    rw [hj₁]
    exact .assign hname hword (htarget.binary hop hvalue)
  · obtain ⟨o', name', rfl, hname, ho⟩ := made_get htarget
    exact .pure hc (ho.setAgain hname hop hvalue)
  · rw [compoundAssignment_of_other h₁ h₂, compoundAssignment_of_other h₃ h₄]
    exact .failAt (fun _ => .inl ht) _

theorem numberLiteral_makes (hc : G.Step c c') (ht : G.token t t') :
    Reads G never G.Step (fun j e e' => e.Made G.token G.shift c.nextId j e')
      (numberLiteral t c) (numberLiteral t' c') := by
  unfold numberLiteral
  rw [literal_eq ht, kind_eq ht]
  generalize t.literal = value
  split
  · exact .pure hc (.literal _ (Nat.le_refl _) fun _ => by simp)
  · exact .failAt (fun _ => .inl ht) _

theorem stringLiteral_makes (ht : G.token t t') :
    (stringLiteral t).Made G.token G.shift i i (stringLiteral t') := by
  unfold stringLiteral
  rw [literal_eq ht]
  split <;> exact .literal _ (Nat.le_refl _) fun _ => by simp

end

/-! ### At the end mark -/

section

variable {G : Reading} {n : Nat} {c : Cursor}

/-- No expression starts at the cursor. -/
def Cursor.Barren (c : Cursor) : Prop := c.peek.kind = .endMark ∨ c.peek.kind = .kwElse

theorem Cursor.Barren.check {c : Cursor} (hc : c.Barren) {kind : Token.Kind}
    (hk : kind ≠ .kwElse) : c.check kind = false := by
  unfold Cursor.check Cursor.atEnd
  rcases hc with hc | hc
  · simp [hc]
  · simp [hc, hk.symm]

theorem primary_barren (hc : c.Barren) : ∃ e, primary n c = .error e := by
  cases n with
  | zero => exact ⟨_, rfl⟩
  | succ n =>
    rw [primary, Reads.get_bind]
    rcases hc with hc | hc
    · rw [hc]
      exact ⟨_, rfl⟩
    · rw [hc]
      exact ⟨_, rfl⟩

theorem unary_barren (hc : c.Barren) : ∃ e, unary n c = .error e := by
  cases n with
  | zero => exact ⟨_, rfl⟩
  | succ n =>
    have hcheck : ¬[Token.Kind.not, .minus].any c.check = true := by simp [hc.check]
    rw [unary, Reads.bind_ok (Reads.acceptAny_of_not_check hcheck)]
    exact Reads.bind_error (primary_barren hc)

theorem binary_barren (hc : c.Barren) (levels : List (List Token.Kind)) :
    ∃ e, binary n levels c = .error e := by
  induction n generalizing levels with
  | zero => exact ⟨_, rfl⟩
  | succ n ih =>
    cases levels with
    | nil =>
      rw [binary]
      exact unary_barren hc
    | cons operators tighter =>
      rw [binary]
      exact Reads.bind_error (ih tighter)

theorem expression_barren (hc : c.Barren) : ∃ e, expression n c = .error e := by
  cases n with
  | zero => exact ⟨_, rfl⟩
  | succ n =>
    rw [expression]
    exact Reads.bind_error (binary_barren hc _)

theorem expression_lost (hc : G.Lost c) : ∃ e, expression n c = .error e :=
  expression_barren (.inl hc.peek_kind)

theorem argumentRow_lost (hc : G.Lost c) (count : Nat) :
    ∃ e, argumentRow n count c = .error e := by
  cases n with
  | zero => exact ⟨_, rfl⟩
  | succ n =>
    rw [argumentRow, Reads.bind_ok (Reads.skipNewlines_lost hc)]
    dsimp only
    split
    · exact ⟨_, rfl⟩
    · exact Reads.bind_error (expression_lost hc)

theorem elementRow_idles (hc : G.Lost c) : Idles (elementRow n) c := by
  cases n with
  | zero => exact .inl ⟨_, rfl⟩
  | succ n =>
    rw [elementRow]
    exact .inr ⟨_, Reads.row_lost hc _ _ _⟩

theorem entryRow_idles (hc : G.Lost c) (entries : List Entry) : Idles (entryRow n entries) c := by
  cases n with
  | zero => exact .inl ⟨_, rfl⟩
  | succ n =>
    rw [entryRow]
    exact .inr ⟨_, Reads.row_lost hc _ _ _⟩

theorem blockRow_idles (hc : G.Lost c) : Idles (blockRow n) c := by
  cases n with
  | zero => exact .inl ⟨_, rfl⟩
  | succ n =>
    rw [blockRow]
    exact .inr ⟨_, Reads.row_lost hc _ _ _⟩

theorem memberRow_idles (hc : G.Lost c) : Idles (memberRow n) c := by
  cases n with
  | zero => exact .inl ⟨_, rfl⟩
  | succ n =>
    rw [memberRow]
    exact .inr ⟨_, Reads.row_lost hc _ _ _⟩

end

/-! ### Expressions -/

section

variable {G : Reading} {n n' : Nat} {c c' : Cursor}

theorem noJoints_binaryLevels : NoJoints binaryLevels := by
  unfold NoJoints
  decide

theorem expression_makes (h : ProductionsMake G n n') (hc : G.Step c c') :
    Reads G never G.Step (fun j e e' => e.Made G.token G.shift c.nextId j e')
      (expression (n + 1) c) (expression (n' + 1) c') := by
  simp only [expression]
  refine (h.binary noJoints_binaryLevels hc).bind fun target target' c₁ c₁' hc₁ htarget => ?_
  refine (Reads.acceptAny hc₁ (by decide)).bind ?_
  rintro _ _ c₂ c₂' hc₂ ⟨hj₂, hab⟩
  cases hab with
  | some ht =>
    refine (h.expression hc₂).bind fun value value' c₃ c₃' hc₃ hvalue => ?_
    exact assignment_makes hc₃ htarget ht (hj₂ ▸ hvalue)
  | none =>
    refine (Reads.acceptAny hc₂ (by decide)).bind ?_
    rintro _ _ c₃ c₃' hc₃ ⟨hj₃, hab⟩
    cases hab with
    | some ht =>
      refine (h.expression hc₃).bind fun value value' c₄ c₄' hc₄ hvalue => ?_
      exact compoundAssignment_makes hc₄ htarget ht (hj₂ ▸ hj₃ ▸ hvalue)
    | none =>
      refine (Reads.acceptAny hc₃ (by decide)).bind ?_
      rintro _ _ c₄ c₄' hc₄ ⟨hj₄, hab⟩
      have hj : c₄.nextId = c₁.nextId := hj₄.trans (hj₃.trans hj₂)
      cases hab with
      | some ht =>
        refine compoundAssignment_makes hc₄ htarget ht ?_
        exact .literal _ (Nat.le_of_eq hj.symm) fun _ => by simp
      | none => exact .pure hc₄ (hj ▸ htarget)

theorem binary_makes (h : ProductionsMake G n n') {levels : List (List Token.Kind)}
    (hlevels : NoJoints levels) (hc : G.Step c c') :
    Reads G never G.Step (fun j e e' => e.Made G.token G.shift c.nextId j e')
      (binary (n + 1) levels c) (binary (n' + 1) levels c') := by
  cases levels with
  | nil =>
    simp only [binary]
    exact h.unary hc
  | cons operators tighter =>
    simp only [binary]
    have htighter : NoJoints tighter := fun ops hops => hlevels ops (List.mem_cons_of_mem _ hops)
    refine (h.binary htighter hc).bind fun left left' c₁ c₁' hc₁ hleft => ?_
    exact h.binaryRest (hlevels _ List.mem_cons_self) htighter hc₁ hleft

theorem binaryRest_makes (h : ProductionsMake G n n') {operators : List Token.Kind}
    {tighter : List (List Token.Kind)} (hops : ∀ kind ∈ operators, kind ∉ joints)
    (htighter : NoJoints tighter) {i : Nat} {left left' : Expr} (hc : G.Step c c')
    (hleft : left.Made G.token G.shift i c.nextId left') :
    Reads G never G.Step (fun j e e' => e.Made G.token G.shift i j e')
      (binaryRest (n + 1) operators tighter left c)
      (binaryRest (n' + 1) operators tighter left' c') := by
  simp only [binaryRest]
  refine (Reads.acceptAny hc hops).bind ?_
  rintro _ _ c₁ c₁' hc₁ ⟨hj₁, hab⟩
  cases hab with
  | some ht =>
    refine (h.binary htighter hc₁).bind fun right right' c₂ c₂' hc₂ hright => ?_
    exact h.binaryRest hops htighter hc₂ (hleft.binary ht (hj₁ ▸ hright))
  | none => exact .pure hc₁ (hj₁ ▸ hleft)

theorem unary_makes (h : ProductionsMake G n n') (hc : G.Step c c') :
    Reads G never G.Step (fun j e e' => e.Made G.token G.shift c.nextId j e')
      (unary (n + 1) c) (unary (n' + 1) c') := by
  simp only [unary]
  refine (Reads.acceptAny hc (by decide)).bind ?_
  rintro _ _ c₁ c₁' hc₁ ⟨hj₁, hab⟩
  rw [← hj₁]
  cases hab with
  | some ht =>
    refine (h.unary hc₁).bind fun e e' c₂ c₂' hc₂ he => ?_
    exact .pure hc₂ (he.unary ht)
  | none =>
    refine (h.primary hc₁).bind fun head head' c₂ c₂' hc₂ hhead => ?_
    exact h.postfixRest hc₂ hhead

/-- The arguments of a call, its closing parenthesis and what follows. -/
theorem call_makes (h : ProductionsMake G n n') {i k : Nat} {head head' : Expr}
    (hhead : head.Made G.token G.shift i k head') (hc : G.Step c c') {args args' : List Expr}
    (hargs : exprsMade G.token G.shift k c.nextId args args') :
    Reads G never G.Step (fun j e e' => e.Made G.token G.shift i j e')
      ((do let paren ← expect .rightParen .argumentsClose
           postfixRest n (.call head paren args)) c)
      ((do let paren ← expect .rightParen .argumentsClose
           postfixRest n' (.call head' paren args')) c') := by
  refine (Reads.expect hc _).bind ?_
  rintro paren paren' c₁ c₁' hc₁ ⟨hj₁, ht⟩
  exact h.postfixRest hc₁ (hj₁ ▸ hhead.call ht hargs)

theorem postfixRest_makes (h : ProductionsMake G n n') {i : Nat} {head head' : Expr}
    (hc : G.Step c c') (hhead : head.Made G.token G.shift i c.nextId head') :
    Reads G never G.Step (fun j e e' => e.Made G.token G.shift i j e')
      (postfixRest (n + 1) head c) (postfixRest (n' + 1) head' c') := by
  simp only [postfixRest]
  refine (Reads.accept hc (by decide)).bind ?_
  rintro _ b c₁ c₁' hc₁ ⟨hj₁, rfl⟩
  rw [← hj₁] at hhead
  cases b with
  | true =>
    refine (Reads.skipNewlines hc₁).bind ?_
    rintro _ _ c₂ c₂' (hc₂ | hpast) hj₂
    · refine Reads.get ?_
      rw [hc₂.check (by decide)]
      rw [← hj₂] at hhead
      split
      · exact call_makes h hhead hc₂ (.nil (Nat.le_refl _))
      · refine (h.argumentRow 0 hc₂).bindEscaping
          (fun _ _ hlost _ => .lost hlost (Reads.bind_error (Reads.expect_lost hlost _ _)))
          fun args args' c₃ c₃' hc₃ hargs => ?_
        exact call_makes h hhead hc₃ hargs
    · refine .lost hpast.lost ?_
      rw [Reads.get_bind, hpast.lost.check]
      exact Reads.bind_error (argumentRow_lost hpast.lost 0)
  | false =>
    refine (Reads.accept hc₁ (by decide)).bind ?_
    rintro _ b c₂ c₂' hc₂ ⟨hj₂, rfl⟩
    rw [← hj₂] at hhead
    cases b with
    | true =>
      refine (Reads.expect hc₂ _).bind ?_
      rintro name name' c₃ c₃' hc₃ ⟨hj₃, ht⟩
      exact h.postfixRest hc₃ (hj₃ ▸ hhead.get ht)
    | false => exact .pure hc₂ hhead

theorem argumentRow_makes (h : ProductionsMake G n n') (count : Nat) (hc : G.Step c c') :
    Reads G (outside G) G.Step (fun j es es' => exprsMade G.token G.shift c.nextId j es es')
      (argumentRow (n + 1) count c) (argumentRow (n' + 1) count c') := by
  simp only [argumentRow]
  refine (Reads.skipNewlines hc).bind ?_
  rintro _ _ c₁ c₁' (hc₁ | hpast) hj₁
  · rw [← hj₁]
    split
    · refine (Reads.peek hc₁).bind ?_
      rintro t t' _ _ ⟨rfl, rfl⟩ ht
      exact .bind (P := fun _ _ _ => False) (S := G.Step) (.failAt ht _) fun _ _ _ _ _ h => h.elim
    · refine (h.expression hc₁).bind fun e e' c₂ c₂' hc₂ he => ?_
      refine (Reads.skipNewlines hc₂).bind ?_
      rintro _ _ c₃ c₃' (hc₃ | hpast) hj₃
      · refine (Reads.accept hc₃ (by decide)).bind ?_
        rintro _ b c₄ c₄' hc₄ ⟨hj₄, rfl⟩
        have hj : c₄.nextId = c₂.nextId := hj₄.trans hj₃
        rw [← hj] at he
        cases b with
        | false => exact .pure hc₄ (.cons he (.nil (Nat.le_refl _)))
        | true =>
          refine (h.argumentRow (count + 1) hc₄).bindEscaping
            (fun _ _ hlost _ => .escaped hlost) fun es es' c₅ c₅' hc₅ hes => ?_
          exact .pure hc₅ (.cons he hes)
      · rw [Reads.bind_ok (Reads.accept_lost hpast.lost _)]
        exact .escaped hpast.lost
  · split
    · exact .lost hpast.lost ⟨_, rfl⟩
    · exact .lost hpast.lost (Reads.bind_error (expression_lost hpast.lost))

theorem elementRow_makes (h : ProductionsMake G n n') (hc : G.Step c c') :
    Reads G (outside G) G.Step (fun j es es' => exprsMade G.token G.shift c.nextId j es es')
      (elementRow (n + 1) c) (elementRow (n' + 1) c') := by
  simp only [elementRow]
  refine Reads.row hc (.nil (Nat.le_refl _)) ?_
  refine (h.expression hc).bind fun e e' c₁ c₁' hc₁ he => ?_
  refine (Reads.skipNewlines hc₁).bind ?_
  rintro _ _ c₂ c₂' (hc₂ | hpast) hj₂
  · refine (Reads.accept hc₂ (by decide)).bind ?_
    rintro _ b c₃ c₃' hc₃ ⟨hj₃, rfl⟩
    have hj : c₃.nextId = c₁.nextId := hj₃.trans hj₂
    rw [← hj] at he
    cases b with
    | false => exact .pure hc₃ (.cons he (.nil (Nat.le_refl _)))
    | true =>
      refine (Reads.skipNewlines hc₃).bind ?_
      rintro _ _ c₄ c₄' (hc₄ | hpast) hj₄
      · rw [← hj₄] at he
        refine (h.elementRow hc₄).bindEscaping (fun _ _ hlost _ => .escaped hlost)
          fun es es' c₅ c₅' hc₅ hes => ?_
        exact .pure hc₅ (.cons he hes)
      · exact Reads.row_rest hpast.lost (elementRow_idles hpast.lost) _
  · rw [Reads.bind_ok (Reads.accept_lost hpast.lost _)]
    exact .escaped hpast.lost

theorem entryRow_makes (h : ProductionsMake G n n') {i : Nat} {entries entries' : List Entry}
    (hc : G.Step c c') (hentries : entriesMade G.token G.shift i c.nextId entries entries') :
    Reads G (outside G) G.Step (fun j es es' => entriesMade G.token G.shift i j es es')
      (entryRow (n + 1) entries c) (entryRow (n' + 1) entries' c') := by
  simp only [entryRow]
  refine Reads.row hc hentries ?_
  refine (Reads.expect hc _).bind ?_
  rintro key key' c₁ c₁' hc₁ ⟨hj₁, ht⟩
  refine (Reads.expect hc₁ _).bind ?_
  rintro _ _ c₂ c₂' hc₂ ⟨hj₂, _⟩
  refine (Reads.skipNewlines hc₂).bind ?_
  rintro _ _ c₃ c₃' (hc₃ | hpast) hj₃
  · rw [← hj₁, ← hj₂, ← hj₃] at hentries
    refine (h.expression hc₃).bind fun e e' c₄ c₄' hc₄ he => ?_
    have hadd := hentries.add lexeme_eq ht he
    refine (Reads.skipNewlines hc₄).bind ?_
    rintro _ _ c₅ c₅' (hc₅ | hpast) hj₅
    · refine (Reads.accept hc₅ (by decide)).bind ?_
      rintro _ b c₆ c₆' hc₆ ⟨hj₆, rfl⟩
      rw [← hj₅, ← hj₆] at hadd
      cases b with
      | false => exact .pure hc₆ hadd
      | true =>
        refine (Reads.skipNewlines hc₆).bind ?_
        rintro _ _ c₇ c₇' (hc₇ | hpast) hj₇
        · exact h.entryRow hc₇ (hj₇ ▸ hadd)
        · rcases entryRow_idles hpast.lost (addEntry entries key e) with he | ⟨a, ha⟩
          · exact .lost hpast.lost he
          · rw [ha]
            exact .escaped hpast.lost
    · rw [Reads.bind_ok (Reads.accept_lost hpast.lost _)]
      exact .escaped hpast.lost
  · exact .lost hpast.lost (Reads.bind_error (expression_lost hpast.lost))

/-- A literal that is one token. -/
theorem word_makes (hc : G.Step c c') (hend : c.atEnd = false) (kind : Token.Kind)
    {value : LiteralValue} (hv : ∀ es, value ≠ .list es) :
    Reads G never G.Step (fun j e e' => e.Made G.token G.shift c.nextId j e')
      ((do let _ ← advance; return Expr.literal kind value) c)
      ((do let _ ← advance; return Expr.literal kind value) c') := by
  refine (Reads.advance hc hend).bind ?_
  rintro _ _ c₁ c₁' hc₁ ⟨hj₁, _⟩
  exact .pure hc₁ (.literal kind (Nat.le_of_eq hj₁.symm) hv)

/-- A name, perhaps with an index. -/
theorem reference_makes (h : ProductionsMake G n n') (hc : G.Step c c')
    (hend : c.atEnd = false) (hword : c.peek.kind ∈ [.name, .kwPrint]) :
    Reads G never G.Step (fun j e e' => e.Made G.token G.shift c.nextId j e')
      ((do let name ← advance
           let id ← freshId
           if ← accept .leftBracket then
             let index ← expression n
             let _ ← expect .rightBracket .indexClose
             return Expr.index id name index
           else return Expr.name id name) c)
      ((do let name ← advance
           let id ← freshId
           if ← accept .leftBracket then
             let index ← expression n'
             let _ ← expect .rightBracket .indexClose
             return Expr.index id name index
           else return Expr.name id name) c') := by
  refine (Reads.advanceKind hc hend).bind ?_
  rintro name name' c₁ c₁' hc₁ ⟨hj₁, ht, hkind⟩
  rw [← hkind] at hword
  rw [← hj₁]
  refine (Reads.freshId hc₁).bind ?_
  rintro _ _ c₂ c₂' hc₂ ⟨hj₂, rfl, rfl⟩
  refine (Reads.accept hc₂ (by decide)).bind ?_
  rintro _ b c₃ c₃' hc₃ ⟨hj₃, rfl⟩
  have hj : c₃.nextId = c₁.nextId + 1 := hj₃.trans hj₂
  cases b with
  | false => exact .pure hc₃ (hj ▸ .name ht hword)
  | true =>
    refine (h.expression hc₃).bind fun index index' c₄ c₄' hc₄ hindex => ?_
    refine (Reads.expect hc₄ _).bind ?_
    rintro _ _ c₅ c₅' hc₅ ⟨hj₅, _⟩
    rw [hj, ← hj₅] at hindex
    exact .pure hc₅ (.index ht hword hindex)

/-- Something in parentheses. -/
theorem grouping_makes (h : ProductionsMake G n n') (hc : G.Step c c') (hend : c.atEnd = false) :
    Reads G never G.Step (fun j e e' => e.Made G.token G.shift c.nextId j e')
      ((do let _ ← advance
           skipNewlines
           let inner ← expression n
           skipNewlines
           let _ ← expect .rightParen .groupClose
           return Expr.grouping inner) c)
      ((do let _ ← advance
           skipNewlines
           let inner ← expression n'
           skipNewlines
           let _ ← expect .rightParen .groupClose
           return Expr.grouping inner) c') := by
  refine (Reads.advance hc hend).bind ?_
  rintro _ _ c₁ c₁' hc₁ ⟨hj₁, _⟩
  refine (Reads.skipNewlines hc₁).bind ?_
  rintro _ _ c₂ c₂' (hc₂ | hpast) hj₂
  · rw [← hj₁, ← hj₂]
    refine (h.expression hc₂).bind fun e e' c₃ c₃' hc₃ he => ?_
    refine (Reads.skipNewlines hc₃).bind ?_
    rintro _ _ c₄ c₄' (hc₄ | hpast) hj₄
    · refine (Reads.expect hc₄ _).bind ?_
      rintro _ _ c₅ c₅' hc₅ ⟨hj₅, _⟩
      rw [← hj₄, ← hj₅] at he
      exact .pure hc₅ he.grouping
    · exact .lost hpast.lost (Reads.bind_error (Reads.expect_lost hpast.lost _ _))
  · exact .lost hpast.lost (Reads.bind_error (expression_lost hpast.lost))

/-- A list. -/
theorem list_makes (h : ProductionsMake G n n') (hc : G.Step c c') (hend : c.atEnd = false) :
    Reads G never G.Step (fun j e e' => e.Made G.token G.shift c.nextId j e')
      ((do let _ ← advance
           skipNewlines
           let elements ← elementRow n
           let _ ← expect .rightBracket .listClose
           return Expr.literal .list (.list elements)) c)
      ((do let _ ← advance
           skipNewlines
           let elements ← elementRow n'
           let _ ← expect .rightBracket .listClose
           return Expr.literal .list (.list elements)) c') := by
  refine (Reads.advance hc hend).bind ?_
  rintro _ _ c₁ c₁' hc₁ ⟨hj₁, _⟩
  refine (Reads.skipNewlines hc₁).bind ?_
  rintro _ _ c₂ c₂' (hc₂ | hpast) hj₂
  · rw [← hj₁, ← hj₂]
    refine (h.elementRow hc₂).bindEscaping
      (fun _ _ hlost _ => .lost hlost (Reads.bind_error (Reads.expect_lost hlost _ _)))
      fun es es' c₃ c₃' hc₃ hes => ?_
    refine (Reads.expect hc₃ _).bind ?_
    rintro _ _ c₄ c₄' hc₄ ⟨hj₄, _⟩
    rw [← hj₄] at hes
    exact .pure hc₄ (.list hes)
  · exact .lost hpast.lost (Reads.row_expect hpast.lost (elementRow_idles hpast.lost) _ _ _)

/-- An object literal. -/
theorem object_makes (h : ProductionsMake G n n') (hc : G.Step c c') (hend : c.atEnd = false) :
    Reads G never G.Step (fun j e e' => e.Made G.token G.shift c.nextId j e')
      ((do let brace ← advance
           skipNewlines
           let entries ← entryRow n []
           let _ ← expect .rightBrace .objectClose
           return Expr.object brace entries) c)
      ((do let brace ← advance
           skipNewlines
           let entries ← entryRow n' []
           let _ ← expect .rightBrace .objectClose
           return Expr.object brace entries) c') := by
  refine (Reads.advance hc hend).bind ?_
  rintro brace brace' c₁ c₁' hc₁ ⟨hj₁, ht⟩
  refine (Reads.skipNewlines hc₁).bind ?_
  rintro _ _ c₂ c₂' (hc₂ | hpast) hj₂
  · rw [← hj₁, ← hj₂]
    refine (h.entryRow hc₂ (.nil (Nat.le_refl _))).bindEscaping
      (fun _ _ hlost _ => .lost hlost (Reads.bind_error (Reads.expect_lost hlost _ _)))
      fun es es' c₃ c₃' hc₃ hes => ?_
    refine (Reads.expect hc₃ _).bind ?_
    rintro _ _ c₄ c₄' hc₄ ⟨hj₄, _⟩
    rw [← hj₄] at hes
    exact .pure hc₄ (.object ht hes)
  · exact .lost hpast.lost (Reads.row_expect hpast.lost (entryRow_idles hpast.lost []) _ _ _)

theorem primary_makes (h : ProductionsMake G n n') (hc : G.Step c c') :
    Reads G never G.Step (fun j e e' => e.Made G.token G.shift c.nextId j e')
      (primary (n + 1) c) (primary (n' + 1) c') := by
  rcases hc.peek with ht | ⟨hlost, _⟩
  · simp only [primary]
    refine Reads.get ?_
    rw [ht.kind_eq]
    have hend : c.peek.kind ≠ .endMark → c.atEnd = false := by simp [Cursor.atEnd]
    generalize hkind : c.peek.kind = kind at hend
    have hfail : Reads G never G.Step (fun j e e' => Expr.Made G.token G.shift c.nextId j e e')
        (failExpecting .expression c) (failExpecting .expression c') := .failExpecting hc _
    split
    case h_3 =>
      refine (Reads.advance hc (hend (by decide))).bind ?_
      rintro t t' c₁ c₁' hc₁ ⟨hj₁, ht⟩
      exact .pure hc₁ (hj₁ ▸ stringLiteral_makes ht)
    case h_4 | h_5 | h_6 | h_7 | h_8 => exact word_makes hc (hend (by decide)) _ fun _ => by simp
    case h_9 =>
      refine (Reads.advance hc (hend (by decide))).bind ?_
      rintro t t' c₁ c₁' hc₁ ⟨hj₁, ht⟩
      refine (Reads.expectTo hc₁ _).bind ?_
      rintro _ _ c₂ c₂' ⟨hc₂, hlast⟩ ⟨hj₂, _⟩
      rw [← hj₁, ← hj₂]
      refine (h.functionRest ht hc₂ hlast).bind ?_
      rintro f f' c₃ c₃' hc₃ ⟨hf, -⟩
      exact .pure hc₃ (.function ht hf)
    case h_10 =>
      refine (Reads.advanceKind hc (hend (by decide))).bind ?_
      rintro t t' c₁ c₁' hc₁ ⟨hj₁, ht, hword⟩
      rw [← hj₁]
      refine (Reads.freshId hc₁).bind ?_
      rintro _ _ c₂ c₂' hc₂ ⟨hj₂, rfl, rfl⟩
      exact .pure hc₂ (hj₂ ▸ .this ht (hword.trans hkind))
    case h_11 | h_12 => exact reference_makes h hc (hend (by decide)) (by simp [hkind])
    case h_13 => exact grouping_makes h hc (hend (by decide))
    case h_14 => exact list_makes h hc (hend (by decide))
    case h_15 =>
      have hend := hend (by decide)
      rcases hc.tail hend with ⟨_, hobject⟩ | hout
      · rw [hobject]
        split
        · exact object_makes h hc hend
        · exact hfail
      · rw [hout.not_atObject]
        refine .failed fun hexact => ?_
        obtain ⟨more, hmore⟩ := hout.1
        rw [G.whole hexact] at hmore
        cases hmore
    case h_16 => exact hfail
    all_goals
      refine (Reads.advance hc (hend (by decide))).bind ?_
      rintro t t' c₁ c₁' hc₁ ⟨hj₁, ht⟩
      exact hj₁ ▸ numberLiteral_makes hc₁ ht
  · exact .lost hlost (primary_barren (.inl hlost.peek_kind))

/-! ### Functions and blocks -/

theorem functionRest_makes (h : ProductionsMake G n n') (hb : G.Bounds n n') {t t' : Token}
    (ht : G.token t t') (hc : G.Step c c') (hlast : G.token c.last c'.last) :
    Reads G never G.Step (fun j f f' => f.Made G.token G.shift c.nextId j f' ∧ f.name = t)
      (functionRest (n + 1) t c) (functionRest (n' + 1) t' c') := by
  have hsplit (n : Nat) (t : Token) : functionRest (n + 1) t = (do
      let s ← (do let params ← parameters n
                  let result ← annotated n
                  return (params, result) : Parse (List Parameter × Option Ty))
      let body ← block n
      return .mk t s.1 body s.2) := by
    simp only [functionRest, bind_assoc, pure_bind]
  rw [hsplit, hsplit]
  refine (signature_read hb hc hlast).bind ?_
  rintro ⟨ps, ty⟩ ⟨ps', ty'⟩ c₁ c₁' hc₁ ⟨hj₁, hps, hty⟩
  rw [← hj₁]
  refine (h.block hc₁).bind fun ss ss' c₂ c₂' hc₂ hss => ?_
  exact .pure hc₂ ⟨.mk hty ht hps hss, rfl⟩

theorem block_makes (h : ProductionsMake G n n') (hc : G.Step c c') :
    Reads G never G.Step (fun j ss ss' => stmtsMade G.token G.shift c.nextId j ss ss')
      (block (n + 1) c) (block (n' + 1) c') := by
  simp only [block]
  refine (Reads.skipNewlines hc).bind ?_
  rintro _ _ c₁ c₁' (hc₁ | hpast) hj₁
  · rw [← hj₁]
    refine (Reads.accept hc₁ (by decide)).bind ?_
    rintro _ b c₂ c₂' hc₂ ⟨hj₂, rfl⟩
    rw [← hj₂]
    cases b with
    | true => exact .pure hc₂ (.nil (Nat.le_refl _))
    | false =>
      refine (Reads.expect hc₂ _).bind ?_
      rintro _ _ c₃ c₃' hc₃ ⟨hj₃, _⟩
      refine (Reads.skipNewlines hc₃).bind ?_
      rintro _ _ c₄ c₄' (hc₄ | hpast) hj₄
      · rw [← hj₃, ← hj₄]
        refine (h.blockRow hc₄).bindEscaping
          (fun _ _ hlost _ => .lost hlost (Reads.bind_error (Reads.expect_lost hlost _ _)))
          fun ss ss' c₅ c₅' hc₅ hss => ?_
        refine (Reads.expect hc₅ _).bind ?_
        rintro _ _ c₆ c₆' hc₆ ⟨hj₆, _⟩
        rw [← hj₆] at hss
        exact .pure hc₆ hss
      · exact .lost hpast.lost (Reads.row_expect hpast.lost (blockRow_idles hpast.lost) _ _ _)
  · refine .lost hpast.lost ?_
    rw [Reads.bind_ok (Reads.accept_lost hpast.lost _)]
    exact Reads.bind_error (Reads.expect_lost hpast.lost _ _)

/-- After a statement of a block: line feeds and the rest. -/
theorem blockRest_makes (h : ProductionsMake G n n') {i : Nat} {s s' : Stmt}
    (hc : Ended G c c') (hs : s.Made G.token G.shift i c.nextId s') :
    Reads G (outside G) G.Step (fun j ss ss' => stmtsMade G.token G.shift i j ss ss')
      ((do skipNewlines; return s :: (← blockRow n)) c)
      ((do skipNewlines; return s' :: (← blockRow n')) c') := by
  rcases hc with hc | hover
  · refine (Reads.skipNewlines hc).bind ?_
    rintro _ _ c₁ c₁' (hc₁ | hpast) hj₁
    · rw [← hj₁] at hs
      refine (h.blockRow hc₁).bindEscaping (fun _ _ hlost _ => .escaped hlost)
        fun ss ss' c₂ c₂' hc₂ hss => ?_
      exact .pure hc₂ (.cons hs hss)
    · exact Reads.row_rest hpast.lost (blockRow_idles hpast.lost) _
  · rw [Reads.bind_ok (Reads.skipNewlines_lost hover.lost)]
    exact Reads.row_rest hover.lost (blockRow_idles hover.lost) _

theorem blockRow_makes (h : ProductionsMake G n n') (hc : G.Step c c') :
    Reads G (outside G) G.Step (fun j ss ss' => stmtsMade G.token G.shift c.nextId j ss ss')
      (blockRow (n + 1) c) (blockRow (n' + 1) c') := by
  simp only [blockRow]
  refine Reads.row hc (.nil (Nat.le_refl _)) ?_
  refine (h.statement hc).bindEscaping ?_ fun s s' c₁ c₁' hc₁ hs => blockRest_makes h hc₁ hs
  rintro s c₁ ⟨hlost, _⟩ r'
  rw [Reads.bind_ok (Reads.skipNewlines_lost hlost)]
  exact Reads.row_rest hlost (blockRow_idles hlost) _

/-! ### Statements -/

/-- The end of a statement that is complete. -/
theorem end_makes {i : Nat} {s s' : Stmt} (hc : G.Step c c')
    (hs : ∀ j, j = c.nextId → s.Made G.token G.shift i j s') :
    Reads G never (Ended G) (fun j s s' => s.Made G.token G.shift i j s')
      ((do statementEnd; return s) c) ((do statementEnd; return s') c') :=
  (Reads.statementEnd hc).bind fun _ _ _ _ hc₁ hj₁ => .pure hc₁ (hs _ hj₁)

theorem expressionStatement_lost (hc : G.Lost c) : ∃ e, expressionStatement n c = .error e := by
  cases n with
  | zero => exact ⟨_, rfl⟩
  | succ n =>
    rw [expressionStatement, Reads.peek_bind]
    exact Reads.bind_error (expression_lost hc)

theorem expressionStatement_makes (h : ProductionsMake G n n') (hc : G.Step c c') :
    Reads G never (Ended G) (fun j s s' => s.Made G.token G.shift c.nextId j s')
      (expressionStatement (n + 1) c) (expressionStatement (n' + 1) c') := by
  rcases hc.peek with ht | ⟨hlost, _⟩
  · simp only [expressionStatement, Reads.peek_bind]
    by_cases hmark : c.peek.kind = .endMark
    · exact .bindFailed (expression_barren (.inl hmark)) (h.expression hc)
    · refine (h.expression hc).bind fun e e' c₁ c₁' hc₁ he => ?_
      exact end_makes hc₁ fun j hj => hj ▸ .expression he (ht.token hmark)
  · exact .lost hlost (expressionStatement_lost hlost)

theorem classDeclaration_makes (h : ProductionsMake G n n') (hc : G.Step c c') :
    Reads G never G.Step (fun j s s' => s.Made G.token G.shift c.nextId j s')
      (classDeclaration (n + 1) c) (classDeclaration (n' + 1) c') := by
  simp only [classDeclaration]
  refine (Reads.expectKind hc _).bind ?_
  rintro name name' c₁ c₁' ⟨hc₁, -⟩ ⟨hj₁, ht, hkind⟩
  refine (Reads.skipNewlines hc₁).bind ?_
  rintro _ _ c₂ c₂' (hc₂ | hpast) hj₂
  · rw [← hj₁, ← hj₂]
    refine (Reads.accept hc₂ (by decide)).bind ?_
    rintro _ b c₃ c₃' hc₃ ⟨hj₃, rfl⟩
    rw [← hj₃]
    cases b with
    | true => exact .pure hc₃ (.classDecl ht hkind (.nil (Nat.le_refl _)))
    | false =>
      refine (Reads.expect hc₃ _).bind ?_
      rintro _ _ c₄ c₄' hc₄ ⟨hj₄, _⟩
      refine (Reads.skipNewlines hc₄).bind ?_
      rintro _ _ c₅ c₅' (hc₅ | hpast) hj₅
      · rw [← hj₄, ← hj₅]
        refine (h.memberRow hc₅).bindEscaping
          (fun _ _ hlost _ => .lost hlost (Reads.bind_error (Reads.expect_lost hlost _ _)))
          fun m m' c₆ c₆' hc₆ hm => ?_
        refine (Reads.expect hc₆ _).bind ?_
        rintro _ _ c₇ c₇' hc₇ ⟨hj₇, _⟩
        rw [← hj₇] at hm
        exact .pure hc₇ (.classDecl ht hkind hm)
      · exact .lost hpast.lost (Reads.row_expect hpast.lost (memberRow_idles hpast.lost) _ _ _)
  · refine .lost hpast.lost ?_
    rw [Reads.bind_ok (Reads.accept_lost hpast.lost _)]
    exact Reads.bind_error (Reads.expect_lost hpast.lost _ _)

theorem memberRow_makes (h : ProductionsMake G n n') (hb : G.Bounds n n') (hc : G.Step c c') :
    Reads G (outside G) G.Step (fun j m m' => membersMade G.token G.shift c.nextId j m m')
      (memberRow (n + 1) c) (memberRow (n' + 1) c') := by
  simp only [memberRow]
  refine Reads.row hc (.nil (Nat.le_refl _)) ?_
  refine (Reads.expectTo hc _).bind ?_
  rintro name name' c₁ c₁' ⟨hc₁, hlast⟩ ⟨hj₁, ht⟩
  refine (Reads.acceptTo hc₁ hlast (by decide)).bind ?_
  rintro _ b c₂ c₂' ⟨hc₂, hlast⟩ ⟨hj₂, rfl⟩
  rw [← hj₁, ← hj₂]
  cases b with
  | true =>
    refine (h.functionRest ht hc₂ hlast).bind ?_
    rintro f f' c₃ c₃' hc₃ ⟨hf, -⟩
    refine (Reads.skipNewlines hc₃).bind ?_
    rintro _ _ c₄ c₄' (hc₄ | hpast) hj₄
    · rw [← hj₄] at hf
      refine (h.memberRow hc₄).bindEscaping (fun _ _ hlost _ => .escaped hlost)
        fun m m' c₅ c₅' hc₅ hm => ?_
      exact .pure hc₅ (.method hf hm)
    · exact Reads.row_rest hpast.lost (memberRow_idles hpast.lost) _
  | false =>
    refine (annotation_read hb hc₂ hlast).bind ?_
    rintro ty ty' c₃ c₃' hc₃ ⟨hj₃, hty⟩
    refine (Reads.expect hc₃ _).bind ?_
    rintro _ _ c₄ c₄' hc₄ ⟨hj₄, _⟩
    rw [← hj₃, ← hj₄]
    refine (h.expression hc₄).bind fun e e' c₅ c₅' hc₅ he => ?_
    refine (Reads.statementEnd hc₅).bind ?_
    rintro _ _ c₆ c₆' (hc₆ | hover) hj₆
    · refine (Reads.skipNewlines hc₆).bind ?_
      rintro _ _ c₇ c₇' (hc₇ | hpast) hj₇
      · rw [← hj₆, ← hj₇] at he
        refine (h.memberRow hc₇).bindEscaping (fun _ _ hlost _ => .escaped hlost)
          fun m m' c₈ c₈' hc₈ hm => ?_
        exact .pure hc₈ (.field hty ht he hm)
      · exact Reads.row_rest hpast.lost (memberRow_idles hpast.lost) _
    · rw [Reads.bind_ok (Reads.skipNewlines_lost hover.lost)]
      exact Reads.row_rest hover.lost (memberRow_idles hover.lost) _

/-- What later tokens there are do not go on after an `if`. -/
theorem accept_else_past (hif : ∃ u u', G.token u u' ∧ u.kind = .kwIf) (h : G.Past c c') :
    accept .kwElse c' = .ok (false, c') := by
  obtain ⟨⟨_, _, ⟨feeds, hfeeds, hlater⟩, _⟩, t, rest, hrest, ht⟩ := h
  obtain ⟨u, rest', hdrop, hu⟩ := G.goesOn hlater
  rw [Reads.dropWhile_feeds hfeeds, hrest, List.dropWhile_cons_of_neg (by simpa using ht)] at hdrop
  obtain ⟨rfl, rfl⟩ := List.cons.inj hdrop
  obtain ⟨v, v', hv, hkind⟩ := hif
  have hne : t.kind ≠ .kwElse := fun helse => hu helse v v' hv hkind
  have hcheck : c'.check .kwElse = false := by simp [Cursor.check, Cursor.peek, hrest, hne]
  change (if c'.check .kwElse then _ else _ : Parse Bool) c' = _
  rw [hcheck]
  rfl

theorem ifStatement_makes (h : ProductionsMake G n n')
    (hif : ∃ u u', G.token u u' ∧ u.kind = .kwIf) {t t' : Token} (ht : G.token t t')
    (hc : G.Step c c') :
    Reads G never G.Step (fun j s s' => s.Made G.token G.shift c.nextId j s')
      (ifStatement (n + 1) t c) (ifStatement (n' + 1) t' c') := by
  simp only [ifStatement]
  refine (Reads.expect hc _).bind ?_
  rintro _ _ c₁ c₁' hc₁ ⟨hj₁, _⟩
  rw [← hj₁]
  refine (h.expression hc₁).bind fun e e' c₂ c₂' hc₂ he => ?_
  refine (Reads.expect hc₂ _).bind ?_
  rintro _ _ c₃ c₃' hc₃ ⟨hj₃, _⟩
  rw [← hj₃] at he
  refine (h.block hc₃).bind fun ss ss' c₄ c₄' hc₄ hss => ?_
  have hnone : (Stmt.cond t e (.block ss) none).Made G.token G.shift c₁.nextId c₄.nextId
      (.cond t' e' (.block ss') none) :=
    .cond ht he (.block hss) (.none (Nat.le_refl _))
  refine Reads.get ?_
  refine (Reads.skipNewlines hc₄).bind ?_
  rintro _ _ c₅ c₅' (hc₅ | hpast) hj₅
  · refine (Reads.accept hc₅ (by decide)).bind ?_
    rintro _ b c₆ c₆' hc₆ ⟨hj₆, rfl⟩
    cases b with
    | false => exact .read hc₄ hnone
    | true =>
      rw [← hj₅, ← hj₆] at hss
      refine (Reads.acceptAny hc₆ (by decide)).bind ?_
      rintro _ _ c₇ c₇' hc₇ ⟨hj₇, hab⟩
      rw [← hj₇] at hss
      cases hab with
      | some hinner =>
        refine (h.ifStatement hif hinner hc₇).bind fun s s' c₈ c₈' hc₈ hs => ?_
        exact .pure hc₈ (.cond ht he (.block hss) (.some hs))
      | none =>
        refine (h.block hc₇).bind fun rest rest' c₈ c₈' hc₈ hrest => ?_
        exact .pure hc₈ (.cond ht he (.block hss) (.some (.block hrest)))
  · rw [Reads.bind_ok (Reads.accept_lost hpast.lost _), Reads.bind_ok (accept_else_past hif hpast)]
    exact .read hc₄ hnone

/-- An unfinished body makes an unfinished loop. -/
theorem unfinished_loop {s : Stmt} (h : s.Unfinished) (e : Expr) (t : Token) :
    (Stmt.loop e s t).Unfinished := by
  intro sure ctx
  obtain ⟨p, hp, hempty⟩ := h false ctx
  refine ⟨p, ?_, hempty⟩
  simp only [Stmt.places, List.mem_cons, List.mem_append]
  exact .inr (.inr hp)

theorem whileStatement_makes (h : ProductionsMake G n n') {t t' : Token} (ht : G.token t t')
    (hc : G.Step c c') :
    Reads G (unfinished G) (Ended G) (fun j s s' => s.Made G.token G.shift c.nextId j s')
      (whileStatement (n + 1) t c) (whileStatement (n' + 1) t' c') := by
  simp only [whileStatement]
  refine (Reads.expect hc _).bind ?_
  rintro _ _ c₁ c₁' hc₁ ⟨hj₁, _⟩
  rw [← hj₁]
  refine (h.expression hc₁).bind fun e e' c₂ c₂' hc₂ he => ?_
  refine (Reads.expect hc₂ _).bind ?_
  rintro _ _ c₃ c₃' hc₃ ⟨hj₃, _⟩
  rw [← hj₃] at he
  refine (h.statement hc₃).bindEscaping ?_ fun s s' c₄ c₄' hc₄ hs => .pure hc₄ (.loop he hs ht)
  rintro s c₄ ⟨hlost, hs⟩ r'
  exact .escaped ⟨hlost, unfinished_loop hs e t⟩

theorem unfinished_stmts {s : Stmt} (h : s.Unfinished) {ss : List Stmt} (hs : s ∈ ss)
    (sure : Bool) (ctx : Surroundings) : ∃ p ∈ stmtsPlaces sure ctx ss, p.node = .stmt .empty := by
  induction ss generalizing ctx with
  | nil => cases hs
  | cons s₀ ss ih =>
    simp only [stmtsPlaces, List.mem_append]
    rcases List.mem_cons.1 hs with rfl | hs
    · obtain ⟨p, hp, hempty⟩ := h sure ctx
      exact ⟨p, .inl hp, hempty⟩
    · obtain ⟨p, hp, hempty⟩ := ih hs (s₀.after sure ctx)
      exact ⟨p, .inr hp, hempty⟩

/-- A row of statements without an empty one anywhere. -/
theorem filled_of_places {ss : List Stmt} {sure : Bool} {ctx : Surroundings}
    (h : ∀ p ∈ stmtsPlaces sure ctx ss, p.node ≠ .stmt .empty) : Filled ss := by
  intro s hs hun
  obtain ⟨p, hp, hempty⟩ := unfinished_stmts hun hs sure ctx
  exact h p hp hempty

theorem unfinished_block {s : Stmt} (h : s.Unfinished) {ss : List Stmt} (hs : s ∈ ss) :
    (Stmt.block ss).Unfinished := by
  intro sure ctx
  obtain ⟨p, hp, hempty⟩ := unfinished_stmts h hs true (ctx.enterBlock ss)
  refine ⟨p, ?_, hempty⟩
  simp only [Stmt.places]
  exact List.mem_cons_of_mem _ hp

theorem unfinished_forLoop {s : Stmt} (h : s.Unfinished) (t : Token) (init : Option Stmt)
    (e : Expr) (inc : Option Expr) : (forLoop t init e inc s).Unfinished := by
  cases inc with
  | none => exact unfinished_block (unfinished_loop h e t) (List.mem_append_right _ (by simp))
  | some d =>
    have hwhole : (Stmt.block [s, .expression d t]).Unfinished := unfinished_block h (by simp)
    exact unfinished_block (unfinished_loop hwhole e t) (List.mem_append_right _ (by simp))

/-- The end of a `for` loop, from its closing parenthesis on. -/
theorem forBody_makes (h : ProductionsMake G n n') {i j k : Nat} {t t' : Token}
    (ht : G.token t t') {init init' : Option Stmt}
    (hinit : optionMade G.token G.shift i j init init') {e e' : Expr}
    (he : e.Made G.token G.shift j k e') {inc inc' : Option Expr} (hc : G.Step c c')
    (hk : k ≤ c.nextId) (hinc : Option.Rel (Expr.Made G.token G.shift k c.nextId) inc inc') :
    Reads G (unfinished G) (Ended G) (fun j s s' => s.Made G.token G.shift i j s')
      ((do let _ ← expect .rightParen .forClose
           let body ← statement n
           return forLoop t init e inc body) c)
      ((do let _ ← expect .rightParen .forClose
           let body ← statement n'
           return forLoop t' init' e' inc' body) c') := by
  refine (Reads.expect hc _).bind ?_
  rintro _ _ c₁ c₁' hc₁ ⟨hj₁, _⟩
  rw [← hj₁] at hk hinc
  refine (h.statement hc₁).bindEscaping ?_ fun s s' c₂ c₂' hc₂ hs => ?_
  · rintro s c₂ ⟨hlost, hs⟩ r'
    exact .escaped ⟨hlost, unfinished_forLoop hs t init e inc⟩
  · exact .pure hc₂ (.forLoop ht hinit he hk hinc hs)

/-- A `for` loop from the semicolon after its condition on. -/
theorem forIncrement_makes (h : ProductionsMake G n n') {i j : Nat} {t t' : Token}
    (ht : G.token t t') {init init' : Option Stmt}
    (hinit : optionMade G.token G.shift i j init init') {e e' : Expr} (hc : G.Step c c')
    (he : e.Made G.token G.shift j c.nextId e') :
    Reads G (unfinished G) (Ended G) (fun j s s' => s.Made G.token G.shift i j s')
      ((do let _ ← expect .semicolon .loopSemicolon
           let increment ← if (← get).check .rightParen then pure none else some <$> expression n
           let _ ← expect .rightParen .forClose
           let body ← statement n
           return forLoop t init e increment body) c)
      ((do let _ ← expect .semicolon .loopSemicolon
           let increment ← if (← get).check .rightParen then pure none else some <$> expression n'
           let _ ← expect .rightParen .forClose
           let body ← statement n'
           return forLoop t' init' e' increment body) c') := by
  refine (Reads.expect hc _).bind ?_
  rintro _ _ c₁ c₁' hc₁ ⟨hj₁, _⟩
  rw [← hj₁] at he
  refine Reads.get ?_
  rw [hc₁.check (by decide)]
  split
  · exact forBody_makes h ht hinit he hc₁ (Nat.le_refl _) .none
  · refine .bind (P := fun j a b => c₁.nextId ≤ j ∧
      Option.Rel (Expr.Made G.token G.shift c₁.nextId j) a b) (S := G.Step) ?_ ?_
    · rw [map_eq_pure_bind, map_eq_pure_bind]
      refine (h.expression hc₁).bind fun d d' c₂ c₂' hc₂ hd => ?_
      exact .pure hc₂ ⟨hd.le, .some hd⟩
    · rintro inc inc' c₂ c₂' hc₂ ⟨hle, hinc⟩
      exact forBody_makes h ht hinit he hc₂ hle hinc

/-- A `for` loop that is at the end mark where its condition should be. -/
theorem forCondition_lost (hc : G.Lost c) (e : Expr) (k : Expr → Parse Stmt) {α : Type}
    {S : Cursor → Cursor → Prop} {P : Nat → Stmt → α → Prop}
    {r' : Except Failure (α × Cursor)} :
    Reads G (unfinished G) S P
      ((do let condition ← if Cursor.check (← get) .semicolon then pure e else expression n
           k condition : Parse Stmt) c) r' := by
  refine .lost hc ?_
  rw [Reads.get_bind, hc.check]
  exact Reads.bind_error (expression_lost hc)

theorem forStatement_makes (h : ProductionsMake G n n') {t t' : Token} (ht : G.token t t')
    (hc : G.Step c c') :
    Reads G (unfinished G) (Ended G) (fun j s s' => s.Made G.token G.shift c.nextId j s')
      (forStatement (n + 1) t c) (forStatement (n' + 1) t' c') := by
  simp only [forStatement]
  refine (Reads.expect hc _).bind ?_
  rintro _ _ c₁ c₁' hc₁ ⟨hj₁, _⟩
  rw [← hj₁]
  refine (h.forInit hc₁).bind ?_
  rintro init init' c₂ c₂' (hc₂ | hover) hinit
  · rcases hc₂.sameView with ⟨_, hcheck⟩ | hlost
    · refine Reads.get ?_
      rw [hcheck]
      split
      · refine forIncrement_makes h ht hinit hc₂ ?_
        exact .literal _ (Nat.le_refl _) fun _ => by simp
      · refine (h.expression hc₂).bind fun e e' c₃ c₃' hc₃ he => ?_
        exact forIncrement_makes h ht hinit hc₃ he
    · exact forCondition_lost hlost _ _
  · exact forCondition_lost hover.lost _ _

theorem forInit_makes (h : ProductionsMake G n n') (hc : G.Step c c') :
    Reads G never (Ended G) (fun j o o' => optionMade G.token G.shift c.nextId j o o')
      (forInit (n + 1) c) (forInit (n' + 1) c') := by
  simp only [forInit]
  rcases hc.sameView with ⟨_, hcheck⟩ | hlost
  swap
  · refine .lost hlost ?_
    rw [Reads.bind_ok (Reads.accept_lost hlost _), if_neg Bool.false_ne_true,
      Reads.bind_ok (Reads.acceptAny_lost hlost _)]
    exact Reads.bind_error (expressionStatement_lost hlost)
  refine (Reads.accept_same hc (hcheck _)).bind ?_
  rintro _ b c₁ c₁' hc₁ ⟨hj₁, rfl⟩
  rw [← hj₁]
  cases b with
  | true => exact .pure (.inl hc₁) (.none (Nat.le_refl _))
  | false =>
    refine (Reads.acceptAny hc₁ (by decide)).bind ?_
    rintro _ _ c₂ c₂' hc₂ ⟨hj₂, hab⟩
    rw [← hj₂]
    cases hab with
    | some ht =>
      exact (h.variableDeclaration ht hc₂).bind fun s s' c₃ c₃' hc₃ hs => .pure hc₃ (.some hs)
    | none =>
      exact (h.expressionStatement hc₂).bind fun s s' c₃ c₃' hc₃ hs => .pure hc₃ (.some hs)

theorem variableDeclaration_makes (h : ProductionsMake G n n') (hb : G.Bounds n n')
    {t t' : Token} (ht : G.token t t') (hc : G.Step c c') :
    Reads G never (Ended G) (fun j s s' => s.Made G.token G.shift c.nextId j s')
      (variableDeclaration (n + 1) t c) (variableDeclaration (n' + 1) t' c') := by
  simp only [variableDeclaration, kind_eq ht]
  refine (Reads.expectKind hc _).bind ?_
  rintro name name' c₁ c₁' ⟨hc₁, hlast⟩ ⟨hj₁, hname, hkind⟩
  refine (annotation_read hb hc₁ hlast).bind ?_
  rintro ty ty' c₂ c₂' hc₂ ⟨hj₂, hty⟩
  rw [← hj₁, ← hj₂]
  simp only [Reads.peek_bind]
  rw [hc₂.isTerminator]
  split
  · exact end_makes hc₂ fun j hj => .variable _ hty hname hkind (.none (Nat.le_of_eq hj.symm))
  · refine (Reads.expect hc₂ _).bind ?_
    rintro equals equals' c₃ c₃' hc₃ ⟨hj₃, hequals⟩
    rcases hc₃.sameView with ⟨hatEnd, hcheck⟩ | hlost
    swap
    · refine .lost hlost ?_
      rw [Reads.get_bind, hlost.atEnd, Bool.or_true, if_pos rfl]
      exact Reads.bind_error ⟨_, rfl⟩
    refine Reads.get ?_
    rw [hcheck, hatEnd]
    split
    · exact .bind (P := fun _ _ _ => False) (S := G.Step) (.failExpecting hc₃ _)
        fun _ _ _ _ _ h => h.elim
    · rw [← hj₃]
      refine (h.expression hc₃).bind fun e e' c₄ c₄' hc₄ he => ?_
      exact end_makes hc₄ fun j hj =>
        hj ▸ .variable _ hty hname hkind (.some (.expression he hequals))

theorem returnStatement_makes (h : ProductionsMake G n n') {t t' : Token} (ht : G.token t t')
    (hc : G.Step c c') :
    Reads G never (Ended G) (fun j s s' => s.Made G.token G.shift c.nextId j s')
      (returnStatement (n + 1) t c) (returnStatement (n' + 1) t' c') := by
  simp only [returnStatement, Reads.peek_bind]
  rw [hc.isTerminator]
  split
  · refine end_makes hc fun j hj => .returns ht (.expression ?_ ht)
    exact .literal _ (Nat.le_of_eq hj.symm) fun _ => by simp
  · refine (h.expression hc).bind fun e e' c₁ c₁' hc₁ he => ?_
    exact end_makes hc₁ fun j hj => hj ▸ .returns ht (.expression he ht)

theorem indexAssignment_makes (h : ProductionsMake G n n') (hname : c.check .name = true)
    (hc : G.Step c c') :
    Reads G never (Ended G) (fun j s s' => s.Made G.token G.shift c.nextId j s')
      (indexAssignment (n + 1) c) (indexAssignment (n' + 1) c') := by
  simp only [indexAssignment]
  refine (Reads.advanceKind hc (Reads.atEnd_of_check hname)).bind ?_
  rintro name name' c₁ c₁' hc₁ ⟨hj₁, ht, hkind⟩
  have hword : name.kind ∈ [Token.Kind.name, .kwPrint] := by
    rw [hkind]
    simp only [Cursor.check, Bool.and_eq_true, beq_iff_eq] at hname
    simp [hname.2]
  rw [← hj₁]
  refine (Reads.freshId hc₁).bind ?_
  rintro _ _ c₂ c₂' hc₂ ⟨hj₂, rfl, rfl⟩
  refine (Reads.expect hc₂ _).bind ?_
  rintro _ _ c₃ c₃' hc₃ ⟨hj₃, _⟩
  refine (h.expression hc₃).bind fun e e' c₄ c₄' hc₄ he => ?_
  rw [hj₃, hj₂] at he
  refine (Reads.expect hc₄ _).bind ?_
  rintro _ _ c₅ c₅' hc₅ ⟨hj₅, _⟩
  refine (Reads.expect hc₅ _).bind ?_
  rintro _ _ c₆ c₆' hc₆ ⟨hj₆, _⟩
  rw [← hj₅, ← hj₆] at he
  refine (h.expression hc₆).bind fun d d' c₇ c₇' hc₇ hd => ?_
  exact end_makes hc₇ fun j hj => hj ▸ .indexAssign ht hword he hd

/-- Braces that the end mark cuts off are no block. -/
theorem block_runsOut (hout : G.RunsOut c.rest.tail) (hbrace : c.peek.kind = .leftBrace) :
    ∃ e, block n c = .error e := by
  cases n with
  | zero => exact ⟨_, rfl⟩
  | succ n =>
    obtain ⟨last, rest, nextId⟩ := c
    obtain ⟨hmore, mark, hdrop, hmark⟩ := hout
    cases rest with
    | nil => cases hdrop
    | cons t ts =>
      replace hbrace : t.kind = .leftBrace := hbrace
      replace hdrop : ts.dropWhile (·.kind == .newline) = [mark] := hdrop
      obtain ⟨last', hfeeds, _⟩ := Reads.dropNewlines_of_dropWhile (l := t) hdrop
      have hlost : G.Lost ⟨last', [mark], nextId⟩ := ⟨hmore, mark, rfl, hmark⟩
      have h₁ : skipNewlines ⟨last, t :: ts, nextId⟩ = .ok ((), ⟨last, t :: ts, nextId⟩) := by
        rw [Reads.skipNewlines_eq]
        simp [dropNewlines, hbrace, Except.map]
      have h₂ : accept .emptyObject ⟨last, t :: ts, nextId⟩ =
          .ok (false, ⟨last, t :: ts, nextId⟩) := by
        change (if Cursor.check _ _ then _ else _ : Parse Bool) _ = _
        rw [if_neg (by simp [Cursor.check, Cursor.peek, hbrace])]
        rfl
      have h₃ : expect .leftBrace .blockOpen ⟨last, t :: ts, nextId⟩ =
          .ok (t, ⟨t, ts, nextId⟩) := by
        change (if Cursor.check _ _ then _ else _ : Parse Token) _ = _
        rw [if_pos (by simp [Cursor.check, Cursor.atEnd, Cursor.peek, hbrace]),
          Reads.advance_cons (by simp [hbrace])]
      have h₄ : skipNewlines ⟨t, ts, nextId⟩ = .ok ((), ⟨last', [mark], nextId⟩) := by
        rw [Reads.skipNewlines_eq]
        dsimp only
        rw [hfeeds]
        rfl
      rw [block, Reads.bind_ok h₁, Reads.bind_ok h₂, if_neg Bool.false_ne_true, Reads.bind_ok h₃,
        Reads.bind_ok h₄]
      exact Reads.row_expect hlost (blockRow_idles hlost) _ _ _

theorem unfinished_empty : Stmt.empty.Unfinished := by
  intro sure ctx
  exact ⟨⟨ctx, .stmt .empty⟩, by simp [Stmt.places], rfl⟩

/-- A production that ends in step, in the place of a statement. -/
theorem reads_inStep {α : Type} {P : Nat → Stmt → α → Prop} {r : Except Failure (Stmt × Cursor)}
    {r' : Except Failure (α × Cursor)} (h : Reads G never G.Step P r r') :
    Reads G (unfinished G) (Ended G) P r r' :=
  h.weaken (fun _ _ h => h.elim) (fun _ _ h => .inl h) fun _ _ _ h => h

/-- A production that never escapes, in the place of a statement. -/
theorem reads_ended {α : Type} {P : Nat → Stmt → α → Prop} {r : Except Failure (Stmt × Cursor)}
    {r' : Except Failure (α × Cursor)} (h : Reads G never (Ended G) P r r') :
    Reads G (unfinished G) (Ended G) P r r' :=
  h.weaken (fun _ _ h => h.elim) (fun _ _ h => h) fun _ _ _ h => h

/-- A function declaration from the word `function` on. -/
theorem functionDeclaration_makes (h : ProductionsMake G n n') (hc : G.Step c c')
    (hend : c.atEnd = false) :
    Reads G never G.Step (fun j s s' => s.Made G.token G.shift c.nextId j s')
      ((do let _ ← advance
           let name ← expect .name .functionName
           let _ ← expect .leftParen .functionParen
           return Stmt.functionDecl (← functionRest n name)) c)
      ((do let _ ← advance
           let name ← expect .name .functionName
           let _ ← expect .leftParen .functionParen
           return Stmt.functionDecl (← functionRest n' name)) c') := by
  refine (Reads.advance hc hend).bind ?_
  rintro _ _ c₁ c₁' hc₁ ⟨hj₁, _⟩
  refine (Reads.expectKind hc₁ _).bind ?_
  rintro name name' c₂ c₂' ⟨hc₂, -⟩ ⟨hj₂, ht, hkind⟩
  refine (Reads.expectTo hc₂ _).bind ?_
  rintro _ _ c₃ c₃' ⟨hc₃, hlast⟩ ⟨hj₃, _⟩
  rw [← hj₁, ← hj₂, ← hj₃]
  refine (h.functionRest ht hc₃ hlast).bind ?_
  rintro f f' c₄ c₄' hc₄ ⟨hf, rfl⟩
  exact .pure hc₄ (.functionDecl hf hkind)

/-- A statement that starts with a brace. -/
theorem brace_makes (h : ProductionsMake G n n') (hc : G.Step c c')
    (hbrace : c.peek.kind = .leftBrace) :
    Reads G never (Ended G) (fun j s s' => s.Made G.token G.shift c.nextId j s')
      ((if c.checkNext .rightBrace then do
          let _ ← advance
          let _ ← advance
          emptyObjectStatement
        else if startsEntry c.rest.tail then expressionStatement n
        else return Stmt.block (← block n)) c)
      ((if c'.checkNext .rightBrace then do
          let _ ← advance
          let _ ← advance
          emptyObjectStatement
        else if startsEntry c'.rest.tail then expressionStatement n'
        else return Stmt.block (← block n')) c') := by
  have hend : c.atEnd = false := by simp [Cursor.atEnd, hbrace]
  rw [hc.checkNext hend (by decide) (by decide)]
  split
  · next hnext =>
    refine Reads.advanceTwice hc hend hnext (by decide) fun c₁ c₁' hc₁ hj₁ => ?_
    exact end_makes hc₁ fun j hj => .object (Nat.le_of_eq (hj.trans hj₁).symm)
  · rcases hc.tail hend with ⟨hstarts, _⟩ | hout
    · rw [hstarts]
      split
      · exact h.expressionStatement hc
      · refine (h.block hc).bind fun ss ss' c₁ c₁' hc₁ hss => ?_
        exact .pure (.inl hc₁) (.block hss)
    · have hstarts : startsEntry c.rest.tail = false := by
        obtain ⟨_, mark, hdrop, _⟩ := hout
        simp [startsEntry, hdrop]
      rw [hstarts]
      obtain ⟨e, he⟩ := Reads.bind_error (k := fun ss => return Stmt.block ss)
        (block_runsOut (n := n) hout hbrace)
      rw [if_neg Bool.false_ne_true, he]
      refine .failed fun hexact => ?_
      obtain ⟨more, hmore⟩ := hout.1
      rw [G.whole hexact] at hmore
      cases hmore

theorem statement_makes (h : ProductionsMake G n n') (hc : G.Step c c') :
    Reads G (unfinished G) (Ended G) (fun j s s' => s.Made G.token G.shift c.nextId j s')
      (statement (n + 1) c) (statement (n' + 1) c') := by
  simp only [statement]
  refine (Reads.skipNewlines hc).bind ?_
  rintro _ _ c₁ c₁' hc₁ hj₁
  rw [← hj₁]
  have hview : (G.Step c₁ c₁' ∧ G.View c₁.peek c₁'.peek) ∨ G.Lost c₁ := by
    rcases hc₁ with hc₁ | hpast
    · rcases hc₁.peek with ht | ⟨hlost, _⟩
      · exact .inl ⟨hc₁, ht⟩
      · exact .inr hlost
    · exact .inr hpast.lost
  rcases hview with ⟨hc₁, hview⟩ | hlost
  · refine Reads.get ?_
    rw [hview.kind_eq]
    have hend : c₁.peek.kind ≠ .endMark → c₁.atEnd = false := by simp [Cursor.atEnd]
    have hbrace : c₁.peek.kind = .leftBrace → _ := brace_makes h hc₁
    have hexpr := reads_ended (h.expressionStatement hc₁)
    generalize hkind : c₁.peek.kind = kind at hend hbrace
    split
    case h_1 =>
      refine (Reads.advance hc₁ (hend (by decide))).bind ?_
      rintro _ _ c₂ c₂' hc₂ ⟨hj₂, _⟩
      exact hj₂ ▸ reads_inStep (h.classDeclaration hc₂)
    case h_2 =>
      refine (Reads.advance hc₁ (hend (by decide))).bind ?_
      rintro _ _ c₂ c₂' hc₂ ⟨hj₂, ht⟩
      exact hj₂ ▸ h.forStatement ht hc₂
    case h_3 =>
      refine (Reads.advance hc₁ (hend (by decide))).bind ?_
      rintro _ _ c₂ c₂' hc₂ ⟨hj₂, ht⟩
      exact hj₂ ▸ h.whileStatement ht hc₂
    case h_4 =>
      refine (Reads.advance hc₁ (hend (by decide))).bind ?_
      rintro _ _ c₂ c₂' hc₂ ⟨hj₂, ht⟩
      have hif : ∃ u u', G.token u u' ∧ u.kind = .kwIf :=
        ⟨_, _, hview.token (by rw [hkind]; decide), hkind⟩
      exact hj₂ ▸ reads_inStep (h.ifStatement hif ht hc₂)
    case h_5 | h_6 | h_7 =>
      refine (Reads.advance hc₁ (hend (by decide))).bind ?_
      rintro _ _ c₂ c₂' hc₂ ⟨hj₂, ht⟩
      exact hj₂ ▸ reads_ended (h.variableDeclaration ht hc₂)
    case h_8 =>
      rw [hc₁.checkNext (hend (by decide)) (by decide) (by decide)]
      split
      · exact reads_inStep (functionDeclaration_makes h hc₁ (hend (by decide)))
      · exact hexpr
    case h_9 =>
      refine (Reads.advance hc₁ (hend (by decide))).bind ?_
      rintro _ _ c₂ c₂' hc₂ ⟨hj₂, ht⟩
      exact hj₂ ▸ reads_ended (h.returnStatement ht hc₂)
    case h_10 => exact reads_ended (hbrace rfl)
    case h_11 =>
      refine (Reads.advance hc₁ (hend (by decide))).bind ?_
      rintro _ _ c₂ c₂' hc₂ ⟨hj₂, _⟩
      exact reads_ended (end_makes hc₂ fun j hj => .object (Nat.le_of_eq (hj.trans hj₂).symm))
    case h_12 => exact .pure (.inl hc₁) (.empty (Nat.le_refl _))
    case h_13 =>
      rw [hc₁.atIndexAssignment]
      split
      · next hindex =>
        have hname : c₁.check .name = true := by
          simp only [Cursor.atIndexAssignment, Bool.and_eq_true] at hindex
          exact hindex.1.1
        exact reads_ended (h.indexAssignment hname hc₁)
      · exact hexpr
  · rw [Reads.get_bind, hlost.peek_kind]
    exact .escaped ⟨hlost, unfinished_empty⟩

/-- All productions make trees side by side. -/
theorem productionsMake (G : Reading) {n n' : Nat} (hb : G.Bounds n n') :
    ProductionsMake G n n' := by
  induction n generalizing n' with
  | zero =>
    exact {
      expression := fun _ => .outOfFuel (x := expression) hb rfl
      binary := fun {levels} _ _ _ _ => .outOfFuel (x := fun n => binary n levels) hb rfl
      binaryRest := fun {operators tighter} _ _ {_ _ left' _ _} _ _ =>
        .outOfFuel (x := fun n => binaryRest n operators tighter left') hb rfl
      unary := fun _ => .outOfFuel (x := unary) hb rfl
      postfixRest := fun {_ _ head' _ _} _ _ => .outOfFuel (x := fun n => postfixRest n head') hb rfl
      argumentRow := fun count _ _ _ => .outOfFuel (x := fun n => argumentRow n count) hb rfl
      primary := fun _ => .outOfFuel (x := primary) hb rfl
      elementRow := fun _ => .outOfFuel (x := elementRow) hb rfl
      entryRow := fun {_ _ entries' _ _} _ _ => .outOfFuel (x := fun n => entryRow n entries') hb rfl
      functionRest := fun {_ t'} _ _ _ _ _ => .outOfFuel (x := fun n => functionRest n t') hb rfl
      block := fun _ => .outOfFuel (x := block) hb rfl
      blockRow := fun _ => .outOfFuel (x := blockRow) hb rfl
      statement := fun _ => .outOfFuel (x := statement) hb rfl
      expressionStatement := fun _ => .outOfFuel (x := expressionStatement) hb rfl
      classDeclaration := fun _ => .outOfFuel (x := classDeclaration) hb rfl
      memberRow := fun _ => .outOfFuel (x := memberRow) hb rfl
      ifStatement := fun _ {_ t'} _ _ _ _ => .outOfFuel (x := fun n => ifStatement n t') hb rfl
      whileStatement := fun {_ t'} _ _ _ _ => .outOfFuel (x := fun n => whileStatement n t') hb rfl
      forStatement := fun {_ t'} _ _ _ _ => .outOfFuel (x := fun n => forStatement n t') hb rfl
      forInit := fun _ => .outOfFuel (x := forInit) hb rfl
      variableDeclaration := fun {_ t'} _ _ _ _ =>
        .outOfFuel (x := fun n => variableDeclaration n t') hb rfl
      returnStatement := fun {_ t'} _ _ _ _ => .outOfFuel (x := fun n => returnStatement n t') hb rfl
      indexAssignment := fun _ _ => .outOfFuel (x := indexAssignment) hb rfl }
  | succ n ih =>
    obtain ⟨k, rfl, hk⟩ := hb.succ
    have h := ih hk
    exact {
      expression := expression_makes h
      binary := fun hlevels _ _ hc => binary_makes h hlevels hc
      binaryRest := fun hops htighter _ _ _ _ _ hc hleft =>
        binaryRest_makes h hops htighter hc hleft
      unary := unary_makes h
      postfixRest := postfixRest_makes h
      argumentRow := fun count _ _ hc => argumentRow_makes h count hc
      primary := primary_makes h
      elementRow := elementRow_makes h
      entryRow := entryRow_makes h
      functionRest := fun ht _ _ hc => functionRest_makes h hk ht hc
      block := block_makes h
      blockRow := blockRow_makes h
      statement := statement_makes h
      expressionStatement := expressionStatement_makes h
      classDeclaration := classDeclaration_makes h
      memberRow := memberRow_makes h hk
      ifStatement := fun hif _ _ ht _ _ hc => ifStatement_makes h hif ht hc
      whileStatement := fun ht _ _ hc => whileStatement_makes h ht hc
      forStatement := fun ht _ _ hc => forStatement_makes h ht hc
      forInit := forInit_makes h
      variableDeclaration := fun ht _ _ hc => variableDeclaration_makes h hk ht hc
      returnStatement := fun ht _ _ hc => returnStatement_makes h ht hc
      indexAssignment := indexAssignment_makes h }

end

end Grammar

end ScopedScript
