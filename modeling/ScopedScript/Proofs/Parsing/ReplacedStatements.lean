import ScopedScript.Proofs.Parsing.Replacements

/-! # Replaced statements

What the productions make of a row does not change its meaning if one statement in it is replaced by
another one that says the same. -/

namespace ScopedScript

/-! ### Trees -/

/-- Two variables, or two properties. -/
inductive Expr.SameTarget : Expr → Expr → Prop
  | name {id id' : NodeId} {token token' : Token} : SameTarget (.name id token) (.name id' token')
  | get {object object' : Expr} {name name' : Token} :
      SameTarget (.get object name) (.get object' name')

/-- The second and the third expression say the same, and all three can be assigned to if the first
can. -/
structure Expr.Retold (e₀ e₁ e₂ : Expr) : Prop where
  target : e₀.IsTarget → e₀.SameTarget e₁ ∧ e₁.SameTarget e₂
  same : e₁.Paraphrases (fun _ _ => True) e₂

theorem Expr.SameTarget.isTarget {e e' : Expr} (h : e.SameTarget e') : e.IsTarget ∧ e'.IsTarget := by
  cases h with
  | name => exact ⟨.name _ _, .name _ _⟩
  | get => exact ⟨.get _ _, .get _ _⟩

namespace Grammar

theorem addEntry_paraphrases {es es' : List Entry} {key key' : Token} {value value' : Expr}
    (hes : entriesParaphrase (fun _ _ => True) es es') (hkey : key.SameWord key')
    (hvalue : value.Paraphrases (fun _ _ => True) value') :
    entriesParaphrase (fun _ _ => True) (addEntry es key value) (addEntry es' key' value') := by
  induction es generalizing es' with
  | nil =>
    obtain rfl := hes
    exact ⟨key', value', [], rfl, hkey, hvalue, rfl⟩
  | cons e es ih =>
    obtain ⟨k, v⟩ := e
    obtain ⟨k', v', ds, rfl, hk, hv, hes⟩ := hes
    simp only [addEntry, hk.lexeme, hkey.lexeme]
    split
    · exact ⟨k', value', ds, rfl, hk, hvalue, hes⟩
    · exact ⟨k', v', _, rfl, hk, hv, ih hes⟩

theorem forLoop_paraphrases {keyword keyword' : Token} {init init' : Option Stmt}
    {condition condition' : Expr} {increment increment' : Option Expr} {body body' : Stmt}
    (hkeyword : keyword.SameWord keyword') (hinit : optionParaphrase (fun _ _ => True) init init')
    (hcondition : condition.Paraphrases (fun _ _ => True) condition')
    (hincrement : Option.Rel (Expr.Paraphrases (fun _ _ => True)) increment increment')
    (hbody : body.Paraphrases (fun _ _ => True) body') :
    (forLoop keyword init condition increment body).Paraphrases (fun _ _ => True)
      (forLoop keyword' init' condition' increment' body') := by
  have hloop : ∀ {whole whole' : Stmt}, whole.Paraphrases (fun _ _ => True) whole' →
      (Stmt.block (init.toList ++ [.loop condition whole keyword])).Paraphrases (fun _ _ => True)
        (.block (init'.toList ++ [.loop condition' whole' keyword'])) := by
    intro whole whole' hwhole
    refine ⟨_, rfl, ?_⟩
    have hlast : stmtsParaphrase (fun _ _ => True) [.loop condition whole keyword]
        [.loop condition' whole' keyword'] :=
      ⟨_, _, rfl, ⟨_, _, _, rfl, hkeyword, hcondition, hwhole⟩, rfl⟩
    cases init with
    | none =>
      obtain rfl := hinit
      exact hlast
    | some s =>
      obtain ⟨s', rfl, hs⟩ := hinit
      exact ⟨_, _, rfl, hs, hlast⟩
  cases hincrement with
  | none => exact hloop hbody
  | some he =>
    exact hloop ⟨_, rfl, _, _, rfl, hbody, _, _, rfl, ⟨_, _, rfl, hkeyword, he⟩, rfl⟩

namespace Replacement

variable {token : Token → Token → Prop} {J : Replacement token} {K : Prop} {n m : Nat}

/-! ### Annotations -/

theorem arrayRest_adapts (h : n ≤ m) (ty₀ ty₁ ty₂ : Ty) :
    J.Adapts K True (fun _ _ _ => True) (arrayRest n ty₀) (arrayRest m ty₁) (arrayRest m ty₂) := by
  induction n generalizing m ty₀ ty₁ ty₂ with
  | zero => exact .fails fun _ => ⟨_, rfl⟩
  | succ n ih =>
    obtain ⟨m, rfl⟩ : ∃ k, m = k + 1 := ⟨m - 1, by omega⟩
    simp only [arrayRest]
    refine .view (fun c hc a d hr => ?_) fun hK c₀ c₁ c₂ hc hhere => ?_
    · rw [hc.check (by decide)] at hr
      obtain ⟨-, rfl⟩ := Prod.mk.inj (Except.ok.inj hr)
      exact ⟨trivial, hc⟩
    · rw [(hc.check hhere _).1, (hc.check hhere _).2]
      cases hopen : c₀.check .leftBracket with
      | false => exact Keeps.pure (J := J) trivial _ _ _ hc
      | true =>
        have hend := Reads.atEnd_of_check hopen
        obtain ⟨hnext₁, hnext₂⟩ := hc.checkNext_eq hhere hend
          (by decide : Token.Kind.rightBracket ∉ declarationKinds) (by decide)
        rw [hnext₁, hnext₂, Bool.true_and]
        split
        · next hclose =>
          exact .advanceTwice hc hhere hend hclose (by decide) (by decide)
            ((ih (Nat.le_of_succ_le_succ h) _ _ _).keeps hK)
        · exact Keeps.pure (J := J) trivial _ _ _ hc

/-- The productions for annotations keep in step. -/
structure AnnotationsAdapt (J : Replacement token) (n m : Nat) : Prop where
  announced : ∀ {K}, J.Adapts K True (fun _ _ _ => True) (annotated n) (annotated m) (annotated m)
  unionType : ∀ {K}, J.Adapts K True (fun _ _ _ => True) (unionType n) (unionType m) (unionType m)
  unionRest : ∀ {K}, J.Adapts K True (fun _ _ _ => True) (unionRest n) (unionRest m) (unionRest m)
  intersectionType : ∀ {K}, J.Adapts K True (fun _ _ _ => True)
    (intersectionType n) (intersectionType m) (intersectionType m)
  intersectionRest : ∀ {K}, J.Adapts K True (fun _ _ _ => True)
    (intersectionRest n) (intersectionRest m) (intersectionRest m)
  arrayType : ∀ {K}, J.Adapts K True (fun _ _ _ => True) (arrayType n) (arrayType m) (arrayType m)
  primaryType : ∀ {K}, J.Adapts K True (fun _ _ _ => True)
    (primaryType n) (primaryType m) (primaryType m)
  typeArguments : ∀ {K}, J.Adapts K True (fun _ _ _ => True)
    (typeArguments n) (typeArguments m) (typeArguments m)
  tupleElements : ∀ {K}, J.Adapts K True (fun _ _ _ => True)
    (tupleElements n) (tupleElements m) (tupleElements m)
  typeEntries : ∀ {K}, J.Adapts K True (fun _ _ _ => True)
    (typeEntries n) (typeEntries m) (typeEntries m)
  parameters : ∀ {K}, J.Adapts K False (fun _ => List.Forall₂ Parameter.Paraphrases)
    (parameters n) (parameters m) (parameters m)
  parameterRow : ∀ {K} count, J.Adapts K True (fun _ => List.Forall₂ Parameter.Paraphrases)
    (parameterRow n count) (parameterRow m count) (parameterRow m count)

theorem primaryType_adapts (h : AnnotationsAdapt J n m) : J.Adapts K True (fun _ _ _ => True)
    (primaryType (n + 1)) (primaryType (m + 1)) (primaryType (m + 1)) := by
  simp only [primaryType]
  refine .acceptAny (by decide) (fun _ _ _ _ _ => .pure trivial) ?_
  refine .acceptAny (by decide) (fun hK _ _ _ _ => Adapts.keeps (.accept (by decide) ?_ ?_) hK) ?_
  · exact (h.typeArguments.bind fun _ _ _ => .expect (by decide) _ fun _ _ _ _ _ =>
      .pure trivial).keeps
  · exact .pure fun _ => trivial
  refine .accept (by decide) (Adapts.keeps ?_) (.accept (by decide) (Adapts.keeps ?_)
    (.accept (by decide) (fun _ => .pure trivial) (.accept (by decide) (Adapts.keeps ?_)
      (.failExpecting _))))
  · exact h.parameters.bind fun _ _ _ => .expect (by decide) _ fun hK _ _ _ _ =>
      (h.unionType.bind fun _ _ _ => .pure fun _ => trivial).keeps hK
  · exact h.tupleElements.bind fun _ _ _ => .expect (by decide) _ fun _ _ _ _ _ => .pure trivial
  · exact Adapts.skipNewlines.bind fun _ _ _ => h.typeEntries.bind fun _ _ _ =>
      .expect (by decide) _ fun _ _ _ _ _ => .pure trivial

theorem parameters_adapts (h : AnnotationsAdapt J n m) :
    J.Adapts K False (fun _ => List.Forall₂ Parameter.Paraphrases) (parameters (n + 1))
      (parameters (m + 1)) (parameters (m + 1)) := by
  simp only [parameters]
  have hclose : ∀ {K : Prop} (ps₀ ps₁ ps₂ : List Parameter),
      J.Adapts (K ∧ List.Forall₂ Parameter.Paraphrases ps₁ ps₂) False
        (fun _ => List.Forall₂ Parameter.Paraphrases)
        (do let _ ← expect .rightParen .parametersClose; return ps₀)
        (do let _ ← expect .rightParen .parametersClose; return ps₁)
        (do let _ ← expect .rightParen .parametersClose; return ps₂) := fun _ _ _ =>
    .expect (by decide) _ fun hK _ _ _ _ => .pure hK.2
  refine Adapts.skipNewlines.bind fun _ _ _ => .ifCheck _ ?_ ?_
  · exact (Adapts.pure fun _ => .nil).bind hclose
  · exact (h.parameterRow 0).bind hclose

theorem parameterRow_adapts (h : AnnotationsAdapt J n m) (count : Nat) :
    J.Adapts K True (fun _ => List.Forall₂ Parameter.Paraphrases) (parameterRow (n + 1) count)
      (parameterRow (m + 1) count) (parameterRow (m + 1) count) := by
  simp only [parameterRow]
  refine Adapts.skipNewlines.bind fun _ _ _ => ?_
  split
  · exact .fails fun _ => ⟨_, rfl⟩
  refine .expect (by decide) _ fun hK t t' ht _ => Adapts.keeps (K := True) ?_ trivial
  refine h.announced.bind fun _ _ _ => .get fun c₀ c₁ c₂ => Adapts.skipNewlines.bind fun _ _ _ => ?_
  have hword := J.sameWord ht
  refine .accept (by decide) (Adapts.keeps ?_) (.pure fun _ => .cons ⟨hword.lexeme, hword⟩ .nil)
  exact (h.parameterRow (count + 1)).map fun _ _ _ _ hps => .cons ⟨hword.lexeme, hword⟩ hps

theorem annotationsAdapt_succ (h : AnnotationsAdapt J n m) (hle : n ≤ m) :
    AnnotationsAdapt J (n + 1) (m + 1) where
  announced := by
    simp only [annotated]
    exact .accept (by decide) (h.unionType.map fun _ _ _ _ _ => trivial).keeps
      (.pure fun _ => trivial)
  unionType := by
    simp only [Grammar.unionType]
    exact h.intersectionType.bind fun _ _ _ => h.unionRest.map fun _ _ _ _ _ => trivial
  unionRest := by
    simp only [Grammar.unionRest]
    refine .accept (by decide) (Adapts.keeps ?_) (.pure fun _ => trivial)
    exact h.intersectionType.bind fun _ _ _ => h.unionRest.map fun _ _ _ _ _ => trivial
  intersectionType := by
    simp only [Grammar.intersectionType]
    exact h.arrayType.bind fun _ _ _ => h.intersectionRest.map fun _ _ _ _ _ => trivial
  intersectionRest := by
    simp only [Grammar.intersectionRest]
    refine .accept (by decide) (Adapts.keeps ?_) (.pure fun _ => trivial)
    exact h.arrayType.bind fun _ _ _ => h.intersectionRest.map fun _ _ _ _ _ => trivial
  arrayType := by
    simp only [Grammar.arrayType]
    exact h.primaryType.bind fun _ _ _ => arrayRest_adapts hle _ _ _
  primaryType := primaryType_adapts h
  typeArguments := by
    simp only [Grammar.typeArguments]
    refine h.unionType.bind fun _ _ _ => .accept (by decide) (Adapts.keeps ?_) (.pure fun _ => trivial)
    exact h.typeArguments.map fun _ _ _ _ _ => trivial
  tupleElements := by
    simp only [Grammar.tupleElements]
    refine .row _ (.pure fun _ => trivial) (h.unionType.bind fun _ _ _ => ?_)
    refine .accept (by decide) (Adapts.keeps ?_) (.pure fun _ => trivial)
    exact h.tupleElements.map fun _ _ _ _ _ => trivial
  typeEntries {K} := by
    simp only [Grammar.typeEntries]
    have hmore : ∀ {K : Prop} (entry₀ entry₁ entry₂ : TyEntry), J.Adapts K True (fun _ _ _ => True)
        (do skipNewlines; return entry₀ :: (← typeEntries n))
        (do skipNewlines; return entry₁ :: (← typeEntries m))
        (do skipNewlines; return entry₂ :: (← typeEntries m)) := fun _ _ _ =>
      Adapts.skipNewlines.bind fun _ _ _ => h.typeEntries.map fun _ _ _ _ _ => trivial
    refine .row _ (.pure fun _ => trivial) ?_
    refine .expect (by decide) _ fun _ _ _ _ _ => ?_
    refine Adapts.keeps (K := True) (.expect (by decide) _ fun _ _ _ _ _ => ?_) trivial
    refine Adapts.keeps (K := True) (h.unionType.bind fun _ _ _ => ?_) trivial
    exact .acceptAny (by decide) (fun _ _ _ _ _ => (hmore _ _ _).keeps trivial) (hmore _ _ _)
  parameters := parameters_adapts h
  parameterRow := parameterRow_adapts h

theorem annotationsAdapt (h : n ≤ m) : AnnotationsAdapt J n m := by
  induction n generalizing m with
  | zero => constructor <;> intros <;> exact .fails fun _ => ⟨_, rfl⟩
  | succ n ih =>
    obtain ⟨m, rfl⟩ : ∃ k, m = k + 1 := ⟨m - 1, by omega⟩
    exact annotationsAdapt_succ (ih (Nat.le_of_succ_le_succ h)) (Nat.le_of_succ_le_succ h)

/-! ### Expressions -/

section

variable {target₀ target₁ target₂ value₀ value₁ value₂ : Expr} {t t' : Token}

theorem assignment_fails (h : ¬target₀.IsTarget) (c : Cursor) :
    ∃ e, assignment target₀ t value₀ c = .error e := by
  cases target₀ with
  | name id token => exact absurd (.name id token) h
  | get object name => exact absurd (.get object name) h
  | _ => exact ⟨_, rfl⟩

theorem assignment_adapts (htarget : K → target₀.Retold target₁ target₂)
    (hvalue : K → value₁.Paraphrases (fun _ _ => True) value₂) :
    J.Adapts K True Expr.Retold (assignment target₀ t value₀) (assignment target₁ t value₁)
      (assignment target₂ t' value₂) := by
  by_cases h₀ : target₀.IsTarget
  · refine ⟨?_, fun hK => ?_⟩
    · cases h₀ with
      | name => exact Stalls.freshId.map _
      | get => exact .pure _
    · obtain ⟨h₁, h₂⟩ := (htarget hK).target h₀
      have hsame := (htarget hK).same
      cases h₁ with
      | name =>
        cases h₂
        obtain ⟨_, _, heq, -, hname⟩ := hsame
        obtain ⟨-, rfl⟩ := Expr.name.inj heq
        exact (Adapts.freshId.map fun _ _ _ _ _ =>
          ⟨by rintro ⟨⟩, _, _, _, rfl, trivial, hname, hvalue hK⟩).keeps trivial
      | get =>
        cases h₂
        obtain ⟨_, _, heq, hname, hobject⟩ := hsame
        obtain ⟨rfl, rfl⟩ := Expr.get.inj heq
        exact .pure ⟨by rintro ⟨⟩, _, _, _, rfl, hname, hobject, hvalue hK⟩
  · exact .fails (assignment_fails h₀)

theorem compoundAssignment_fails (h : ¬target₀.IsTarget) (c : Cursor) :
    ∃ e, compoundAssignment target₀ t value₀ c = .error e := by
  cases target₀ with
  | name id token => exact absurd (.name id token) h
  | get object name => exact absurd (.get object name) h
  | _ => exact ⟨_, rfl⟩

theorem compoundOperator_sameWord (ht : t.SameWord t') :
    (compoundOperator t).SameWord (compoundOperator t') := by
  unfold compoundOperator
  rw [ht.kind]
  split <;> exact ⟨rfl, rfl⟩

theorem compoundAssignment_adapts (ht : t.SameWord t')
    (htarget : K → target₀.Retold target₁ target₂)
    (hvalue : K → value₁.Paraphrases (fun _ _ => True) value₂) :
    J.Adapts K True Expr.Retold (compoundAssignment target₀ t value₀)
      (compoundAssignment target₁ t value₁) (compoundAssignment target₂ t' value₂) := by
  by_cases h₀ : target₀.IsTarget
  · have hassign : J.Adapts K True Expr.Retold
        (assignment target₀ t (.binary target₀ (compoundOperator t) value₀))
        (assignment target₁ t (.binary target₁ (compoundOperator t) value₁))
        (assignment target₂ t' (.binary target₂ (compoundOperator t') value₂)) :=
      assignment_adapts htarget fun hK =>
        ⟨_, _, _, rfl, compoundOperator_sameWord ht, (htarget hK).same, hvalue hK⟩
    rw [compoundAssignment_eq h₀]
    refine ⟨hassign.stalls, fun hK => ?_⟩
    obtain ⟨h₁, h₂⟩ := (htarget hK).target h₀
    rw [compoundAssignment_eq h₁.isTarget.2, compoundAssignment_eq h₂.isTarget.2]
    exact hassign.keeps hK
  · exact .fails (compoundAssignment_fails h₀)

theorem numberLiteral_keeps (ht : token t t') :
    J.Keeps True Expr.Retold (numberLiteral t) (numberLiteral t) (numberLiteral t') := by
  obtain ⟨hkind, -, hliteral⟩ := J.tokens.same ht
  unfold numberLiteral
  rw [hkind, hliteral]
  split
  · exact .pure ⟨by rintro ⟨⟩, _, rfl, rfl⟩
  · exact .fails fun _ => ⟨_, rfl⟩

theorem stringLiteral_retold (J : Replacement token) (ht : token t t') :
    (stringLiteral t).Retold (stringLiteral t) (stringLiteral t') := by
  obtain ⟨-, -, hliteral⟩ := J.tokens.same ht
  unfold stringLiteral
  rw [hliteral]
  split <;> exact ⟨by rintro ⟨⟩, _, rfl, rfl⟩

end

/-- The productions for expressions and statements keep in step. -/
structure ProductionsAdapt (J : Replacement token) (n m : Nat) : Prop where
  expression : ∀ {K}, J.Adapts K True Expr.Retold (expression n) (expression m) (expression m)
  binary : ∀ {K} levels, (∀ kind ∈ levels.flatten, kind ∉ declarationKinds) →
    J.Adapts K True Expr.Retold (binary n levels) (binary m levels) (binary m levels)
  binaryRest : ∀ {K} operators tighter {left₀ left₁ left₂},
    (∀ kind ∈ (operators :: tighter).flatten, kind ∉ declarationKinds) →
    (K → left₀.Retold left₁ left₂) →
    J.Adapts K True Expr.Retold (binaryRest n operators tighter left₀)
      (binaryRest m operators tighter left₁) (binaryRest m operators tighter left₂)
  unary : ∀ {K}, J.Adapts K True Expr.Retold (unary n) (unary m) (unary m)
  postfixRest : ∀ {K head₀ head₁ head₂}, (K → head₀.Retold head₁ head₂) →
    J.Adapts K True Expr.Retold (postfixRest n head₀) (postfixRest m head₁) (postfixRest m head₂)
  argumentRow : ∀ {K} count, J.Adapts K True (fun _ => exprsParaphrase fun _ _ => True)
    (argumentRow n count) (argumentRow m count) (argumentRow m count)
  primary : ∀ {K}, J.Adapts K True Expr.Retold (primary n) (primary m) (primary m)
  elementRow : ∀ {K}, J.Adapts K True (fun _ => exprsParaphrase fun _ _ => True)
    (elementRow n) (elementRow m) (elementRow m)
  entryRow : ∀ {K entries₀ entries₁ entries₂},
    (K → entriesParaphrase (fun _ _ => True) entries₁ entries₂) →
    J.Adapts K True (fun _ => entriesParaphrase fun _ _ => True)
      (entryRow n entries₀) (entryRow m entries₁) (entryRow m entries₂)
  functionRest : ∀ {K t t'}, token t t' →
    J.Adapts K False (fun _ => FunctionDecl.Paraphrases fun _ _ => True)
      (functionRest n t) (functionRest m t) (functionRest m t')
  block : ∀ {K}, J.Adapts K False (fun _ => stmtsParaphrase fun _ _ => True)
    (block n) (block m) (block m)
  blockRow : J.Keeps False (fun _ => stmtsParaphrase fun _ _ => True)
    (blockRow n) (blockRow m) (blockRow m)
  statement : J.Keeps False (fun _ => Stmt.Paraphrases fun _ _ => True)
    (statement n) (statement m) (statement m)
  expressionStatement : ∀ {K}, J.Adapts K False (fun _ => Stmt.Paraphrases fun _ _ => True)
    (expressionStatement n) (expressionStatement m) (expressionStatement m)
  classDeclaration : ∀ {K}, J.Adapts K False (fun _ => Stmt.Paraphrases fun _ _ => True)
    (classDeclaration n) (classDeclaration m) (classDeclaration m)
  memberRow : ∀ {K}, J.Adapts K True
    (fun _ members members' => methodsParaphrase (fun _ _ => True) members.1 members'.1 ∧
      fieldsParaphrase (fun _ _ => True) members.2 members'.2)
    (memberRow n) (memberRow m) (memberRow m)
  ifStatement : ∀ {K t t'}, token t t' →
    J.Adapts K False (fun _ => Stmt.Paraphrases fun _ _ => True)
      (ifStatement n t) (ifStatement m t) (ifStatement m t')
  whileStatement : ∀ {K t t'}, token t t' →
    J.Adapts K False (fun _ => Stmt.Paraphrases fun _ _ => True)
      (whileStatement n t) (whileStatement m t) (whileStatement m t')
  forStatement : ∀ {K t t'}, token t t' →
    J.Adapts K False (fun _ => Stmt.Paraphrases fun _ _ => True)
      (forStatement n t) (forStatement m t) (forStatement m t')
  forInit : J.Keeps False (fun _ => optionParaphrase fun _ _ => True)
    (forInit n) (forInit m) (forInit m)
  variableDeclaration : ∀ {K t t'}, token t t' →
    J.Adapts K False (fun _ => Stmt.Paraphrases fun _ _ => True)
      (variableDeclaration n t) (variableDeclaration m t) (variableDeclaration m t')
  returnStatement : ∀ {K t t'}, token t t' →
    J.Adapts K False (fun _ => Stmt.Paraphrases fun _ _ => True)
      (returnStatement n t) (returnStatement m t) (returnStatement m t')
  indexAssignment : ∀ {c₀ c₁ c₂}, J.Around c₀ c₁ c₂ → ¬J.Here c₀ → c₀.check .name = true →
    J.Tells False (fun _ => Stmt.Paraphrases fun _ _ => True)
      (indexAssignment n c₀) (indexAssignment m c₁) (indexAssignment m c₂)
  expression_arrives : J.Arrives True (Grammar.expression n)
  binary_arrives : ∀ levels, (∀ kind ∈ levels.flatten, kind ∉ declarationKinds) →
    J.Arrives True (Grammar.binary n levels)
  unary_arrives : J.Arrives True (Grammar.unary n)
  expressionStatement_arrives : J.Arrives False (Grammar.expressionStatement n)

/-- Directly before the place, an operand comes to its end at the place, or has none. -/
theorem primary_arrives (J : Replacement token) : J.Arrives True (primary n) := by
  cases n with
  | zero => exact fun c t _ _ a d hr => by cases hr
  | succ n =>
    rintro ⟨last, rest, i⟩ t hc ht e d hr
    obtain rfl : rest = t :: J.declared := hc
    have hpeek : Cursor.peek ⟨last, t :: J.declared, i⟩ = t := rfl
    simp only [primary, Reads.get_bind, hpeek] at hr
    rcases List.mem_pair.1 ht with hkind | hkind
    · have hhere : J.Here ⟨t, J.declared, i + 1⟩ := rfl
      simp only [hkind] at hr
      rw [advance_taken (by rw [hkind]; decide), freshId_taken, accept_bind,
        if_neg (by rw [hhere.check (by decide)]; decide)] at hr
      obtain ⟨-, rfl⟩ := Prod.mk.inj (Except.ok.inj hr)
      exact ⟨trivial, hhere⟩
    · have hhere : J.Here ⟨t, J.declared, i⟩ := rfl
      simp only [hkind] at hr
      rw [advance_taken (by rw [hkind]; decide), expect_bind,
        if_neg (by rw [hhere.check (by decide)]; decide)] at hr
      cases hr

section

variable (h : ProductionsAdapt J n m) (hle : n ≤ m)
include h

theorem expression_adapts : J.Adapts K True Expr.Retold (expression (n + 1)) (expression (m + 1))
    (expression (m + 1)) := by
  simp only [expression]
  refine (h.binary _ (by decide)).bind fun target₀ target₁ target₂ => ?_
  refine .acceptAny (by decide) (fun hK t t' ht _ => Adapts.keeps (K := True) ?_ trivial) ?_
  · exact h.expression.bind fun _ _ _ =>
      assignment_adapts (fun _ => hK.2) fun hvalue => hvalue.2.same
  refine .acceptAny (by decide) (fun hK t t' ht _ => Adapts.keeps (K := True) ?_ trivial) ?_
  · exact h.expression.bind fun _ _ _ =>
      compoundAssignment_adapts (J.sameWord ht) (fun _ => hK.2) fun hvalue => hvalue.2.same
  refine .acceptAny (by decide) (fun hK t t' ht _ => Adapts.keeps (K := True) ?_ trivial)
    (.pure And.right)
  exact compoundAssignment_adapts (J.sameWord ht) (fun _ => hK.2) fun _ => ⟨_, rfl, rfl⟩

theorem binary_adapts (levels : List (List Token.Kind))
    (hlevels : ∀ kind ∈ levels.flatten, kind ∉ declarationKinds) :
    J.Adapts K True Expr.Retold (binary (n + 1) levels) (binary (m + 1) levels)
      (binary (m + 1) levels) := by
  cases levels with
  | nil =>
    simp only [binary]
    exact h.unary
  | cons operators tighter =>
    simp only [binary]
    have htighter := (List.forall_mem_append.1 hlevels).2
    exact (h.binary tighter htighter).bind fun _ _ _ => h.binaryRest operators tighter hlevels And.right

theorem binaryRest_adapts (operators : List Token.Kind) (tighter : List (List Token.Kind))
    {left₀ left₁ left₂ : Expr}
    (hlevels : ∀ kind ∈ (operators :: tighter).flatten, kind ∉ declarationKinds)
    (hleft : K → left₀.Retold left₁ left₂) :
    J.Adapts K True Expr.Retold (binaryRest (n + 1) operators tighter left₀)
      (binaryRest (m + 1) operators tighter left₁)
      (binaryRest (m + 1) operators tighter left₂) := by
  simp only [binaryRest]
  obtain ⟨hoperators, htighter⟩ := List.forall_mem_append.1 hlevels
  refine .acceptAny hoperators (fun hK t t' ht _ => Adapts.keeps (K := True) ?_ trivial) (.pure hleft)
  refine (h.binary tighter htighter).bind fun _ _ _ => ?_
  exact h.binaryRest operators tighter hlevels fun hright =>
    ⟨by rintro ⟨⟩, _, _, _, rfl, J.sameWord ht, (hleft hK).same, hright.2.same⟩

theorem unary_adapts : J.Adapts K True Expr.Retold (unary (n + 1)) (unary (m + 1))
    (unary (m + 1)) := by
  simp only [unary]
  refine .acceptAny (by decide) (fun _ t t' ht _ => Adapts.keeps (K := True) ?_ trivial) ?_
  · exact h.unary.map fun _ _ _ _ hoperand =>
      ⟨by rintro ⟨⟩, _, _, rfl, J.sameWord ht, hoperand.same⟩
  · exact h.primary.bind fun _ _ _ => h.postfixRest And.right

theorem postfixRest_adapts {head₀ head₁ head₂ : Expr} (hhead : K → head₀.Retold head₁ head₂) :
    J.Adapts K True Expr.Retold (postfixRest (n + 1) head₀) (postfixRest (m + 1) head₁)
      (postfixRest (m + 1) head₂) := by
  simp only [postfixRest]
  refine .accept (by decide) (fun hK => Adapts.keeps (K := True) ?_ trivial)
    (.accept (by decide) (fun hK => Adapts.keeps (K := True) ?_ trivial) (.pure hhead))
  · have hclose : ∀ {K : Prop} (args₀ args₁ args₂ : List Expr),
        J.Adapts (K ∧ exprsParaphrase (fun _ _ => True) args₁ args₂) True Expr.Retold
          (do let paren ← expect .rightParen .argumentsClose; postfixRest n (.call head₀ paren args₀))
          (do let paren ← expect .rightParen .argumentsClose; postfixRest m (.call head₁ paren args₁))
          (do let paren ← expect .rightParen .argumentsClose; postfixRest m (.call head₂ paren args₂)) :=
      fun _ _ _ => .expect (by decide) _ fun hargs t t' ht _ => Adapts.keeps
        (h.postfixRest fun _ : True =>
          ⟨by rintro ⟨⟩, _, _, _, rfl, J.sameWord ht, (hhead hK).same, hargs.2⟩) trivial
    refine Adapts.skipNewlines.bind fun _ _ _ => .ifCheck _ ?_ ?_
    · exact (Adapts.pure fun _ => rfl).bind hclose
    · exact (h.argumentRow 0).bind hclose
  · exact .expect (by decide) _ fun _ t t' ht _ => Adapts.keeps
      (h.postfixRest fun _ : True =>
        ⟨fun _ => ⟨.get, .get⟩, _, _, rfl, J.sameWord ht, (hhead hK).same⟩) trivial

theorem argumentRow_adapts (count : Nat) :
    J.Adapts K True (fun _ => exprsParaphrase fun _ _ => True) (argumentRow (n + 1) count)
      (argumentRow (m + 1) count) (argumentRow (m + 1) count) := by
  simp only [argumentRow]
  refine Adapts.skipNewlines.bind fun _ _ _ => ?_
  split
  · exact .fails fun _ => ⟨_, rfl⟩
  refine h.expression.bind fun _ _ _ => Adapts.skipNewlines.bind fun _ _ _ => ?_
  refine .accept (by decide) (Adapts.keeps ?_) (.pure fun hK => ⟨_, _, rfl, hK.1.2.same, rfl⟩)
  exact (h.argumentRow (count + 1)).map fun hK _ _ _ hmore => ⟨_, _, rfl, hK.1.2.same, hmore⟩

theorem elementRow_adapts :
    J.Adapts K True (fun _ => exprsParaphrase fun _ _ => True) (elementRow (n + 1))
      (elementRow (m + 1)) (elementRow (m + 1)) := by
  simp only [elementRow]
  refine .row _ (.pure fun _ => rfl) ?_
  refine h.expression.bind fun _ _ _ => Adapts.skipNewlines.bind fun _ _ _ => ?_
  refine .accept (by decide) (Adapts.keeps ?_) (.pure fun hK => ⟨_, _, rfl, hK.1.2.same, rfl⟩)
  exact Adapts.skipNewlines.bind fun _ _ _ => h.elementRow.map fun hK _ _ _ hmore =>
    ⟨_, _, rfl, hK.1.1.2.same, hmore⟩

theorem entryRow_adapts {entries₀ entries₁ entries₂ : List Entry}
    (hentries : K → entriesParaphrase (fun _ _ => True) entries₁ entries₂) :
    J.Adapts K True (fun _ => entriesParaphrase fun _ _ => True) (entryRow (n + 1) entries₀)
      (entryRow (m + 1) entries₁) (entryRow (m + 1) entries₂) := by
  simp only [entryRow]
  refine .row _ (.pure hentries) ?_
  refine .expect (by decide) _ fun hK t t' ht _ => Adapts.keeps (K := True) ?_ trivial
  refine .expect (by decide) _ fun _ _ _ _ _ => Adapts.keeps (K := True) ?_ trivial
  refine Adapts.skipNewlines.bind fun _ _ _ => h.expression.bind fun _ _ _ => ?_
  have hadded := fun {value value' : Expr} (hvalue : value.Paraphrases (fun _ _ => True) value') =>
    addEntry_paraphrases (hentries hK) (J.sameWord ht) hvalue
  refine Adapts.skipNewlines.bind fun _ _ _ => .accept (by decide) (Adapts.keeps ?_)
    (.pure fun hvalue => hadded hvalue.1.2.same)
  exact Adapts.skipNewlines.bind fun _ _ _ => h.entryRow fun hvalue => hadded hvalue.1.1.2.same

theorem primary_adapts : J.Adapts K True Expr.Retold (primary (n + 1)) (primary (m + 1))
    (primary (m + 1)) := by
  simp only [primary]
  refine .view (fun c hc a d hr => ?_) fun hK c₀ c₁ c₂ hc hhere => ?_
  · have hkind := J.word_kind
    rw [hc.peek] at hr
    generalize J.word.kind = kind at hr hkind
    cases kind <;> first | cases hr | exact absurd hkind (by decide)
  obtain ⟨hpeek₁, hpeek₂⟩ := hc.peek hhere
  have hadvance : ∀ {y₀ y₁ y₂ : Token → Parse Expr}, c₀.peek.kind ≠ .endMark →
      (∀ t t', token t t' → J.Keeps True Expr.Retold (y₀ t) (y₁ t) (y₂ t')) →
      J.Tells True Expr.Retold ((advance >>= y₀) c₀) ((advance >>= y₁) c₁) ((advance >>= y₂) c₂) :=
    fun hmark hy => .advance hc hhere (by simpa [Cursor.atEnd] using hmark) fun t t' ht _ => hy t t' ht
  rw [hpeek₁, J.kind_eq hpeek₂]
  generalize hpeek : c₀.peek.kind = kind at hadvance
  have hname : ∀ t t', token t t' → J.Keeps True Expr.Retold
      (do
        let id ← freshId
        if ← accept .leftBracket then
          let index ← expression n
          let _ ← expect .rightBracket .indexClose
          return .index id t index
        else return .name id t)
      (do
        let id ← freshId
        if ← accept .leftBracket then
          let index ← expression m
          let _ ← expect .rightBracket .indexClose
          return .index id t index
        else return .name id t)
      (do
        let id ← freshId
        if ← accept .leftBracket then
          let index ← expression m
          let _ ← expect .rightBracket .indexClose
          return .index id t' index
        else return .name id t') := by
    intro t t' ht
    refine Adapts.keeps (K := True) (Adapts.freshId.bind fun _ _ _ => ?_) trivial
    refine .accept (by decide) (Adapts.keeps ?_)
      (.pure fun _ => ⟨fun _ => ⟨.name, .name⟩, _, _, rfl, trivial, J.sameWord ht⟩)
    exact h.expression.bind fun _ _ _ => .expect (by decide) _ fun hindex _ _ _ _ =>
      .pure ⟨by rintro ⟨⟩, _, _, _, rfl, trivial, J.sameWord ht, hindex.2.same⟩
  split
  case h_1 | h_2 => exact hadvance (by decide) fun t t' ht => numberLiteral_keeps ht
  case h_3 => exact hadvance (by decide) fun t t' ht => .pure (stringLiteral_retold J ht)
  case h_4 | h_5 | h_6 | h_7 | h_8 =>
    exact hadvance (by decide) fun _ _ _ => .pure ⟨by rintro ⟨⟩, _, rfl, rfl⟩
  case h_9 =>
    refine hadvance (by decide) fun t t' ht => Adapts.keeps (K := True) ?_ trivial
    refine .expect (by decide) _ fun _ _ _ _ _ => Adapts.keeps (K := True) ?_ trivial
    exact (h.functionRest ht).after fun _ _ _ _ hd => .pure ⟨by rintro ⟨⟩, _, _, rfl, J.sameWord ht, hd⟩
  case h_10 =>
    refine hadvance (by decide) fun t t' ht => Adapts.keeps (K := True) ?_ trivial
    exact Adapts.freshId.map fun _ _ _ _ _ => ⟨by rintro ⟨⟩, _, _, rfl, trivial, J.sameWord ht⟩
  case h_11 | h_12 => exact hadvance (by decide) hname
  case h_13 =>
    refine hadvance (by decide) fun t t' ht => Adapts.keeps (K := True) ?_ trivial
    refine Adapts.skipNewlines.bind fun _ _ _ => h.expression.bind fun _ _ _ => ?_
    refine Adapts.skipNewlines.bind fun _ _ _ => .expect (by decide) _ fun hinner _ _ _ _ => .pure ?_
    have hbare := (Expr.paraphrases_bare_right _).2 hinner.1.2.same
    exact ⟨by rintro ⟨⟩, (Expr.paraphrases_bare_right _).1 hbare⟩
  case h_14 =>
    refine hadvance (by decide) fun t t' ht => Adapts.keeps (K := True) ?_ trivial
    refine Adapts.skipNewlines.bind fun _ _ _ => h.elementRow.bind fun _ _ _ => ?_
    exact .expect (by decide) _ fun helements _ _ _ _ =>
      .pure ⟨by rintro ⟨⟩, _, rfl, _, rfl, helements.2⟩
  case h_15 =>
    obtain ⟨hobject₁, hobject₂⟩ := hc.atObject_eq hhere (by simp [Cursor.atEnd, hpeek])
    rw [hobject₁, hobject₂]
    split
    · refine hadvance (by decide) fun t t' ht => Adapts.keeps (K := True) ?_ trivial
      have hnone : entriesParaphrase (fun _ _ => True) [] [] := rfl
      refine Adapts.skipNewlines.bind fun _ _ _ => (h.entryRow fun _ => hnone).bind fun _ _ _ => ?_
      exact .expect (by decide) _ fun hentries _ _ _ _ =>
        .pure ⟨by rintro ⟨⟩, _, _, rfl, J.sameWord ht, hentries.2⟩
    · exact .failed ⟨_, rfl⟩
  all_goals exact .failed ⟨_, rfl⟩

include hle in
theorem functionRest_adapts {t t' : Token} (ht : token t t') :
    J.Adapts K False (fun _ => FunctionDecl.Paraphrases fun _ _ => True) (functionRest (n + 1) t)
      (functionRest (m + 1) t) (functionRest (m + 1) t') := by
  simp only [functionRest]
  refine (annotationsAdapt hle).parameters.bind fun _ _ _ => ?_
  refine (annotationsAdapt hle).announced.bind fun _ _ _ => ?_
  exact h.block.map fun hparams _ _ _ hbody =>
    ⟨_, _, _, _, rfl, J.sameWord ht, hparams.1.2, hbody⟩

theorem block_adapts : J.Adapts K False (fun _ => stmtsParaphrase fun _ _ => True)
    (block (n + 1)) (block (m + 1)) (block (m + 1)) := by
  simp only [block]
  refine Adapts.skipNewlines.bind fun _ _ _ => .accept (by decide) (fun _ => .pure rfl) ?_
  refine .expect (by decide) _ fun _ _ _ _ _ => Keeps.skipNewlines.bind fun _ _ _ _ => ?_
  refine h.blockRow.bind fun _ _ _ hstatements => ?_
  exact Adapts.keeps (K := True) (.expect (by decide) _ fun _ _ _ _ _ => .pure hstatements) trivial

theorem expressionStatement_adapts : J.Adapts K False (fun _ => Stmt.Paraphrases fun _ _ => True)
    (expressionStatement (n + 1)) (expressionStatement (m + 1)) (expressionStatement (m + 1)) := by
  simp only [expressionStatement]
  refine .peek fun t t' => h.expression.bind fun _ _ _ => Adapts.statementEnd.map fun hK _ _ _ _ => ?_
  exact ⟨_, _, rfl, J.sameWord hK.1.2, hK.2.same⟩

theorem classDeclaration_adapts : J.Adapts K False (fun _ => Stmt.Paraphrases fun _ _ => True)
    (classDeclaration (n + 1)) (classDeclaration (m + 1)) (classDeclaration (m + 1)) := by
  simp only [classDeclaration]
  refine .expect (by decide) _ fun _ t t' ht _ => Adapts.keeps (K := True) ?_ trivial
  have hname := J.sameWord ht
  refine Adapts.skipNewlines.bind fun _ _ _ => .accept (by decide)
    (fun _ => .pure ⟨_, rfl, _, _, _, rfl, hname, rfl, rfl⟩) ?_
  refine .expect (by decide) _ fun _ _ _ _ _ => Adapts.keeps (K := True) ?_ trivial
  refine Adapts.skipNewlines.bind fun _ _ _ => h.memberRow.bind fun _ _ _ => ?_
  exact .expect (by decide) _ fun hmembers _ _ _ _ =>
    .pure ⟨_, rfl, _, _, _, rfl, hname, hmembers.2.2, hmembers.2.1⟩

include hle in
theorem memberRow_adapts : J.Adapts K True
    (fun _ members members' => methodsParaphrase (fun _ _ => True) members.1 members'.1 ∧
      fieldsParaphrase (fun _ _ => True) members.2 members'.2)
    (memberRow (n + 1)) (memberRow (m + 1)) (memberRow (m + 1)) := by
  simp only [memberRow]
  refine .row _ (.pure fun _ => ⟨rfl, rfl⟩) ?_
  refine .expect (by decide) _ fun _ t t' ht _ => Adapts.keeps (K := True) ?_ trivial
  refine .accept (by decide) (Adapts.keeps ?_) ?_
  · refine (h.functionRest ht).bind fun _ _ _ => Adapts.skipNewlines.bind fun _ _ _ => ?_
    exact h.memberRow.map fun hmethod _ _ _ hmore =>
      ⟨⟨_, _, rfl, hmethod.1.2, hmore.1⟩, hmore.2⟩
  · refine (annotationsAdapt hle).announced.bind fun _ _ _ => ?_
    refine .expect (by decide) _ fun _ _ _ _ _ => Adapts.keeps (K := True) ?_ trivial
    refine h.expression.bind fun _ _ _ => Adapts.statementEnd.bind fun _ _ _ => ?_
    refine Adapts.skipNewlines.bind fun _ _ _ => h.memberRow.map fun hinit _ _ _ hmore => ?_
    exact ⟨hmore.1, _, _, _, _, rfl, J.sameWord ht, hinit.1.1.2.same, hmore.2⟩

theorem whileStatement_adapts {t t' : Token} (ht : token t t') :
    J.Adapts K False (fun _ => Stmt.Paraphrases fun _ _ => True)
      (whileStatement (n + 1) t) (whileStatement (m + 1) t) (whileStatement (m + 1) t') := by
  simp only [whileStatement]
  refine .expect (by decide) _ fun _ _ _ _ _ => Adapts.keeps (K := True) ?_ trivial
  refine h.expression.bind fun _ _ _ => .expect (by decide) _ fun hcondition _ _ _ _ => ?_
  exact h.statement.bind fun _ _ _ hbody =>
    .pure ⟨_, _, _, rfl, J.sameWord ht, hcondition.2.same, hbody⟩

theorem forStatement_adapts {t t' : Token} (ht : token t t') :
    J.Adapts K False (fun _ => Stmt.Paraphrases fun _ _ => True)
      (forStatement (n + 1) t) (forStatement (m + 1) t) (forStatement (m + 1) t') := by
  simp only [forStatement]
  refine .expect (by decide) _ fun _ _ _ _ _ => h.forInit.bind fun init₀ init₁ init₂ hinit => ?_
  have hbody : ∀ {K : Prop} {condition₀ condition₁ condition₂ : Expr}
      (increment₀ increment₁ increment₂ : Option Expr),
      condition₁.Paraphrases (fun _ _ => True) condition₂ →
      J.Adapts (K ∧ Option.Rel (Expr.Paraphrases fun _ _ => True) increment₁ increment₂) False
        (fun _ => Stmt.Paraphrases fun _ _ => True)
        (do
          let _ ← expect .rightParen .forClose
          return forLoop t init₀ condition₀ increment₀ (← statement n))
        (do
          let _ ← expect .rightParen .forClose
          return forLoop t init₁ condition₁ increment₁ (← statement m))
        (do
          let _ ← expect .rightParen .forClose
          return forLoop t' init₂ condition₂ increment₂ (← statement m)) :=
    fun _ _ _ hcondition => .expect (by decide) _ fun hincrement _ _ _ _ =>
      h.statement.bind fun _ _ _ hbody =>
        .pure (forLoop_paraphrases (J.sameWord ht) hinit hcondition hincrement.2 hbody)
  have hincrement : ∀ {K : Prop} (condition₀ condition₁ condition₂ : Expr),
      J.Adapts (K ∧ condition₁.Paraphrases (fun _ _ => True) condition₂) False
        (fun _ => Stmt.Paraphrases fun _ _ => True)
        (do
          let _ ← expect .semicolon .loopSemicolon
          let increment ← if (← get).check .rightParen then pure none else some <$> expression n
          let _ ← expect .rightParen .forClose
          return forLoop t init₀ condition₀ increment (← statement n))
        (do
          let _ ← expect .semicolon .loopSemicolon
          let increment ← if (← get).check .rightParen then pure none else some <$> expression m
          let _ ← expect .rightParen .forClose
          return forLoop t init₁ condition₁ increment (← statement m))
        (do
          let _ ← expect .semicolon .loopSemicolon
          let increment ← if (← get).check .rightParen then pure none else some <$> expression m
          let _ ← expect .rightParen .forClose
          return forLoop t' init₂ condition₂ increment (← statement m)) := by
    intro K condition₀ condition₁ condition₂
    refine .expect (by decide) _ fun hK _ _ _ _ => Adapts.keeps (K := True) (.ifCheck _ ?_ ?_) trivial
    · exact (Adapts.pure fun _ => .none).bind fun _ _ _ => hbody _ _ _ hK.2
    · exact (h.expression.map fun _ _ _ _ he => Option.Rel.some he.same).bind fun _ _ _ =>
        hbody _ _ _ hK.2
  refine Adapts.keeps (K := True) (.ifCheck _ ?_ ?_) trivial
  · exact (Adapts.pure fun _ => ⟨_, rfl, rfl⟩).bind hincrement
  · exact (h.expression.weaken id id fun _ _ _ => Expr.Retold.same).bind hincrement

theorem returnStatement_adapts {t t' : Token} (ht : token t t') :
    J.Adapts K False (fun _ => Stmt.Paraphrases fun _ _ => True)
      (returnStatement (n + 1) t) (returnStatement (m + 1) t) (returnStatement (m + 1) t') := by
  simp only [returnStatement]
  have hend : ∀ {K : Prop} (value₀ value₁ value₂ : Expr),
      J.Adapts (K ∧ value₁.Paraphrases (fun _ _ => True) value₂) False
        (fun _ => Stmt.Paraphrases fun _ _ => True)
        (do statementEnd; return .returns t (.expression value₀ t))
        (do statementEnd; return .returns t (.expression value₁ t))
        (do statementEnd; return .returns t' (.expression value₂ t')) := fun _ _ _ =>
    Adapts.statementEnd.map fun hvalue _ _ _ _ =>
      ⟨_, _, rfl, J.sameWord ht, _, _, rfl, J.sameWord ht, hvalue.2⟩
  refine .ifPeek ?_ ?_
  · exact (Adapts.pure fun _ => ⟨_, rfl, rfl⟩).bind hend
  · exact (h.expression.weaken id id fun _ _ _ => Expr.Retold.same).bind hend

include hle in
theorem variableDeclaration_adapts {t t' : Token} (ht : token t t') :
    J.Adapts K False (fun _ => Stmt.Paraphrases fun _ _ => True)
      (variableDeclaration (n + 1) t) (variableDeclaration (m + 1) t)
      (variableDeclaration (m + 1) t') := by
  simp only [variableDeclaration]
  rw [J.kind_eq ht]
  refine .expect (by decide) _ fun _ name name' hname _ => Adapts.keeps (K := True) ?_ trivial
  refine (annotationsAdapt hle).announced.bind fun _ _ _ => .ifPeek ?_ ?_
  · exact Adapts.statementEnd.map fun _ _ _ _ _ => ⟨_, _, _, rfl, J.sameWord hname, rfl⟩
  · refine .expect (by decide) _ fun _ equals equals' hequals _ => Adapts.keeps (K := True) ?_ trivial
    refine .row _ (.failExpecting _) (h.expression.bind fun _ _ _ => ?_)
    exact Adapts.statementEnd.map fun hvalue _ _ _ _ => ⟨_, _, _, rfl, J.sameWord hname, _, rfl,
      _, _, rfl, J.sameWord hequals, hvalue.2.same⟩

theorem indexAssignment_adapts {c₀ c₁ c₂ : Cursor} (hc : J.Around c₀ c₁ c₂) (hhere : ¬J.Here c₀)
    (hname : c₀.check .name = true) : J.Tells False (fun _ => Stmt.Paraphrases fun _ _ => True)
      (indexAssignment (n + 1) c₀) (indexAssignment (m + 1) c₁) (indexAssignment (m + 1) c₂) := by
  simp only [indexAssignment]
  refine .advance hc hhere (Reads.atEnd_of_check hname) fun t t' ht _ =>
    Adapts.keeps (K := True) ?_ trivial
  refine Adapts.freshId.bind fun _ _ _ => .expect (by decide) _ fun _ _ _ _ _ =>
    Adapts.keeps (K := True) ?_ trivial
  refine h.expression.bind fun _ _ _ => .expect (by decide) _ fun hindex _ _ _ _ =>
    Adapts.keeps (K := True) ?_ trivial
  refine .expect (by decide) _ fun _ _ _ _ _ => Adapts.keeps (K := True) ?_ trivial
  refine h.expression.bind fun _ _ _ => Adapts.statementEnd.map fun hvalue _ _ _ _ => ?_
  exact ⟨_, _, _, _, rfl, trivial, J.sameWord ht, hindex.2.same, hvalue.2.same⟩

/-! ### Directly before the place -/

theorem unary_arrives : J.Arrives True (unary (n + 1)) := by
  have hprimary : J.Arrives True (do let head ← primary n; postfixRest n head) :=
    (primary_arrives J).bind fun head =>
      have hrest : J.Adapts False True Expr.Retold (postfixRest n head) (postfixRest m head)
        (postfixRest m head) := h.postfixRest False.elim
      hrest.stalls
  rintro ⟨last, rest, i⟩ t hc ht e d hr
  obtain rfl : rest = t :: J.declared := hc
  have hpeek : Cursor.peek ⟨last, t :: J.declared, i⟩ = t := rfl
  simp only [unary] at hr
  rw [acceptAny_passed (by rw [hpeek]; rcases List.mem_pair.1 ht with hkind | hkind <;> rw [hkind] <;>
    decide)] at hr
  exact hprimary _ t rfl ht e d hr

theorem binary_arrives (levels : List (List Token.Kind))
    (hlevels : ∀ kind ∈ levels.flatten, kind ∉ declarationKinds) :
    J.Arrives True (binary (n + 1) levels) := by
  cases levels with
  | nil =>
    simp only [binary]
    exact h.unary_arrives
  | cons operators tighter =>
    simp only [binary]
    have htighter := (List.forall_mem_append.1 hlevels).2
    refine (h.binary_arrives tighter htighter).bind fun left => ?_
    have hrest : J.Adapts False True Expr.Retold (binaryRest n operators tighter left)
        (binaryRest m operators tighter left) (binaryRest m operators tighter left) :=
      h.binaryRest operators tighter hlevels False.elim
    exact hrest.stalls

theorem expression_arrives : J.Arrives True (expression (n + 1)) := by
  simp only [expression]
  refine (h.binary_arrives _ (by decide)).bind fun target => ?_
  exact .acceptAny (by decide) (.acceptAny (by decide) (.acceptAny (by decide) (.pure target)))

theorem expressionStatement_arrives : J.Arrives False (expressionStatement (n + 1)) := by
  intro c
  simp only [expressionStatement, Reads.peek_bind]
  have hend : J.Arrives False (do
      let e ← expression n
      statementEnd
      return Stmt.expression e c.peek) := h.expression_arrives.bind fun e =>
    (Adapts.statementEnd (J := J) (K := True)).stalls.map _
  exact hend c

end

/-! ### At the place -/

section

variable {i k : NodeId} {last₁ last₂ : Token} {s : Stmt} {d : Cursor}

/-- The declaration is read up to the end of its value. -/
theorem declaration_reads
    (hr : variableDeclaration n J.word ⟨J.word, J.name :: J.equals :: (J.row ++ J.post), i⟩ =
      .ok (s, d)) : ∃ c₀, c₀.rest = J.post ∧ statementEnd c₀ = .ok ((), d) := by
  cases n with
  | zero => cases hr
  | succ n =>
  simp only [variableDeclaration] at hr
  rw [expect_taken J.name_kind (by decide)] at hr
  obtain ⟨ty, c, hannotation, hr⟩ := bind_eq_ok hr
  obtain rfl : c = ⟨J.name, J.equals :: (J.row ++ J.post), i⟩ := by
    cases n with
    | zero => cases hannotation
    | succ n =>
      simp only [annotated] at hannotation
      have hpeek : Cursor.peek ⟨J.name, J.equals :: (J.row ++ J.post), i⟩ = J.equals := rfl
      rw [accept_passed (by rw [hpeek, J.equals_kind]; decide)] at hannotation
      exact (Prod.mk.inj (Except.ok.inj hannotation)).2.symm
  have hpeek : Cursor.peek ⟨J.name, J.equals :: (J.row ++ J.post), i⟩ = J.equals := rfl
  rw [Reads.peek_bind, hpeek, if_neg (by rw [J.equals_kind]; decide),
    expect_taken J.equals_kind (by decide), Reads.get_bind] at hr
  obtain ⟨t, -, ts, -, hrow, -, ht, -⟩ := J.heads
  rw [check_false hrow (starter_ne ht (by decide)), atEnd_false hrow (starter_ne ht (by decide))] at hr
  obtain ⟨value, c₀, hvalue, hr⟩ := bind_eq_ok hr
  obtain ⟨_, d', hend, hr⟩ := bind_eq_ok hr
  obtain ⟨-, rfl⟩ := Prod.mk.inj (Except.ok.inj hr)
  refine ⟨c₀, ?_, hend⟩
  -- with more room the row is read to its end
  obtain ⟨e, e', l, l', j, j', -, hread⟩ := J.read J.equals J.equals i
  obtain ⟨t, ht, hmark⟩ := J.marked
  have hmore : expression (max n J.room) ⟨J.equals, J.row ++ J.post, i⟩ = .ok (value, c₀) :=
    Echoes.ok (fun _ => (productionsEcho (Nat.le_max_left _ _)).expression)
      ⟨t, List.mem_append_right _ ht, hmark⟩ hvalue
  rw [(hread _ (Nat.le_max_right _ _)).1] at hmore
  rw [← (Prod.mk.inj (Except.ok.inj hmore)).2]

/-- In the place of the declaration, both statements are read. -/
theorem statements_placed (hm : J.room + n ≤ m)
    (hr : variableDeclaration n J.word ⟨J.word, J.name :: J.equals :: (J.row ++ J.post), i⟩ =
      .ok (s, d)) : ∃ s₁ s₂ d₁ d₂,
    expressionStatement m ⟨last₁, J.row ++ J.post, k⟩ = .ok (s₁, d₁) ∧
    expressionStatement m ⟨last₂, J.row' ++ J.post', k⟩ = .ok (s₂, d₂) ∧
    J.Around d d₁ d₂ ∧ s₁.Paraphrases (fun _ _ => True) s₂ := by
  obtain ⟨c₀, hrest, hend⟩ := declaration_reads hr
  obtain ⟨m, rfl⟩ : ∃ k, m = k + 1 := by
    cases n with
    | zero => cases hr
    | succ n => exact ⟨m - 1, by omega⟩
  obtain ⟨e, e', l, l', j, j', hsame, hread⟩ := J.read last₁ last₂ k
  have hroom : J.room ≤ m := by
    cases n with
    | zero => cases hr
    | succ n => omega
  obtain ⟨hread₁, hread₂⟩ := hread m hroom
  have hpast : J.Around c₀ ⟨l, J.post, j⟩ ⟨l', J.post', j'⟩ :=
    ⟨.inr ⟨hrest.symm, hrest ▸ J.posts, hrest ▸ Nat.le_refl _, hrest ▸ J.marked⟩⟩
  obtain ⟨hfalse, -⟩ | ⟨_, _, d₁, d₂, hend₁, hend₂, hd, -⟩ :=
    (Adapts.statementEnd (K := True)).keeps trivial _ _ _ hpast () d hend
  · exact hfalse.elim
  obtain ⟨t, t', ts, ts', hrow, hrow', -, -, ht⟩ := J.heads
  refine ⟨.expression e t, .expression e' t', d₁, d₂, ?_, ?_, hd, e', t', rfl, J.sameWord ht, hsame⟩
  · have hpeek : Cursor.peek ⟨last₁, J.row ++ J.post, k⟩ = t := by simp [Cursor.peek, hrow]
    simp only [expressionStatement, Reads.peek_bind, hpeek]
    rw [Reads.bind_ok hread₁, Reads.bind_ok hend₁]
    rfl
  · have hpeek : Cursor.peek ⟨last₂, J.row' ++ J.post', k⟩ = t' := by simp [Cursor.peek, hrow']
    simp only [expressionStatement, Reads.peek_bind, hpeek]
    rw [Reads.bind_ok hread₂, Reads.bind_ok hend₂]
    rfl

end

theorem statement_placed {c₀ c₁ c₂ : Cursor} (hm : J.room + n ≤ m) (hhere : J.Here c₀)
    (h₁ : c₁.rest = J.row ++ J.post) (h₂ : c₂.rest = J.row' ++ J.post')
    (hid : c₂.nextId = c₁.nextId) : J.Tells False (fun _ => Stmt.Paraphrases fun _ _ => True)
      (statement (n + 1) c₀) (statement (m + 1) c₁) (statement (m + 1) c₂) := by
  obtain ⟨last₀, rest₀, nextId₀⟩ := c₀
  obtain ⟨last₁, rest₁, nextId₁⟩ := c₁
  obtain ⟨last₂, rest₂, nextId₂⟩ := c₂
  obtain ⟨rfl, rfl, rfl, rfl⟩ : rest₀ = J.declared ∧ rest₁ = J.row ++ J.post ∧
    rest₂ = J.row' ++ J.post' ∧ nextId₂ = nextId₁ := ⟨hhere, h₁, h₂, hid⟩
  have hdeclares : statement (n + 1) ⟨last₀, J.declared, nextId₀⟩ =
      variableDeclaration n J.word ⟨J.word, J.name :: J.equals :: (J.row ++ J.post), nextId₀⟩ := by
    have hmark : J.word.kind ≠ .endMark := J.word_ne (by decide)
    have hskip := skipNewlines_before (c := ⟨last₀, J.declared, nextId₀⟩)
      (by rw [hhere.peek]; exact J.word_ne (by decide))
    have hadvance : (advance >>= variableDeclaration n) ⟨last₀, J.declared, nextId₀⟩ =
        variableDeclaration n J.word ⟨J.word, J.name :: J.equals :: (J.row ++ J.post), nextId₀⟩ :=
      advance_taken hmark _
    have hkind := J.word_kind
    simp only [statement]
    rw [Reads.bind_ok hskip, Reads.get_bind, hhere.peek, ← hadvance]
    generalize J.word.kind = kind at hkind
    cases kind <;> first | rfl | exact absurd hkind (by decide)
  intro s d hr
  rw [hdeclares] at hr
  obtain ⟨s₁, s₂, d₁, d₂, hs₁, hs₂, hd, hsame⟩ := statements_placed hm hr
  rw [J.sentence.statement, J.sentence'.statement]
  exact .inr ⟨s₁, s₂, d₁, d₂, hs₁, hs₂, hd, hsame⟩

/-- A token directly before the place. -/
theorem rest_beside {c : Cursor} (h : c.rest.tail = J.declared) : c.rest = c.peek :: J.declared := by
  obtain ⟨last, rest, i⟩ := c
  cases rest with
  | nil => cases h
  | cons t ts => exact congrArg (t :: ·) h

theorem emptyObjectStatement_adapts :
    J.Adapts K False (fun _ => Stmt.Paraphrases fun _ _ => True) emptyObjectStatement
      emptyObjectStatement emptyObjectStatement :=
  Adapts.statementEnd.map fun _ _ _ _ _ => ⟨_, rfl, rfl⟩

section

variable (h : ProductionsAdapt J n m) (hm : J.room + n ≤ m)
include h

theorem blockRow_keeps : J.Keeps False (fun _ => stmtsParaphrase fun _ _ => True)
    (blockRow (n + 1)) (blockRow (m + 1)) (blockRow (m + 1)) := by
  simp only [blockRow]
  intro c₀ c₁ c₂ hc
  simp only [Reads.get_bind]
  obtain ⟨hcheck₁, hcheck₂⟩ := hc.check_eq (by decide : Token.Kind.rightBrace ∉ declarationKinds)
    (by decide)
  rw [hcheck₁, hcheck₂, hc.atEnd_eq.1, hc.atEnd_eq.2]
  split
  · exact Keeps.pure (J := J) rfl _ _ _ hc
  · exact (h.statement.bind fun _ _ _ hs => Keeps.skipNewlines.bind fun _ _ _ _ =>
      h.blockRow.bind fun _ _ _ hss => .pure ⟨_, _, rfl, hs, hss⟩) _ _ _ hc

/-- A statement elsewhere than at the place. -/
theorem statement_elsewhere {c₀ c₁ c₂ : Cursor} (hc : J.Around c₀ c₁ c₂) (hhere : ¬J.Here c₀)
    (hfeed : c₀.peek.kind ≠ .newline) : J.Tells False (fun _ => Stmt.Paraphrases fun _ _ => True)
      (statement (n + 1) c₀) (statement (m + 1) c₁) (statement (m + 1) c₂) := by
  obtain ⟨hpeek₁, hpeek₂⟩ := hc.peek hhere
  have hkind₂ := J.kind_eq hpeek₂
  simp only [statement]
  rw [Reads.bind_ok (skipNewlines_before hfeed),
    Reads.bind_ok (skipNewlines_before (c := c₁) (by rwa [hpeek₁])),
    Reads.bind_ok (skipNewlines_before (c := c₂) (by rwa [hkind₂]))]
  simp only [Reads.get_bind]
  have hadvance : ∀ {y₀ y₁ y₂ : Token → Parse Stmt}, c₀.peek.kind ≠ .endMark →
      (∀ t t', token t t' → J.Keeps False (fun _ => Stmt.Paraphrases fun _ _ => True)
        (y₀ t) (y₁ t) (y₂ t')) →
      J.Tells False (fun _ => Stmt.Paraphrases fun _ _ => True) ((advance >>= y₀) c₀)
        ((advance >>= y₁) c₁) ((advance >>= y₂) c₂) :=
    fun hmark hy => .advance hc hhere (by simpa [Cursor.atEnd] using hmark) fun t t' ht _ => hy t t' ht
  rw [hpeek₁, hkind₂]
  generalize hpeek : c₀.peek.kind = kind at hadvance
  have hend : kind ≠ .endMark → c₀.atEnd = false := fun hmark => by
    simpa [Cursor.atEnd, hpeek] using hmark
  split
  case h_1 => exact hadvance (by decide) fun _ _ _ => h.classDeclaration.keeps trivial
  case h_2 => exact hadvance (by decide) fun _ _ ht => (h.forStatement ht).keeps trivial
  case h_3 => exact hadvance (by decide) fun _ _ ht => (h.whileStatement ht).keeps trivial
  case h_4 => exact hadvance (by decide) fun _ _ ht => (h.ifStatement ht).keeps trivial
  case h_5 | h_6 | h_7 =>
    exact hadvance (by decide) fun _ _ ht => (h.variableDeclaration ht).keeps trivial
  case h_8 =>
    obtain ⟨hplace, hnext⟩ | ⟨hnext₁, hnext₂⟩ := hc.checkNext hhere (hend (by decide))
      (by decide : Token.Kind.name ∉ declarationKinds)
    · rw [hnext]
      exact .stopped (h.expressionStatement_arrives c₀ _ (rest_beside hplace) (by simp [hpeek]))
    rw [hnext₁, hnext₂]
    split
    · refine hadvance (by decide) fun _ _ _ => Adapts.keeps (K := True) ?_ trivial
      refine .expect (by decide) _ fun _ t t' ht _ => Adapts.keeps (K := True) ?_ trivial
      refine .expect (by decide) _ fun _ _ _ _ _ => Adapts.keeps (K := True) ?_ trivial
      exact (h.functionRest ht).map fun _ _ _ _ hd => ⟨_, rfl, hd⟩
    · exact h.expressionStatement.keeps trivial _ _ _ hc
  case h_9 => exact hadvance (by decide) fun _ _ ht => (h.returnStatement ht).keeps trivial
  case h_10 =>
    obtain ⟨hnext₁, hnext₂⟩ := hc.checkNext_eq hhere (hend (by decide))
      (by decide : Token.Kind.rightBrace ∉ declarationKinds) (by decide)
    obtain ⟨hentry₁, hentry₂⟩ := (hc.tail hhere (hend (by decide))).startsEntry_eq
    rw [hnext₁, hnext₂, hentry₁, hentry₂]
    split
    · next hnext =>
      exact .advanceTwice hc hhere (hend (by decide)) hnext (by decide) (by decide)
        (emptyObjectStatement_adapts.keeps trivial)
    · split
      · exact h.expressionStatement.keeps trivial _ _ _ hc
      · exact (h.block.map fun _ _ _ _ hss => ⟨_, rfl, hss⟩).keeps trivial _ _ _ hc
  case h_11 => exact hadvance (by decide) fun _ _ _ => emptyObjectStatement_adapts.keeps trivial
  case h_12 => exact Keeps.pure (J := J) rfl _ _ _ hc
  case h_13 =>
    obtain ⟨hname, hplace, hassign⟩ | ⟨hassign₁, hassign₂⟩ :=
      hc.atIndexAssignment hhere (hend (by assumption))
    · rw [hassign]
      exact .stopped (h.expressionStatement_arrives c₀ _ (rest_beside hplace) (by simp [hname]))
    rw [hassign₁, hassign₂]
    split
    · next hassign =>
      simp only [Cursor.atIndexAssignment, Bool.and_eq_true] at hassign
      exact h.indexAssignment hc hhere hassign.1.1
    · exact h.expressionStatement.keeps trivial _ _ _ hc

include hm in
theorem statement_keeps : J.Keeps False (fun _ => Stmt.Paraphrases fun _ _ => True)
    (statement (n + 1)) (statement (m + 1)) (statement (m + 1)) := by
  intro c₀ c₁ c₂ hc s d hr
  obtain ⟨_, d₀, hskip₀, -⟩ := bind_eq_ok (by simpa only [statement] using hr)
  obtain ⟨hfalse, -⟩ | ⟨_, _, d₁, d₂, hskip₁, hskip₂, hd, -⟩ := Keeps.skipNewlines _ _ _ hc () d₀ hskip₀
  · exact hfalse.elim
  rw [statement_behind hskip₀] at hr
  rw [statement_behind hskip₁, statement_behind hskip₂]
  obtain ⟨hhere, h₁, h₂, hid⟩ | ⟨hhere, -⟩ := hd.cases
  · exact statement_placed hm hhere h₁ h₂ hid s d hr
  · exact statement_elsewhere h hd hhere (skipNewlines_peek hskip₀) s d hr

theorem ifStatement_adapts {t t' : Token} (ht : token t t') :
    J.Adapts K False (fun _ => Stmt.Paraphrases fun _ _ => True)
      (ifStatement (n + 1) t) (ifStatement (m + 1) t) (ifStatement (m + 1) t') := by
  simp only [ifStatement]
  refine .expect (by decide) _ fun _ _ _ _ _ => Adapts.keeps (K := True) ?_ trivial
  refine h.expression.bind fun _ _ _ => .expect (by decide) _ fun hcondition _ _ _ _ => ?_
  refine (h.block.keeps trivial).bind fun _ _ _ hblock => ?_
  have hword := J.sameWord ht
  intro c₀ c₁ c₂ hc
  simp only [Reads.get_bind]
  refine .skipNewlines hc fun d₀ d₁ d₂ hd => ?_
  obtain ⟨helse₁, helse₂⟩ := hd.check_eq (by decide : Token.Kind.kwElse ∉ declarationKinds) (by decide)
  simp only [accept_bind, helse₁, helse₂]
  split
  · next helse =>
    have hhere : ¬J.Here d₀ := fun hhere => by
      rw [hhere.check (by decide)] at helse
      cases helse
    refine .advance hd hhere (Reads.atEnd_of_check helse) fun _ _ _ _ =>
      Adapts.keeps (K := True) ?_ trivial
    refine .acceptAny (by decide) (fun _ _ _ hinner _ => Adapts.keeps (K := True) ?_ trivial) ?_
    · exact (h.ifStatement hinner).map fun _ _ _ _ hs =>
        ⟨_, _, _, _, rfl, hword, hcondition.2.same, ⟨_, rfl, hblock⟩, _, rfl, hs⟩
    · exact h.block.map fun _ _ _ _ hss =>
        ⟨_, _, _, _, rfl, hword, hcondition.2.same, ⟨_, rfl, hblock⟩, _, rfl, _, rfl, hss⟩
  · -- without `else` the cursors go back before the line feeds
    intro s d hr
    obtain ⟨rfl, rfl⟩ := Prod.mk.inj (Except.ok.inj hr)
    exact .inr ⟨_, _, c₁, c₂, rfl, rfl, hc, _, _, _, _, rfl, hword, hcondition.2.same,
      ⟨_, rfl, hblock⟩, rfl⟩

omit h in
/-- The declaration may be the first clause of a loop, and so may the statements. -/
theorem forInit_placed {c₀ c₁ c₂ : Cursor} (hm : J.room + n ≤ m) (hhere : J.Here c₀)
    (h₁ : c₁.rest = J.row ++ J.post) (h₂ : c₂.rest = J.row' ++ J.post')
    (hid : c₂.nextId = c₁.nextId) :
    J.Tells False (fun _ => optionParaphrase fun _ _ => True)
      ((do
        if let some keyword ← acceptAny declarationKinds then
          return some (← variableDeclaration n keyword)
        else return some (← expressionStatement n) : Parse (Option Stmt)) c₀)
      ((do
        if let some keyword ← acceptAny declarationKinds then
          return some (← variableDeclaration m keyword)
        else return some (← expressionStatement m) : Parse (Option Stmt)) c₁)
      ((do
        if let some keyword ← acceptAny declarationKinds then
          return some (← variableDeclaration m keyword)
        else return some (← expressionStatement m) : Parse (Option Stmt)) c₂) := by
  obtain ⟨last₀, rest₀, nextId₀⟩ := c₀
  obtain ⟨last₁, rest₁, nextId₁⟩ := c₁
  obtain ⟨last₂, rest₂, nextId₂⟩ := c₂
  obtain ⟨rfl, rfl, rfl, rfl⟩ : rest₀ = J.declared ∧ rest₁ = J.row ++ J.post ∧
    rest₂ = J.row' ++ J.post' ∧ nextId₂ = nextId₁ := ⟨hhere, h₁, h₂, hid⟩
  obtain ⟨t, t', ts, ts', hrow, hrow', ht, ht', -⟩ := J.heads
  have hstart : ∀ kind ∈ expressionStarters, kind ∉ declarationKinds := by decide
  have hpeek₁ : Cursor.peek ⟨last₁, J.row ++ J.post, nextId₂⟩ = t := by simp [Cursor.peek, hrow]
  have hpeek₂ : Cursor.peek ⟨last₂, J.row' ++ J.post', nextId₂⟩ = t' := by simp [Cursor.peek, hrow']
  rw [declared, acceptAny_taken J.word_kind (J.word_ne (by decide)),
    acceptAny_passed (hpeek₁ ▸ hstart _ ht), acceptAny_passed (hpeek₂ ▸ hstart _ ht')]
  intro o d hr
  obtain ⟨s, d', hs, hr⟩ := bind_eq_ok hr
  obtain ⟨rfl, rfl⟩ := Prod.mk.inj (Except.ok.inj hr)
  obtain ⟨s₁, s₂, d₁, d₂, hs₁, hs₂, hd, hsame⟩ := statements_placed hm hs
  refine .inr ⟨some s₁, some s₂, d₁, d₂, ?_, ?_, hd, _, rfl, hsame⟩
  · exact Reads.bind_ok hs₁
  · exact Reads.bind_ok hs₂

include hm in
theorem forInit_keeps : J.Keeps False (fun _ => optionParaphrase fun _ _ => True)
    (forInit (n + 1)) (forInit (m + 1)) (forInit (m + 1)) := by
  simp only [forInit]
  intro c₀ c₁ c₂ hc
  obtain ⟨hcheck₁, hcheck₂⟩ := hc.check_eq (by decide : Token.Kind.semicolon ∉ declarationKinds)
    (by decide)
  simp only [accept_bind, hcheck₁, hcheck₂]
  split
  · next hcheck =>
    have hhere : ¬J.Here c₀ := fun hhere => by
      rw [hhere.check (by decide)] at hcheck
      cases hcheck
    exact .advance hc hhere (Reads.atEnd_of_check hcheck) fun _ _ _ _ => .pure rfl
  simp only [Bool.false_eq_true, if_false]
  by_cases hhere : J.Here c₀
  · obtain ⟨-, h₁, h₂, hid⟩ | ⟨hplace, -⟩ := hc.cases
    · exact forInit_placed hm hhere h₁ h₂ hid
    · exact absurd hhere hplace
  · simp only [acceptAny_bind]
    rw [(hc.anyCheck hhere declarationKinds).1, (hc.anyCheck hhere declarationKinds).2]
    split
    · next hcheck =>
      exact .advance hc hhere (Reads.atEnd_of_anyCheck hcheck) fun _ _ ht _ =>
        ((h.variableDeclaration ht).map fun _ _ _ _ hs => ⟨_, rfl, hs⟩).keeps trivial
    · exact (h.expressionStatement.map fun _ _ _ _ hs => ⟨_, rfl, hs⟩).keeps trivial _ _ _ hc

include hm in
theorem productionsAdapt_succ (hle : n ≤ m) : ProductionsAdapt J (n + 1) (m + 1) where
  expression := expression_adapts h
  binary := binary_adapts h
  binaryRest := binaryRest_adapts h
  unary := unary_adapts h
  postfixRest := postfixRest_adapts h
  argumentRow := argumentRow_adapts h
  primary := primary_adapts h
  elementRow := elementRow_adapts h
  entryRow := entryRow_adapts h
  functionRest := functionRest_adapts h hle
  block := block_adapts h
  blockRow := blockRow_keeps h
  statement := statement_keeps h hm
  expressionStatement := expressionStatement_adapts h
  classDeclaration := classDeclaration_adapts h
  memberRow := memberRow_adapts h hle
  ifStatement := ifStatement_adapts h
  whileStatement := whileStatement_adapts h
  forStatement := forStatement_adapts h
  forInit := forInit_keeps h hm
  variableDeclaration := variableDeclaration_adapts h hle
  returnStatement := returnStatement_adapts h
  indexAssignment := indexAssignment_adapts h
  expression_arrives := expression_arrives h
  binary_arrives := binary_arrives h
  unary_arrives := unary_arrives h
  expressionStatement_arrives := expressionStatement_arrives h

end

/-- Each production keeps in step around the place. -/
theorem productionsAdapt (h : J.room + n ≤ m) : ProductionsAdapt J n m := by
  induction n generalizing m with
  | zero =>
    constructor
    case blockRow | statement | forInit => exact .fails fun _ => ⟨_, rfl⟩
    case indexAssignment => exact fun _ _ _ => .failed ⟨_, rfl⟩
    case expression_arrives | unary_arrives | expressionStatement_arrives =>
      exact fun _ _ _ _ _ _ hr => by cases hr
    case binary_arrives => exact fun _ _ _ _ _ _ _ _ hr => by cases hr
    all_goals intros; exact .fails fun _ => ⟨_, rfl⟩
  | succ n ih =>
    obtain ⟨m, rfl⟩ : ∃ k, m = k + 1 := ⟨m - 1, by omega⟩
    have hm : J.room + n ≤ m := Nat.le_of_succ_le_succ h
    exact productionsAdapt_succ (ih hm) hm (by omega)

/-! ### Programs -/

section

variable {c₀ c₁ c₂ d₀ d₁ d₂ : Cursor}

theorem topStatement_keeps (hm : J.room + n ≤ m) :
    J.Keeps False (fun _ => Stmt.Paraphrases fun _ _ => True) (topStatement n) (topStatement m)
      (topStatement m) :=
  (productionsAdapt hm).statement.bind fun _ _ _ hs => Keeps.skipNewlines.bind fun _ _ _ _ => .pure hs

theorem Ahead.length {ts₀ ts₁ ts₂ : List Token} (h : J.Ahead ts₀ ts₁ ts₂) : ∃ k,
    ts₀.length = k + 3 + J.row.length + J.post.length ∧
    ts₁.length = k + J.row.length + J.post.length ∧
    ts₂.length = k + J.row'.length + J.post.length := by
  induction h with
  | here =>
    have hposts := J.posts.length_eq
    exact ⟨0, by simp only [declared, List.length_cons, List.length_append]; omega, by simp,
      by simp [hposts]⟩
  | cons _ _ ih =>
    obtain ⟨k, h₀, h₁, h₂⟩ := ih
    exact ⟨k + 1, by rw [List.length_cons]; omega, by rw [List.length_cons]; omega,
      by rw [List.length_cons]; omega⟩

/-- What takes tokens of one row takes tokens of all of them. -/
theorem Around.progress (hc : J.Around c₀ c₁ c₂) (hd : J.Around d₀ d₁ d₂)
    (hlt : d₀.rest.length < c₀.rest.length) :
    d₁.rest.length < c₁.rest.length ∧ d₂.rest.length < c₂.rest.length := by
  obtain ⟨t, t', ts, ts', hrow, hrow', -⟩ := J.starts
  have hpos : 0 < J.row.length ∧ 0 < J.row'.length := by simp [hrow, hrow']
  have hpast : ∀ {ts₀ ts₁ ts₂ : List Token}, J.Past ts₀ ts₁ ts₂ →
      ts₁.length = ts₀.length ∧ ts₂.length = ts₀.length ∧ ts₀.length ≤ J.post.length :=
    fun h => ⟨by rw [h.same], h.alike.length_eq.symm, h.short⟩
  rcases hc.rows with ⟨hc, -⟩ | hc
  · obtain ⟨k, hc₀, hc₁, hc₂⟩ := hc.length
    rcases hd.rows with ⟨hd, -⟩ | hd
    · obtain ⟨k', hd₀, hd₁, hd₂⟩ := hd.length
      omega
    · obtain ⟨hd₁, hd₂, hd₀⟩ := hpast hd
      omega
  · obtain ⟨hc₁, hc₂, hc₀⟩ := hpast hc
    rcases hd.rows with ⟨hd, -⟩ | hd
    · obtain ⟨k', hd₀, -⟩ := hd.length
      omega
    · obtain ⟨hd₁, hd₂, -⟩ := hpast hd
      omega

/-- Rows of statements keep in step to the end. -/
theorem programRow_keeps (hm : J.room + n ≤ m) (hc : J.Around c₀ c₁ c₂) {p : Program} {d : Cursor}
    (hr : programRow n c₀ = .ok (p, d)) : ∃ p₁ p₂ d₁ d₂, programRow m c₁ = .ok (p₁, d₁) ∧
      programRow m c₂ = .ok (p₂, d₂) ∧ stmtsParaphrase (fun _ _ => True) p₁ p₂ := by
  induction hlen : c₀.rest.length using Nat.strongRecOn generalizing c₀ c₁ c₂ p d with
  | ind len ih =>
    subst hlen
    obtain ⟨hend₁, hend₂⟩ := hc.atEnd_eq
    cases hend : c₀.atEnd with
    | true =>
      exact ⟨[], [], c₁, c₂, programRow_atEnd (hend₁.trans hend), programRow_atEnd (hend₂.trans hend),
        rfl⟩
    | false =>
      cases htop : topStatement n c₀ with
      | error e =>
        rw [programRow_error hend htop] at hr
        cases hr
      | ok first =>
        obtain ⟨s, d₀⟩ := first
        by_cases hlt : d₀.rest.length < c₀.rest.length
        · rw [programRow_cons hend htop hlt] at hr
          cases hmore : programRow n d₀ with
          | error e =>
            rw [hmore] at hr
            cases hr
          | ok more =>
            obtain ⟨hfalse, -⟩ | ⟨s₁, s₂, d₁, d₂, htop₁, htop₂, hd, hs⟩ :=
              topStatement_keeps hm _ _ _ hc s d₀ htop
            · exact hfalse.elim
            obtain ⟨hlt₁, hlt₂⟩ := hc.progress hd hlt
            obtain ⟨p₁, p₂, e₁, e₂, hmore₁, hmore₂, hp⟩ := ih _ hlt hd hmore rfl
            rw [programRow_cons (hend₁.trans hend) htop₁ hlt₁, hmore₁,
              programRow_cons (hend₂.trans hend) htop₂ hlt₂, hmore₂]
            exact ⟨_, _, e₁, e₂, rfl, rfl, _, _, rfl, hs, hp⟩
        · rw [programRow_stuck hend htop hlt] at hr
          cases hr

/-- With as much room as a program has, a row is read as with any other room. -/
theorem parseFrom_of_room {t : Token} {ts : List Token} {i : NodeId} {p : Program} {c d : Cursor}
    (hmark : ∃ u ∈ t :: ts, u.kind = .endMark) (hskip : skipNewlines ⟨t, t :: ts, i⟩ = .ok ((), c))
    (hr : programRow m c = .ok (p, d)) : parseFrom i (t :: ts) = .ok (p, d.nextId) := by
  have hwithin : c.Within (ts.length + 1) := by
    have hfinishes := Finishes.skipNewlines (c := ⟨t, t :: ts, i⟩) (n := ts.length + 1)
      ⟨hmark, Nat.le_refl _⟩
    unfold Finishes at hfinishes
    rw [hskip] at hfinishes
    cases hfinishes with
    | tree h => exact h
  refine parseFrom_of_programRow hskip ?_
  refine (programRow_finishes (n := ts.length + 1) ?_ hwithin).settled
    (fun _ => programRow_echoes (Nat.le_max_left _ m)) hwithin.marked
    (Echoes.ok (fun _ => programRow_echoes (Nat.le_max_right _ m)) hwithin.marked hr)
  unfold depthBound
  omega

end

theorem ahead_append (J : Replacement token) {pre pre' : List Token}
    (hpre : List.Forall₂ token pre pre') :
    J.Ahead (pre ++ J.declared) (pre ++ (J.row ++ J.post)) (pre' ++ (J.row' ++ J.post')) := by
  induction hpre with
  | nil => exact .here
  | cons ht _ ih => exact .cons ht ih

theorem Ahead.ne_nil {ts₀ ts₁ ts₂ : List Token} (h : J.Ahead ts₀ ts₁ ts₂) :
    (∃ t ts, ts₀ = t :: ts) ∧ (∃ t ts, ts₁ = t :: ts) ∧ ∃ t ts, ts₂ = t :: ts := by
  cases h with
  | here =>
    obtain ⟨t, t', ts, ts', hrow, hrow', -⟩ := J.heads
    exact ⟨⟨_, _, rfl⟩, ⟨t, ts, hrow⟩, t', ts', hrow'⟩
  | cons => exact ⟨⟨_, _, rfl⟩, ⟨_, _, rfl⟩, _, _, rfl⟩

/-- Where the declaration is a statement of a program, both rows are statements instead, and the
programs say the same. -/
theorem parseFrom_paraphrases (J : Replacement token) {pre pre' : List Token}
    (hpre : List.Forall₂ token pre pre') {i j : NodeId} {p : Program}
    (h : parseFrom i (pre ++ J.declared) = .ok (p, j)) : ∃ p₁ p₂ j₁ j₂,
      parseFrom i (pre ++ (J.row ++ J.post)) = .ok (p₁, j₁) ∧
      parseFrom i (pre' ++ (J.row' ++ J.post')) = .ok (p₂, j₂) ∧
      stmtsParaphrase (fun _ _ => True) p₁ p₂ := by
  have hahead := J.ahead_append hpre
  have hbehind : ∀ (us : List Token) {ts : List Token}, (∃ t ∈ ts, t.kind = .endMark) →
      ∃ t ∈ us ++ ts, t.kind = .endMark :=
    fun _ _ ⟨t, ht, hmark⟩ => ⟨t, List.mem_append_right _ ht, hmark⟩
  have hmark₁ := hbehind pre (hbehind J.row J.marked)
  have hmark₂ := hbehind pre' (hbehind J.row' (marked_alike J.tokens J.posts J.marked))
  generalize pre ++ J.declared = ts₀, pre ++ (J.row ++ J.post) = ts₁,
    pre' ++ (J.row' ++ J.post') = ts₂ at hahead h hmark₁ hmark₂
  obtain ⟨⟨t₀, ts₀, rfl⟩, ⟨t₁, ts₁, rfl⟩, t₂, ts₂, rfl⟩ := hahead.ne_nil
  rw [parseFrom_cons] at h
  cases hskip : skipNewlines ⟨t₀, t₀ :: ts₀, i⟩ with
  | error e =>
    rw [hskip] at h
    cases h
  | ok first =>
    rw [hskip] at h
    cases hr : programRow (depthBound (ts₀.length + 1)) first.2 with
    | error e =>
      change (programRow (depthBound (ts₀.length + 1)) first.2).map _ = _ at h
      rw [hr] at h
      cases h
    | ok result =>
      have hc : J.Around ⟨t₀, t₀ :: ts₀, i⟩ ⟨t₁, t₁ :: ts₁, i⟩ ⟨t₂, t₂ :: ts₂, i⟩ :=
        ⟨.inl ⟨hahead, rfl⟩⟩
      obtain ⟨hfalse, -⟩ | ⟨_, _, d₁, d₂, hskip₁, hskip₂, hd, -⟩ :=
        Keeps.skipNewlines _ _ _ hc () first.2 hskip
      · exact hfalse.elim
      obtain ⟨p₁, p₂, e₁, e₂, hr₁, hr₂, hp⟩ := programRow_keeps (Nat.le_refl _) hd hr
      exact ⟨p₁, p₂, e₁.nextId, e₂.nextId, parseFrom_of_room hmark₁ hskip₁ hr₁,
        parseFrom_of_room hmark₂ hskip₂ hr₂, hp⟩

end Replacement

end Grammar

end ScopedScript
