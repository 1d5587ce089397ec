import ScopedScript.Proofs.Parsing.Types
import ScopedScript.Proofs.Scope.WellScoped

/-! # Well-formed programs

There are more trees than programs.  A program that has been parsed is *well-formed*
(`Program.WellFormed`), which is said node by node.

* The initialiser of a variable and the value of a `return` are expressions, the branches of a
  conditional are blocks or further conditionals, and an object in the place of a statement has no
  properties.
* Operators are of the kinds that there are levels for, or are unary ones; the keys of an object
  are distinct; there are no more arguments and parameters than are allowed.
* Annotations are canonical, and a parameter has the name and the last token that it was written
  with.
* The empty statement is the body of a loop, or comes before the increment in the body of a `for`
  loop (`Stmt.Complete` says of any other place that it is not there).

The proof goes over the productions: each yields a tree all of whose nodes are well-formed, if the
trees that it is given are. -/

namespace ScopedScript

namespace Grammar

/-- The kinds of binary operators. -/
def binaryKinds : List Token.Kind := binaryLevels.flatten

example : binaryKinds = [.or, .and, .notEqual, .equal, .greater, .greaterEqual, .less, .lessEqual,
    .plus, .minus, .divide, .times] := rfl

end Grammar

/-- If the statement is a block, no statement in it is empty. -/
def Stmt.Sealed (s : Stmt) : Prop := ∀ ss, s = .block ss → .empty ∉ ss

/-- The statement is not empty, nor a block with an empty statement in it. -/
structure Stmt.Complete (s : Stmt) : Prop where
  filled : s ≠ .empty
  closed : s.Sealed

/-- The keys of the properties of an object literal. -/
def entryKeys (entries : List Entry) : List String := entries.map fun e => e.key.lexeme

/-- The annotation of a field. -/
def FieldDecl.ty : FieldDecl → Option Ty
  | .mk _ ty _ => ty

/-- The function has parameters and annotations as they can be written, and a body of complete
statements. -/
structure FunctionDecl.WellFormed (f : FunctionDecl) : Prop where
  arity : f.params.length ≤ Grammar.maxArguments
  params : paramsCanonical f.params
  result : ∀ ty ∈ f.result, ty.Canonical
  body : ∀ s ∈ f.body, s.Complete

/-- The node is as the grammar has it, whatever the nodes below it are. -/
def Node.WellFormed : Node → Prop
  | .expr (.binary _ operator _) => operator.kind ∈ Grammar.binaryKinds
  | .expr (.unary operator _) => operator.kind = .not ∨ operator.kind = .minus
  | .expr (.function _ declaration) => declaration.WellFormed
  | .expr (.call _ _ args) => args.length ≤ Grammar.maxArguments
  | .expr (.object _ entries) => (entryKeys entries).Nodup
  | .stmt (.block statements) => (∀ s ∈ statements, s.Complete) ∨
      ∃ e keyword, statements = [.empty, .expression e keyword] ∧ keyword.kind = .kwFor
  | .stmt (.variable _ _ ty init) => (∀ t ∈ ty, t.Canonical) ∧
      ∀ s ∈ init, ∃ e token, s = .expression e token
  | .stmt (.functionDecl declaration) => declaration.WellFormed
  | .stmt (.cond _ _ thenBranch elseBranch) => thenBranch.Complete ∧
      (∃ statements, thenBranch = .block statements) ∧
      ∀ s ∈ elseBranch, s.Complete ∧ ((∃ statements, s = .block statements) ∨
        ∃ keyword condition thenBranch elseBranch, s = .cond keyword condition thenBranch elseBranch)
  | .stmt (.loop _ body keyword) => body = .empty ∨ body.Complete ∨
      ∃ e, body = .block [.empty, .expression e keyword] ∧ keyword.kind = .kwFor
  | .stmt (.returns _ value) => ∃ e token, value = .expression e token
  | .stmt (.object properties) => properties = []
  | .stmt (.classDecl declaration) => (∀ m ∈ declaration.methods, m.WellFormed) ∧
      ∀ f ∈ declaration.fields, ∀ t ∈ f.ty, t.Canonical
  | _ => True

/-- All nodes of the program are well-formed, and its statements are complete. -/
structure Program.WellFormed (program : Program) : Prop where
  complete : ∀ s ∈ program, s.Complete
  nodes : ∀ s ∈ Program.sites program, s.node.WellFormed

/-- The initialiser of a variable, if it has one, is an expression. -/
def Node.Initialized : Node → Prop
  | .stmt (.variable _ _ _ (some init)) => ∃ e token, init = .expression e token
  | _ => True

theorem Node.WellFormed.initialized {n : Node} (h : n.WellFormed) : n.Initialized := by
  unfold Node.Initialized
  split
  · exact h.2 _ rfl
  · trivial

namespace Stmt

/-- Only blocks can be incomplete. -/
theorem complete_of_ne {s : Stmt} (hs : s ≠ .empty) (hblock : ∀ ss, s ≠ .block ss) : s.Complete :=
  ⟨hs, fun ss heq => absurd heq (hblock ss)⟩

theorem complete_expression (e : Expr) (token : Token) : Complete (.expression e token) :=
  complete_of_ne (by simp) (by simp)

theorem complete_block {ss : List Stmt} (h : ∀ s ∈ ss, s.Complete) : Complete (.block ss) := by
  refine ⟨by simp, ?_⟩
  rintro _ ⟨⟩ hempty
  exact (h _ hempty).filled rfl

/-- A statement that has been read is complete unless it is empty. -/
theorem Sealed.cases {s : Stmt} (h : s.Sealed) : s = .empty ∨ s.Complete := by
  by_cases hs : s = .empty
  · exact .inl hs
  · exact .inr ⟨hs, h⟩

end Stmt

attribute [local simp] Expr.sites exprsSites LiteralValue.sites entriesSites Stmt.sites optionSites
  stmtsSites propertiesSites FunctionDecl.sites ClassDecl.sites fieldsSites methodsSites

/-- The nodes of a tree, whatever encloses the tree, are well-formed. -/
def Formed (sites : List Enclosure → List Site) : Prop :=
  ∀ outer, ∀ s ∈ sites outer, s.node.WellFormed

namespace Formed

variable {f g : List Enclosure → List Site}

theorem nil : Formed fun _ => [] := fun _ _ hs => nomatch hs

theorem append (hf : Formed f) (hg : Formed g) : Formed fun outer => f outer ++ g outer :=
  fun outer s hs => (List.mem_append.1 hs).elim (hf outer s) (hg outer s)

/-- A node in front of the nodes below it. -/
theorem node {n : Node} (hn : n.WellFormed) (hf : Formed f) :
    Formed fun outer => ⟨outer, n⟩ :: f outer := by
  intro outer s hs
  rcases List.mem_cons.1 hs with rfl | hs
  · exact hn
  · exact hf outer s hs

/-- What is formed is so in an enclosure. -/
theorem within (hf : Formed f) (enclosure : Enclosure) : Formed fun outer => f (enclosure :: outer) :=
  fun outer => hf (enclosure :: outer)

theorem exprsSites_nil : Formed fun outer => exprsSites outer [] := .nil

theorem exprsSites_cons {e : Expr} {es : List Expr} (he : Formed e.sites)
    (hes : Formed fun outer => exprsSites outer es) :
    Formed fun outer => exprsSites outer (e :: es) := he.append hes

theorem stmtsSites_nil : Formed fun outer => stmtsSites outer [] := .nil

theorem stmtsSites_cons {s : Stmt} {ss : List Stmt} (hs : Formed s.sites)
    (hss : Formed fun outer => stmtsSites outer ss) :
    Formed fun outer => stmtsSites outer (s :: ss) := hs.append hss

theorem addEntry {entries : List Entry} {value : Expr} (key : Token)
    (hentries : Formed fun outer => entriesSites outer entries) (hvalue : Formed value.sites) :
    Formed fun outer => entriesSites outer (Grammar.addEntry entries key value) := by
  induction entries with
  | nil =>
    simp only [Grammar.addEntry, entriesSites]
    exact hvalue.append .nil
  | cons entry entries ih =>
    obtain ⟨k, v⟩ := entry
    simp only [entriesSites] at hentries
    have hv : Formed v.sites := fun outer s hs => hentries outer s (List.mem_append_left _ hs)
    have hrest : Formed fun outer => entriesSites outer entries := fun outer s hs =>
      hentries outer s (List.mem_append_right _ hs)
    rw [Grammar.addEntry]
    split
    · simp only [entriesSites]
      exact hvalue.append hrest
    · simp only [entriesSites]
      exact hv.append (ih hrest)

end Formed

/-- The statement is complete, and so are all nodes of it well-formed. -/
structure StatementFormed (s : Stmt) : Prop where
  sites : Formed s.sites
  complete : s.Complete

/-- The statements are complete and well-formed. -/
structure RowFormed (ss : List Stmt) : Prop where
  sites : Formed fun outer => stmtsSites outer ss
  complete : ∀ s ∈ ss, s.Complete

theorem RowFormed.nil : RowFormed [] := ⟨.stmtsSites_nil, by simp⟩

theorem RowFormed.cons {s : Stmt} {ss : List Stmt} (hs : StatementFormed s) (hss : RowFormed ss) :
    RowFormed (s :: ss) :=
  ⟨.stmtsSites_cons hs.sites hss.sites, List.forall_mem_cons.2 ⟨hs.complete, hss.complete⟩⟩

theorem StatementFormed.block {ss : List Stmt} (h : RowFormed ss) : StatementFormed (.block ss) :=
  ⟨.node (.inl h.complete) h.sites, Stmt.complete_block h.complete⟩

/-- The members of a class are well-formed. -/
structure MembersFormed (methods : List FunctionDecl) (fields : List FieldDecl) : Prop where
  wellFormed : ∀ m ∈ methods, m.WellFormed
  annotations : ∀ f ∈ fields, ∀ t ∈ f.ty, t.Canonical
  methodsSites : Formed fun outer => methodsSites outer methods
  fieldsSites : Formed fun outer => fieldsSites outer fields

/-- The properties of an object literal have distinct keys, and are well-formed. -/
structure EntriesFormed (entries : List Entry) : Prop where
  sites : Formed fun outer => entriesSites outer entries
  keys : (entryKeys entries).Nodup

namespace Grammar

/-- A key that is added joins the others, unless it is among them. -/
theorem entryKeys_addEntry (entries : List Entry) (key : Token) (value : Expr) :
    entryKeys (addEntry entries key value) =
      if key.lexeme ∈ entryKeys entries then entryKeys entries
      else entryKeys entries ++ [key.lexeme] := by
  induction entries with
  | nil => rfl
  | cons entry entries ih =>
    obtain ⟨k, v⟩ := entry
    have hcons : ∀ v es, entryKeys (.mk k v :: es) = k.lexeme :: entryKeys es := fun _ _ => rfl
    rw [addEntry]
    by_cases hk : k.lexeme = key.lexeme
    · rw [if_pos hk, hcons, hcons, hk, if_pos List.mem_cons_self]
    · rw [if_neg hk, hcons, hcons, ih]
      have hmem : key.lexeme ∈ k.lexeme :: entryKeys entries ↔ key.lexeme ∈ entryKeys entries := by
        simp [Ne.symm hk]
      simp only [hmem]
      split <;> rfl

end Grammar

namespace EntriesFormed

theorem nil : EntriesFormed [] := ⟨.nil, .nil⟩

theorem addEntry {entries : List Entry} {value : Expr} (h : EntriesFormed entries) (key : Token)
    (hvalue : Formed value.sites) : EntriesFormed (Grammar.addEntry entries key value) := by
  refine ⟨.addEntry key h.sites hvalue, ?_⟩
  rw [Grammar.entryKeys_addEntry]
  split
  · exact h.keys
  · next hkey =>
    rw [← List.concat_eq_append, List.nodup_concat]
    exact ⟨hkey, h.keys⟩

end EntriesFormed

namespace Grammar

/-! ### What a production yields -/

/-- Whatever the production yields satisfies the condition. -/
def Yields {α : Type} (x : Parse α) (P : α → Prop) : Prop := Leaves x fun a _ => P a

namespace Yields

variable {α β : Type} {x : Parse α} {k : α → Parse β} {P R : α → Prop} {Q : β → Prop}

theorem pure {a : α} (h : P a) : Yields (Pure.pure a) P := by
  intro c b c₁ hr
  obtain ⟨rfl, -⟩ := Prod.mk.inj (Except.ok.inj hr)
  exact h

theorem bind (hx : Yields x P) (hk : ∀ a, P a → Yields (k a) Q) : Yields (x >>= k) Q :=
  Leaves.bind hx fun a _ ha _ _ hr => hk a ha hr

/-- A step that yields nothing for the tree. -/
theorem after (hk : ∀ a, Yields (k a) Q) : Yields (x >>= k) Q := Leaves.last hk

theorem map {f : α → β} (hx : Yields x P) (hf : ∀ a, P a → Q (f a)) : Yields (f <$> x) Q := by
  rw [map_eq_pure_bind]
  exact hx.bind fun a ha => .pure (hf a ha)

theorem imp (hx : Yields x P) (h : ∀ a, P a → R a) : Yields x R := Leaves.imp hx fun a _ => h a

/-- A part that may be left out. -/
theorem optional {p : Prop} [Decidable p] {a : α} (ha : P a) (hx : Yields x P)
    (hk : ∀ a, P a → Yields (k a) Q) :
    Yields (if p then Pure.pure a >>= k else x >>= k) Q := by
  split
  · exact .bind (.pure ha) hk
  · exact hx.bind hk

theorem failAt (token : Token) (fault : Fault) : Yields (Grammar.failAt token fault) P := Leaves.throw

theorem failExpecting (what : Expectation) : Yields (Grammar.failExpecting what) P :=
  after fun _ => failAt _ _

/-- A token that is taken is of one of the kinds. -/
theorem acceptAny (kinds : List Token.Kind) :
    Yields (Grammar.acceptAny kinds) fun o => ∀ t ∈ o, t.kind ∈ kinds := by
  intro c o c₁ h t ht
  rcases acceptAny_ok h with ⟨u, rfl, hkind, -⟩ | ⟨rfl, -⟩
  · obtain rfl := Option.some.inj ht
    exact hkind
  · cases ht

theorem annotated (fuel : Nat) : Yields (Grammar.annotated fuel) fun ty => ∀ t ∈ ty, t.Canonical :=
  Leaves.imp (TypesRead.annotated (typesRead fuel)) fun _ _ h t ht => (h t ht).1

theorem parameters (fuel : Nat) : Yields (Grammar.parameters fuel) fun ps =>
    ps.length ≤ maxArguments ∧ paramsCanonical ps := (typesRead fuel).parameters

end Yields

/-! ### Line feeds -/

section

variable {c c₁ : Cursor}

/-- Line feeds that have been taken are not in view. -/
theorem peek_ne_newline {u : Unit} (h : skipNewlines c = .ok (u, c₁)) :
    c₁.peek.kind ≠ .newline := by
  obtain ⟨last, rest, nextId⟩ := c
  rw [Reads.skipNewlines_eq] at h
  dsimp only at h
  cases hdrop : dropNewlines last rest with
  | error e =>
    rw [hdrop] at h
    cases h
  | ok p =>
    rw [hdrop] at h
    obtain ⟨-, rfl⟩ := Prod.mk.inj (Except.ok.inj h)
    clear h
    induction rest generalizing last with
    | nil =>
      rw [dropNewlines] at hdrop
      split at hdrop
      · cases hdrop
      · next hlast =>
        obtain rfl := Except.ok.inj hdrop
        exact hlast
    | cons t rest ih =>
      rw [dropNewlines] at hdrop
      split at hdrop
      · exact ih _ hdrop
      · next ht =>
        obtain rfl := Except.ok.inj hdrop
        exact ht

/-- Where no line feed is in view, none is taken. -/
theorem skipNewlines_of_ne (h : c.peek.kind ≠ .newline) : skipNewlines c = .ok ((), c) := by
  obtain ⟨last, rest, nextId⟩ := c
  rw [Reads.skipNewlines_eq]
  cases rest with
  | nil =>
    have hlast : last.kind ≠ .newline := h
    simp [dropNewlines, hlast, Except.map]
  | cons t rest =>
    have ht : t.kind ≠ .newline := h
    simp [dropNewlines, ht, Except.map]

end

/-! ### The productions -/

/-- The productions yield well-formed trees with a bound of `fuel`. -/
structure ProductionsForm (fuel : Nat) : Prop where
  expression : Yields (expression fuel) fun e => Formed e.sites
  binary : ∀ levels, levels ⊆ binaryLevels → Yields (binary fuel levels) fun e => Formed e.sites
  binaryRest : ∀ operators tighter (left : Expr), operators ⊆ binaryKinds →
    tighter ⊆ binaryLevels → Formed left.sites →
    Yields (binaryRest fuel operators tighter left) fun e => Formed e.sites
  unary : Yields (unary fuel) fun e => Formed e.sites
  postfixRest : ∀ head : Expr, Formed head.sites →
    Yields (postfixRest fuel head) fun e => Formed e.sites
  argumentRow : ∀ count, Yields (argumentRow fuel count) fun es =>
    (Formed fun outer => exprsSites outer es) ∧ count + es.length ≤ maxArguments
  primary : Yields (primary fuel) fun e => Formed e.sites
  elementRow : Yields (elementRow fuel) fun es => Formed fun outer => exprsSites outer es
  entryRow : ∀ entries, EntriesFormed entries → Yields (entryRow fuel entries) EntriesFormed
  functionRest : ∀ name, Yields (functionRest fuel name) fun f => Formed f.sites ∧ f.WellFormed
  block : Yields (block fuel) RowFormed
  blockRow : ∀ {c ss c₁}, c.peek.kind ≠ .newline → blockRow fuel c = .ok (ss, c₁) → RowFormed ss
  statement : Yields (statement fuel) fun s => Formed s.sites ∧ s.Sealed
  /-- A statement is empty only at the end mark. -/
  statementOf : ∀ {c s c₁}, c.peek.kind ≠ .newline → c.atEnd = false →
    Grammar.statement fuel c = .ok (s, c₁) → StatementFormed s
  expressionStatement : Yields (expressionStatement fuel) StatementFormed
  classDeclaration : Yields (classDeclaration fuel) StatementFormed
  memberRow : Yields (memberRow fuel) fun members => MembersFormed members.1 members.2
  ifStatement : ∀ keyword, Yields (ifStatement fuel keyword) fun s => StatementFormed s ∧
    ∃ keyword condition thenBranch elseBranch, s = .cond keyword condition thenBranch elseBranch
  whileStatement : ∀ keyword, Yields (whileStatement fuel keyword) StatementFormed
  forStatement : ∀ keyword, keyword.kind = .kwFor →
    Yields (forStatement fuel keyword) StatementFormed
  forInit : Yields (forInit fuel) fun o => ∀ s ∈ o, StatementFormed s
  variableDeclaration : ∀ keyword, Yields (variableDeclaration fuel keyword) StatementFormed
  returnStatement : ∀ keyword, Yields (returnStatement fuel keyword) StatementFormed
  indexAssignment : Yields (indexAssignment fuel) StatementFormed

/-! ### Expressions -/

section

variable {fuel : Nat}

theorem assignment_yields {target value : Expr} (equals : Token) (ht : Formed target.sites)
    (hv : Formed value.sites) : Yields (assignment target equals value) fun e => Formed e.sites := by
  cases target with
  | name id name =>
    refine .after fun _ => .pure ?_
    simp only [Expr.sites]
    exact .node trivial hv
  | get object name =>
    simp only [Expr.sites] at ht
    have hobject : Formed object.sites := fun outer s hs => ht outer s (List.mem_cons_of_mem _ hs)
    refine .pure ?_
    simp only [Expr.sites]
    exact .node trivial (hv.append hobject)
  | _ => exact .failAt _ _

theorem compoundOperator_mem (operator : Token) :
    (compoundOperator operator).kind ∈ binaryKinds := by
  unfold compoundOperator
  split <;> exact of_decide_eq_true rfl

theorem compoundAssignment_yields {target value : Expr} (operator : Token)
    (ht : Formed target.sites) (hv : Formed value.sites) :
    Yields (compoundAssignment target operator value) fun e => Formed e.sites := by
  have hop := compoundOperator_mem operator
  cases target with
  | name id name =>
    refine .after fun _ => .pure ?_
    simp only [Expr.sites] at ht ⊢
    exact .node trivial (.node hop (ht.append hv))
  | get object name =>
    simp only [Expr.sites] at ht
    have hobject : Formed object.sites := fun outer s hs => ht outer s (List.mem_cons_of_mem _ hs)
    refine .pure ?_
    simp only [Expr.sites]
    exact .node trivial (.append (.node hop (ht.append hv)) hobject)
  | _ => exact .failAt _ _

theorem expression_yields (h : ProductionsForm fuel) :
    Yields (expression (fuel + 1)) fun e => Formed e.sites := by
  simp only [expression]
  refine (h.binary _ (List.Subset.refl _)).bind fun target ht => .after fun o => ?_
  split
  · exact h.expression.bind fun value hv => assignment_yields _ ht hv
  · refine .after fun o => ?_
    split
    · exact h.expression.bind fun value hv => compoundAssignment_yields _ ht hv
    · refine .after fun o => ?_
      split
      · refine compoundAssignment_yields _ ht ?_
        simp only [Expr.sites, LiteralValue.sites]
        exact .node trivial .nil
      · exact .pure ht

theorem binary_yields (h : ProductionsForm fuel) {levels : List (List Token.Kind)}
    (hlevels : levels ⊆ binaryLevels) :
    Yields (binary (fuel + 1) levels) fun e => Formed e.sites := by
  cases levels with
  | nil => exact h.unary
  | cons operators tighter =>
    obtain ⟨hoperators, htighter⟩ := List.cons_subset.1 hlevels
    simp only [binary]
    refine (h.binary tighter htighter).bind fun left hleft => h.binaryRest _ _ left ?_ htighter hleft
    exact fun kind hkind => List.mem_flatten_of_mem hoperators hkind

theorem unary_yields (h : ProductionsForm fuel) :
    Yields (unary (fuel + 1)) fun e => Formed e.sites := by
  simp only [unary]
  refine (Yields.acceptAny _).bind fun o ho => ?_
  split
  · next operator =>
    have hkind : operator.kind = .not ∨ operator.kind = .minus := by simpa using ho operator rfl
    refine h.unary.bind fun operand hoperand => .pure ?_
    simp only [Expr.sites]
    exact .node hkind hoperand
  · exact h.primary.bind h.postfixRest

theorem binaryRest_yields (h : ProductionsForm fuel) {operators : List Token.Kind}
    {tighter : List (List Token.Kind)} {left : Expr} (hoperators : operators ⊆ binaryKinds)
    (htighter : tighter ⊆ binaryLevels) (hleft : Formed left.sites) :
    Yields (binaryRest (fuel + 1) operators tighter left) fun e => Formed e.sites := by
  simp only [binaryRest]
  refine (Yields.acceptAny _).bind fun o ho => ?_
  split
  · refine (h.binary _ htighter).bind fun right hright => h.binaryRest _ _ _ hoperators htighter ?_
    simp only [Expr.sites]
    exact .node (hoperators (ho _ rfl)) (hleft.append hright)
  · exact .pure hleft

theorem postfixRest_yields (h : ProductionsForm fuel) {head : Expr} (hhead : Formed head.sites) :
    Yields (postfixRest (fuel + 1) head) fun e => Formed e.sites := by
  have hcall : ∀ args, (Formed fun outer => exprsSites outer args) ∧
      0 + args.length ≤ maxArguments →
      Yields (do let paren ← expect .rightParen .argumentsClose
                 postfixRest fuel (.call head paren args)) fun e => Formed e.sites := by
    rintro args ⟨hargs, hlength⟩
    refine .after fun paren => h.postfixRest _ ?_
    rw [Nat.zero_add] at hlength
    simp only [Expr.sites]
    exact .node hlength (hhead.append hargs)
  simp only [postfixRest]
  refine .after fun called => ?_
  split
  · refine .after fun _ => .after fun c => ?_
    exact .optional ⟨.exprsSites_nil, Nat.zero_le _⟩ (h.argumentRow 0) hcall
  · refine .after fun dotted => ?_
    split
    · refine .after fun name => h.postfixRest _ ?_
      simp only [Expr.sites]
      exact .node trivial hhead
    · exact .pure hhead

theorem argumentRow_yields (h : ProductionsForm fuel) (count : Nat) :
    Yields (argumentRow (fuel + 1) count) fun es =>
      (Formed fun outer => exprsSites outer es) ∧ count + es.length ≤ maxArguments := by
  simp only [argumentRow]
  refine .after fun _ => ?_
  split
  · exact .after fun _ => .failAt _ _
  · next hcount =>
    refine h.expression.bind fun first hfirst => .after fun _ => .after fun more => ?_
    split
    · refine (h.argumentRow _).bind ?_
      rintro rest ⟨hrest, hlength⟩
      refine .pure ⟨.exprsSites_cons hfirst hrest, ?_⟩
      rw [List.length_cons]
      omega
    · refine .pure ⟨.exprsSites_cons hfirst .exprsSites_nil, ?_⟩
      rw [List.length_singleton]
      omega

theorem primary_yields (h : ProductionsForm fuel) :
    Yields (primary (fuel + 1)) fun e => Formed e.sites := by
  have hleaf : ∀ n : Node, n.WellFormed → Formed fun outer => [⟨outer, n⟩] := fun _ hn =>
    .node hn .nil
  simp only [primary]
  refine .after fun c => ?_
  split
  case h_1 | h_2 =>
    refine .after fun t => ?_
    unfold numberLiteral
    split
    · exact .pure (hleaf _ trivial)
    · exact .failAt _ _
  case h_3 =>
    refine .after fun t => .pure ?_
    unfold stringLiteral
    split <;> exact hleaf _ trivial
  case h_4 | h_5 | h_6 | h_7 | h_8 => exact .after fun _ => .pure (hleaf _ trivial)
  case h_9 =>
    refine .after fun t => .after fun _ => (h.functionRest t).bind fun f hf => .pure ?_
    exact .node hf.2 (hf.1.within _)
  case h_10 => exact .after fun _ => .after fun _ => .pure (hleaf _ trivial)
  case h_11 | h_12 =>
    refine .after fun name => .after fun id => .after fun indexed => ?_
    split
    · exact h.expression.bind fun index hindex => .after fun _ => .pure (.node trivial hindex)
    · exact .pure (hleaf _ trivial)
  case h_13 =>
    refine .after fun _ => .after fun _ => h.expression.bind fun inner hinner => ?_
    exact .after fun _ => .after fun _ => .pure (.node trivial hinner)
  case h_14 =>
    refine .after fun _ => .after fun _ => h.elementRow.bind fun elements helements => ?_
    exact .after fun _ => .pure (.node trivial helements)
  case h_15 =>
    split
    · refine .after fun brace => .after fun _ => ?_
      refine (h.entryRow [] .nil).bind fun entries hentries => ?_
      exact .after fun _ => .pure (.node hentries.keys hentries.sites)
    · exact .failExpecting _
  case h_16 => exact .failExpecting _

/-! ### Statements -/

/-- A statement, after line feeds: it is empty at the end mark, and well-formed elsewhere. -/
theorem statement_cases (h : ProductionsForm fuel) {c c₁ : Cursor} {s : Stmt}
    (hs : statement (fuel + 1) c = .ok (s, c₁)) :
    ∃ c₂, skipNewlines c = .ok ((), c₂) ∧
      (c₂.atEnd = true ∧ s = .empty ∨ StatementFormed s) := by
  have hobject : Yields emptyObjectStatement StatementFormed :=
    .after fun _ => .pure ⟨.node rfl .nil, Stmt.complete_of_ne (by simp) (by simp)⟩
  obtain ⟨_, c₂, hskip, hs⟩ := bind_eq_ok hs
  refine ⟨c₂, hskip, ?_⟩
  rw [Reads.get_bind] at hs
  have hend : c₂.peek.kind ≠ .endMark → c₂.atEnd = false := by simp [Cursor.atEnd]
  generalize hkind : c₂.peek.kind = kind at hs hend
  split at hs
  case h_1 => exact .inr ((Yields.after fun _ => h.classDeclaration) hs)
  case h_2 =>
    obtain ⟨t, c₃, ht, hs⟩ := bind_eq_ok hs
    have hfor : t.kind = .kwFor := (advance_ok ht (hend (by decide))).1 ▸ hkind
    exact .inr (h.forStatement t hfor hs)
  case h_3 => exact .inr ((Yields.after h.whileStatement) hs)
  case h_4 => exact .inr ((Yields.after fun t => (h.ifStatement t).imp fun _ h => h.1) hs)
  case h_5 | h_6 | h_7 => exact .inr ((Yields.after h.variableDeclaration) hs)
  case h_8 =>
    split at hs
    · obtain ⟨_, c₃, -, hs⟩ := bind_eq_ok hs
      obtain ⟨name, c₄, -, hs⟩ := bind_eq_ok hs
      obtain ⟨_, c₅, -, hs⟩ := bind_eq_ok hs
      obtain ⟨f, c₆, hf, hs⟩ := bind_eq_ok hs
      obtain ⟨rfl, -⟩ := Prod.mk.inj (Except.ok.inj hs)
      obtain ⟨hsites, hwell⟩ := h.functionRest name hf
      exact .inr ⟨.node hwell (hsites.within _), Stmt.complete_of_ne (by simp) (by simp)⟩
    · exact .inr (h.expressionStatement hs)
  case h_9 => exact .inr ((Yields.after h.returnStatement) hs)
  case h_10 =>
    split at hs
    · exact .inr ((Yields.after fun _ => .after fun _ => hobject) hs)
    · split at hs
      · exact .inr (h.expressionStatement hs)
      · exact .inr ((h.block.map fun _ hss => .block hss) hs)
  case h_11 => exact .inr ((Yields.after fun _ => hobject) hs)
  case h_12 =>
    obtain ⟨rfl, -⟩ := Prod.mk.inj (Except.ok.inj hs)
    exact .inl ⟨by simp [Cursor.atEnd, hkind], rfl⟩
  case h_13 =>
    split at hs
    · exact .inr (h.indexAssignment hs)
    · exact .inr (h.expressionStatement hs)

theorem forLoop_formed {keyword : Token} (hfor : keyword.kind = .kwFor) {init : Option Stmt}
    {condition : Expr} {increment : Option Expr} {body : Stmt}
    (hinit : ∀ s ∈ init, StatementFormed s) (hcondition : Formed condition.sites)
    (hincrement : ∀ e : Expr, increment = some e → Formed e.sites)
    (hbody : Formed body.sites ∧ body.Sealed) :
    StatementFormed (forLoop keyword init condition increment body) := by
  have hwhole : ∀ whole : Stmt, Formed whole.sites →
      (Node.stmt (.loop condition whole keyword)).WellFormed →
      StatementFormed (.block (init.toList ++ [.loop condition whole keyword])) := by
    intro whole hwhole hloop
    have hstep : StatementFormed (.loop condition whole keyword) :=
      ⟨.node hloop (hcondition.append hwhole), Stmt.complete_of_ne (by simp) (by simp)⟩
    cases init with
    | none => exact .block (.cons hstep .nil)
    | some s => exact .block (.cons (hinit s rfl) (.cons hstep .nil))
  obtain ⟨hsites, hclosed⟩ := hbody
  cases increment with
  | none => exact hwhole body hsites (hclosed.cases.imp_right .inl)
  | some e =>
    have hstep : StatementFormed (.expression e keyword) :=
      ⟨.node trivial (hincrement e rfl), Stmt.complete_expression e keyword⟩
    have hrow := Formed.stmtsSites_cons hsites (.stmtsSites_cons hstep.sites .stmtsSites_nil)
    rcases hclosed.cases with rfl | hcomplete
    · refine hwhole _ (.node (.inr ⟨e, keyword, rfl, hfor⟩) hrow) (.inr (.inr ⟨e, rfl, hfor⟩))
    · have hblock := StatementFormed.block (.cons ⟨hsites, hcomplete⟩ (.cons hstep .nil))
      exact hwhole _ hblock.sites (.inr (.inl hblock.complete))

theorem forStatement_yields (h : ProductionsForm fuel) {keyword : Token}
    (hfor : keyword.kind = .kwFor) : Yields (forStatement (fuel + 1) keyword) StatementFormed := by
  simp only [forStatement]
  refine .after fun _ => h.forInit.bind fun init hinit => .after fun _ => ?_
  refine .optional (.node trivial .nil) h.expression fun condition hcondition => ?_
  refine .after fun _ => .after fun _ => ?_
  refine .optional (P := fun increment => ∀ e : Expr, increment = some e → Formed e.sites)
    (fun _ he => by cases he) (h.expression.map fun e he _ heq => Option.some.inj heq ▸ he)
    fun increment hincrement => .after fun _ => h.statement.bind fun body hbody => .pure ?_
  exact forLoop_formed hfor hinit hcondition hincrement hbody

theorem ifStatement_yields (h : ProductionsForm fuel) (keyword : Token) :
    Yields (ifStatement (fuel + 1) keyword) fun s => StatementFormed s ∧
      ∃ keyword condition thenBranch elseBranch,
        s = .cond keyword condition thenBranch elseBranch := by
  simp only [ifStatement]
  refine .after fun _ => h.expression.bind fun condition hcondition => .after fun _ => ?_
  refine h.block.bind fun thenBranch hthen => .after fun before => .after fun _ => ?_
  have hblock := StatementFormed.block hthen
  have hcond : ∀ elseBranch, (∀ s ∈ elseBranch, StatementFormed s ∧
        ((∃ statements, s = .block statements) ∨ ∃ keyword condition thenBranch elseBranch,
          s = .cond keyword condition thenBranch elseBranch)) →
      StatementFormed (.cond keyword condition (.block thenBranch) elseBranch) := by
    intro elseBranch helse
    have hsites : Formed fun outer => optionSites outer elseBranch := by
      cases elseBranch with
      | none => exact .nil
      | some s => exact (helse s rfl).1.sites
    refine ⟨.node ⟨hblock.complete, ⟨thenBranch, rfl⟩, fun s hs => ?_⟩ ?_, ?_⟩
    · exact ⟨(helse s hs).1.complete, (helse s hs).2⟩
    · exact hcondition.append (hblock.sites.append hsites)
    · exact Stmt.complete_of_ne (by simp) (by simp)
  refine .after fun otherwise => ?_
  split
  · refine .after fun nested => ?_
    split
    · refine (h.ifStatement _).bind ?_
      rintro inner ⟨hinner, hshape⟩
      refine .pure ⟨hcond _ ?_, _, _, _, _, rfl⟩
      rintro s ⟨⟩
      exact ⟨hinner, .inr hshape⟩
    · refine h.block.bind fun elseBranch helse => .pure ⟨hcond _ ?_, _, _, _, _, rfl⟩
      rintro s ⟨⟩
      exact ⟨.block helse, .inl ⟨elseBranch, rfl⟩⟩
  · refine .after fun _ => .pure ⟨hcond none ?_, _, _, _, _, rfl⟩
    intro s hs
    cases hs

theorem variableDeclaration_yields (h : ProductionsForm fuel) (keyword : Token) :
    Yields (variableDeclaration (fuel + 1) keyword) StatementFormed := by
  simp only [variableDeclaration]
  refine .after fun name => (Yields.annotated fuel).bind fun ty hty => .after fun t => ?_
  have hcomplete : ∀ init, (Stmt.variable name (declarationKind keyword.kind) ty init).Complete :=
    fun _ => Stmt.complete_of_ne (by simp) (by simp)
  split
  · refine .after fun _ => .pure ⟨.node ⟨hty, fun s hs => ?_⟩ .nil, hcomplete none⟩
    cases hs
  · refine .after fun equals => .after fun c => ?_
    have hvalue : ∀ value : Expr, Formed value.sites → StatementFormed (.variable name
        (declarationKind keyword.kind) ty (some (.expression value equals))) := by
      intro value hvalue
      have hinit : Formed (Stmt.expression value equals).sites := .node trivial hvalue
      refine ⟨.node ⟨hty, ?_⟩ (hinit.within (.initializer name)), hcomplete _⟩
      rintro s ⟨⟩
      exact ⟨value, equals, rfl⟩
    split
    · exact .after fun _ => h.expression.bind fun value hv => .after fun _ => .pure (hvalue _ hv)
    · exact h.expression.bind fun value hv => .after fun _ => .pure (hvalue _ hv)

theorem memberRow_yields (h : ProductionsForm fuel) :
    Yields (memberRow (fuel + 1)) fun members => MembersFormed members.1 members.2 := by
  simp only [memberRow]
  refine .after fun c => ?_
  split
  · exact .pure ⟨by simp, by simp, .nil, .nil⟩
  · refine .after fun name => .after fun called => ?_
    split
    · refine (h.functionRest name).bind fun method hmethod => .after fun _ => ?_
      refine h.memberRow.bind fun members hmembers => .pure ?_
      have hsites := (hmethod.1.within (.method method)).append hmembers.methodsSites
      refine ⟨?_, hmembers.annotations, hsites, hmembers.fieldsSites⟩
      exact List.forall_mem_cons.2 ⟨hmethod.2, hmembers.wellFormed⟩
    · refine (Yields.annotated fuel).bind fun ty hty => .after fun _ => ?_
      refine h.expression.bind fun init hinit => .after fun _ => .after fun _ => ?_
      refine h.memberRow.bind fun members hmembers => .pure ?_
      have hsites := hinit.append hmembers.fieldsSites
      refine ⟨hmembers.wellFormed, ?_, hmembers.methodsSites, hsites⟩
      exact List.forall_mem_cons.2 ⟨hty, hmembers.annotations⟩

theorem blockRow_formed (h : ProductionsForm fuel) {c c₁ : Cursor} {ss : List Stmt}
    (hline : c.peek.kind ≠ .newline) (hss : blockRow (fuel + 1) c = .ok (ss, c₁)) :
    RowFormed ss := by
  rw [blockRow, Reads.get_bind] at hss
  split at hss
  · obtain ⟨rfl, -⟩ := Prod.mk.inj (Except.ok.inj hss)
    exact .nil
  · next hopen =>
    obtain ⟨first, c₂, hfirst, hss⟩ := bind_eq_ok hss
    obtain ⟨_, c₃, hskip, hss⟩ := bind_eq_ok hss
    obtain ⟨rest, c₄, hrest, hss⟩ := bind_eq_ok hss
    obtain ⟨rfl, -⟩ := Prod.mk.inj (Except.ok.inj hss)
    have hend : c.atEnd = false := by
      simp only [Bool.or_eq_true, not_or, Bool.not_eq_true] at hopen
      exact hopen.2
    exact .cons (h.statementOf hline hend hfirst) (h.blockRow (peek_ne_newline hskip) hrest)

theorem block_yields (h : ProductionsForm fuel) : Yields (block (fuel + 1)) RowFormed := by
  simp only [block]
  refine .after fun _ => .after fun empty => ?_
  split
  · exact .pure .nil
  · refine .after fun _ c ss c₁ hss => ?_
    obtain ⟨_, c₂, hskip, hss⟩ := bind_eq_ok hss
    obtain ⟨row, c₃, hrow, hss⟩ := bind_eq_ok hss
    obtain ⟨_, c₄, -, hss⟩ := bind_eq_ok hss
    obtain ⟨rfl, -⟩ := Prod.mk.inj (Except.ok.inj hss)
    exact h.blockRow (peek_ne_newline hskip) hrow

theorem productionsForm_succ (h : ProductionsForm fuel) : ProductionsForm (fuel + 1) where
  expression := expression_yields h
  binary _ := binary_yields h
  binaryRest _ _ _ := binaryRest_yields h
  unary := unary_yields h
  postfixRest _ := postfixRest_yields h
  argumentRow := argumentRow_yields h
  primary := primary_yields h
  elementRow := by
    simp only [Grammar.elementRow]
    refine .after fun c => ?_
    split
    · exact .pure .exprsSites_nil
    · refine h.expression.bind fun first hfirst => .after fun _ => .after fun more => ?_
      split
      · refine .after fun _ => h.elementRow.bind fun rest hrest => .pure ?_
        exact .exprsSites_cons hfirst hrest
      · exact .pure (.exprsSites_cons hfirst .exprsSites_nil)
  entryRow entries hentries := by
    simp only [Grammar.entryRow]
    refine .after fun c => ?_
    split
    · exact .pure hentries
    · refine .after fun key => .after fun _ => .after fun _ => ?_
      refine h.expression.bind fun value hvalue => .after fun _ => .after fun more => ?_
      have hadded := hentries.addEntry key hvalue
      split
      · exact .after fun _ => h.entryRow _ hadded
      · exact .pure hadded
  functionRest name := by
    simp only [Grammar.functionRest]
    refine (Yields.parameters fuel).bind ?_
    rintro params ⟨hlength, hparams⟩
    refine (Yields.annotated fuel).bind fun result hresult => ?_
    exact h.block.bind fun body hbody => .pure ⟨hbody.sites, hlength, hparams, hresult, hbody.complete⟩
  block := block_yields h
  blockRow := blockRow_formed h
  statement := by
    intro c s c₁ hs
    obtain ⟨c₂, -, ⟨-, rfl⟩ | hformed⟩ := statement_cases h hs
    · exact ⟨.node trivial .nil, fun ss heq => by cases heq⟩
    · exact ⟨hformed.sites, hformed.complete.closed⟩
  statementOf := by
    intro c s c₁ hline hend hs
    obtain ⟨c₂, hskip, ⟨hmark, -⟩ | hformed⟩ := statement_cases h hs
    · rw [skipNewlines_of_ne hline] at hskip
      obtain ⟨-, rfl⟩ := Prod.mk.inj (Except.ok.inj hskip)
      rw [hend] at hmark
      cases hmark
    · exact hformed
  expressionStatement := by
    simp only [Grammar.expressionStatement]
    refine .after fun token => h.expression.bind fun e he => .after fun _ => .pure ?_
    exact ⟨.node trivial he, Stmt.complete_expression e token⟩
  classDeclaration := by
    simp only [Grammar.classDeclaration]
    have hclass : ∀ name methods fields, MembersFormed methods fields →
        StatementFormed (.classDecl (.mk name methods fields)) := fun name methods fields hm =>
      ⟨.node ⟨hm.wellFormed, hm.annotations⟩ ((hm.fieldsSites.append hm.methodsSites).within _),
        Stmt.complete_of_ne (by simp) (by simp)⟩
    refine .after fun name => .after fun _ => .after fun empty => ?_
    split
    · exact .pure (hclass _ _ _ ⟨by simp, by simp, .nil, .nil⟩)
    · refine .after fun _ => .after fun _ => h.memberRow.bind fun members hmembers => ?_
      exact .after fun _ => .pure (hclass _ _ _ hmembers)
  memberRow := memberRow_yields h
  ifStatement := ifStatement_yields h
  whileStatement keyword := by
    simp only [Grammar.whileStatement]
    refine .after fun _ => h.expression.bind fun condition hcondition => .after fun _ => ?_
    refine h.statement.bind ?_
    rintro body ⟨hbody, hclosed⟩
    exact .pure ⟨.node (hclosed.cases.imp_right .inl) (hcondition.append hbody),
      Stmt.complete_of_ne (by simp) (by simp)⟩
  forStatement _ := forStatement_yields h
  forInit := by
    simp only [Grammar.forInit]
    have hsome : ∀ s, StatementFormed s → ∀ s' ∈ some s, StatementFormed s' := by
      rintro s hs s' ⟨⟩
      exact hs
    refine .after fun missing => ?_
    split
    · exact .pure (by simp)
    · refine .after fun declared => ?_
      split
      · exact (h.variableDeclaration _).bind fun s hs => .pure (hsome s hs)
      · exact h.expressionStatement.bind fun s hs => .pure (hsome s hs)
  variableDeclaration := variableDeclaration_yields h
  returnStatement keyword := by
    simp only [Grammar.returnStatement]
    refine .after fun t => .optional (.node trivial .nil) h.expression fun value hvalue => ?_
    refine .after fun _ => .pure ⟨.node ⟨value, keyword, rfl⟩ ?_,
      Stmt.complete_of_ne (by simp) (by simp)⟩
    exact .node (n := .stmt (.expression value keyword)) trivial hvalue
  indexAssignment := by
    simp only [Grammar.indexAssignment]
    refine .after fun name => .after fun id => .after fun _ => ?_
    refine h.expression.bind fun index hindex => .after fun _ => .after fun _ => ?_
    refine h.expression.bind fun value hvalue => .after fun _ => .pure ?_
    exact ⟨.node trivial (hindex.append hvalue), Stmt.complete_of_ne (by simp) (by simp)⟩

theorem productionsForm (fuel : Nat) : ProductionsForm fuel := by
  induction fuel with
  | zero => constructor <;> intros <;> first | exact Leaves.throw | contradiction
  | succ fuel ih => exact productionsForm_succ ih

/-! ### Programs -/

theorem programRow_formed {c d : Cursor} {program : List Stmt} (hline : c.peek.kind ≠ .newline)
    (h : programRow fuel c = .ok (program, d)) : RowFormed program := by
  induction hn : c.rest.length using Nat.strongRecOn generalizing c program with
  | ind n ih =>
    cases hend : c.atEnd with
    | true =>
      rw [programRow_atEnd hend] at h
      obtain ⟨rfl, -⟩ := Prod.mk.inj (Except.ok.inj h)
      exact .nil
    | false =>
      obtain ⟨s, ss, c₁, rfl, htop, hlt, hrow⟩ := programRow_ok hend h
      obtain ⟨first, c₂, hs, htop⟩ := bind_eq_ok htop
      obtain ⟨_, c₃, hskip, htop⟩ := bind_eq_ok htop
      obtain ⟨rfl, rfl⟩ := Prod.mk.inj (Except.ok.inj htop)
      have hfirst := (productionsForm fuel).statementOf hline hend hs
      exact .cons hfirst (ih _ (hn ▸ hlt) (peek_ne_newline hskip) hrow rfl)

end

end Grammar

/-- A program that has been parsed is well-formed. -/
theorem parseFrom_wellFormed {i j : NodeId} {tokens : List Token} {program : Program}
    (h : parseFrom i tokens = .ok (program, j)) : Program.WellFormed program := by
  have hrow : RowFormed program := by
    cases tokens with
    | nil =>
      obtain ⟨rfl, -⟩ := Prod.mk.inj (Except.ok.inj h)
      exact .nil
    | cons t ts =>
      obtain ⟨c, d, hskip, hrow, -⟩ := Grammar.parseFrom_ok h
      exact Grammar.programRow_formed (Grammar.peek_ne_newline hskip) hrow
  exact ⟨hrow.complete, hrow.sites []⟩

/-- In a program that has been parsed, the initialisers of variables are expressions. -/
theorem initializers_parsed {i j : NodeId} {tokens : List Token} {program : Program}
    (h : parseFrom i tokens = .ok (program, j)) :
    ∀ s ∈ Program.sites program, s.node.Initialized :=
  fun s hs => ((parseFrom_wellFormed h).nodes s hs).initialized

end ScopedScript
