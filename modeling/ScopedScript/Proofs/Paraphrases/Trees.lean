import ScopedScript.Proofs.Alike

/-! # Paraphrases

One tree paraphrases another if they differ only in what an evaluation does not look at: groupings,
the places of tokens, annotations, and the numbers of nodes as far as a relation `link` allows.  In
contrast to trees that are `Alike`, the two need not have the same shape, since groupings may stand
in either of them and not in the other.

* Trees that are alike paraphrase each other (`stmtsAlike_paraphrase`).
* What is linked can be sharpened by what is known of the places of both trees
  (`stmtsParaphrase_sharpen`): the surroundings of corresponding nodes declare the same names. -/

namespace ScopedScript

/-- The same word, wherever it stands. -/
structure Token.SameWord (t t' : Token) : Prop where
  kind : t'.kind = t.kind
  lexeme : t'.lexeme = t.lexeme

theorem Token.SameWord.refl (t : Token) : t.SameWord t := ⟨rfl, rfl⟩

/-- The expression inside the groupings around it. -/
def Expr.bare : Expr → Expr
  | .grouping inner => inner.bare
  | e => e

/-- Parameters of the same name. -/
structure Parameter.Paraphrases (p p' : Parameter) : Prop where
  name : p'.name = p.name
  left : p.left.SameWord p'.left

section

variable (link : NodeId → NodeId → Prop)

mutual

/-- The second expression says the same as the first. -/
def Expr.Paraphrases : Expr → Expr → Prop
  | .grouping inner => fun e' => inner.Paraphrases e'
  | .binary left operator right => fun e' =>
    ∃ left' operator' right', e'.bare = .binary left' operator' right' ∧
      operator.SameWord operator' ∧ left.Paraphrases left' ∧ right.Paraphrases right'
  | .unary operator operand => fun e' =>
    ∃ operator' operand', e'.bare = .unary operator' operand' ∧
      operator.SameWord operator' ∧ operand.Paraphrases operand'
  | .literal kind value => fun e' =>
    ∃ value', e'.bare = .literal kind value' ∧ value.Paraphrases value'
  | .name id token => fun e' =>
    ∃ id' token', e'.bare = .name id' token' ∧ link id id' ∧ token.SameWord token'
  | .this id keyword => fun e' =>
    ∃ id' keyword', e'.bare = .this id' keyword' ∧ link id id' ∧ keyword.SameWord keyword'
  | .function token declaration => fun e' =>
    ∃ token' declaration', e'.bare = .function token' declaration' ∧
      token.SameWord token' ∧ declaration.Paraphrases declaration'
  | .call callee paren args => fun e' =>
    ∃ callee' paren' args', e'.bare = .call callee' paren' args' ∧
      paren.SameWord paren' ∧ callee.Paraphrases callee' ∧ exprsParaphrase args args'
  | .index id name index => fun e' =>
    ∃ id' name' index', e'.bare = .index id' name' index' ∧
      link id id' ∧ name.SameWord name' ∧ index.Paraphrases index'
  | .get object name => fun e' =>
    ∃ object' name', e'.bare = .get object' name' ∧
      name.SameWord name' ∧ object.Paraphrases object'
  | .set object name value => fun e' =>
    ∃ object' name' value', e'.bare = .set object' name' value' ∧
      name.SameWord name' ∧ object.Paraphrases object' ∧ value.Paraphrases value'
  | .object brace entries => fun e' =>
    ∃ brace' entries', e'.bare = .object brace' entries' ∧
      brace.SameWord brace' ∧ entriesParaphrase entries entries'
  | .assign id name value => fun e' =>
    ∃ id' name' value', e'.bare = .assign id' name' value' ∧
      link id id' ∧ name.SameWord name' ∧ value.Paraphrases value'

/-- Rows of expressions that say the same. -/
def exprsParaphrase : List Expr → List Expr → Prop
  | [] => fun es' => es' = []
  | e :: es => fun es' => ∃ d ds, es' = d :: ds ∧ e.Paraphrases d ∧ exprsParaphrase es ds

/-- Literal values that say the same. -/
def LiteralValue.Paraphrases : LiteralValue → LiteralValue → Prop
  | .list elements => fun v' => ∃ elements', v' = .list elements' ∧ exprsParaphrase elements elements'
  | v => fun v' => v' = v

/-- Rows of properties of object literals that say the same. -/
def entriesParaphrase : List Entry → List Entry → Prop
  | [] => fun es' => es' = []
  | .mk key value :: es => fun es' =>
    ∃ key' value' ds, es' = .mk key' value' :: ds ∧
      key.SameWord key' ∧ value.Paraphrases value' ∧ entriesParaphrase es ds

/-- The second statement says the same as the first. -/
def Stmt.Paraphrases : Stmt → Stmt → Prop
  | .empty => fun s' => s' = .empty
  | .block statements => fun s' =>
    ∃ statements', s' = .block statements' ∧ stmtsParaphrase statements statements'
  | .expression e token => fun s' =>
    ∃ e' token', s' = .expression e' token' ∧ token.SameWord token' ∧ e.Paraphrases e'
  | .variable name kind _ init => fun s' =>
    ∃ name' ty' init', s' = .variable name' kind ty' init' ∧ name.SameWord name' ∧
      optionParaphrase init init'
  | .indexAssign id name index value => fun s' =>
    ∃ id' name' index' value', s' = .indexAssign id' name' index' value' ∧
      link id id' ∧ name.SameWord name' ∧ index.Paraphrases index' ∧ value.Paraphrases value'
  | .functionDecl declaration => fun s' =>
    ∃ declaration', s' = .functionDecl declaration' ∧ declaration.Paraphrases declaration'
  | .cond keyword condition thenBranch elseBranch => fun s' =>
    ∃ keyword' condition' thenBranch' elseBranch',
      s' = .cond keyword' condition' thenBranch' elseBranch' ∧
      keyword.SameWord keyword' ∧ condition.Paraphrases condition' ∧
      thenBranch.Paraphrases thenBranch' ∧ optionParaphrase elseBranch elseBranch'
  | .loop condition body token => fun s' =>
    ∃ condition' body' token', s' = .loop condition' body' token' ∧
      token.SameWord token' ∧ condition.Paraphrases condition' ∧ body.Paraphrases body'
  | .returns keyword value => fun s' =>
    ∃ keyword' value', s' = .returns keyword' value' ∧
      keyword.SameWord keyword' ∧ value.Paraphrases value'
  | .object properties => fun s' =>
    ∃ properties', s' = .object properties' ∧ propertiesParaphrase properties properties'
  | .classDecl declaration => fun s' =>
    ∃ declaration', s' = .classDecl declaration' ∧ declaration.Paraphrases declaration'

/-- Statements that may be missing and say the same. -/
def optionParaphrase : Option Stmt → Option Stmt → Prop
  | none => fun o' => o' = none
  | some s => fun o' => ∃ s', o' = some s' ∧ s.Paraphrases s'

/-- Rows of statements that say the same. -/
def stmtsParaphrase : List Stmt → List Stmt → Prop
  | [] => fun ss' => ss' = []
  | s :: ss => fun ss' => ∃ t ts, ss' = t :: ts ∧ s.Paraphrases t ∧ stmtsParaphrase ss ts

/-- Rows of properties of object statements that say the same. -/
def propertiesParaphrase : List StmtEntry → List StmtEntry → Prop
  | [] => fun ps' => ps' = []
  | .mk key s :: ps => fun ps' =>
    ∃ key' t ts, ps' = .mk key' t :: ts ∧
      key.SameWord key' ∧ s.Paraphrases t ∧ propertiesParaphrase ps ts

/-- Functions that say the same. -/
def FunctionDecl.Paraphrases : FunctionDecl → FunctionDecl → Prop
  | .mk name params body _ => fun f' =>
    ∃ name' params' body' result', f' = .mk name' params' body' result' ∧
      name.SameWord name' ∧ List.Forall₂ Parameter.Paraphrases params params' ∧
      stmtsParaphrase body body'

/-- Classes that say the same. -/
def ClassDecl.Paraphrases : ClassDecl → ClassDecl → Prop
  | .mk name methods fields => fun c' =>
    ∃ name' methods' fields', c' = .mk name' methods' fields' ∧ name.SameWord name' ∧
      fieldsParaphrase fields fields' ∧ methodsParaphrase methods methods'

/-- Rows of fields that say the same. -/
def fieldsParaphrase : List FieldDecl → List FieldDecl → Prop
  | [] => fun fs' => fs' = []
  | .mk name _ init :: fs => fun fs' =>
    ∃ name' ty' init' gs, fs' = .mk name' ty' init' :: gs ∧
      name.SameWord name' ∧ init.Paraphrases init' ∧ fieldsParaphrase fs gs

/-- Rows of methods that say the same. -/
def methodsParaphrase : List FunctionDecl → List FunctionDecl → Prop
  | [] => fun ms' => ms' = []
  | m :: ms => fun ms' => ∃ n ns, ms' = n :: ns ∧ m.Paraphrases n ∧ methodsParaphrase ms ns

end

end

/-! ### Groupings -/

section

variable {link : NodeId → NodeId → Prop}

theorem Expr.bare_bare : (e : Expr) → e.bare.bare = e.bare
  | .grouping inner => inner.bare_bare
  | .binary .. | .unary .. | .literal .. | .name .. | .this .. | .function .. | .call ..
  | .index .. | .get .. | .set .. | .object .. | .assign .. => rfl
termination_by structural x => x

/-- Groupings around the second expression make no difference. -/
theorem Expr.paraphrases_bare_right {e' : Expr} :
    (e : Expr) → (e.Paraphrases link e'.bare ↔ e.Paraphrases link e')
  | .grouping inner => Expr.paraphrases_bare_right inner
  | .binary .. | .unary .. | .literal .. | .name .. | .this .. | .function .. | .call ..
  | .index .. | .get .. | .set .. | .object .. | .assign .. => by
    simp only [Expr.Paraphrases, Expr.bare_bare]
termination_by structural x => x

/-- Groupings around the first expression make no difference. -/
theorem Expr.paraphrases_bare_left {e' : Expr} :
    (e : Expr) → (e.bare.Paraphrases link e' ↔ e.Paraphrases link e')
  | .grouping inner => Expr.paraphrases_bare_left inner
  | .binary .. | .unary .. | .literal .. | .name .. | .this .. | .function .. | .call ..
  | .index .. | .get .. | .set .. | .object .. | .assign .. => Iff.rfl
termination_by structural x => x

end

/-! ### Rows and declarations -/

section

variable {link : NodeId → NodeId → Prop}

/-- Of two statements that say the same, both are expression statements or neither is. -/
theorem Stmt.Paraphrases.expression_or {s s' : Stmt} (h : s.Paraphrases link s') :
    (∃ e t e' t', s = .expression e t ∧ s' = .expression e' t' ∧ e.Paraphrases link e') ∨
      ((∀ e t, s ≠ .expression e t) ∧ ∀ e t, s' ≠ .expression e t) := by
  cases s with
  | expression e t =>
    obtain ⟨e', t', rfl, _, he⟩ := h
    exact .inl ⟨e, t, e', t', rfl, rfl, he⟩
  | empty =>
    obtain rfl := h
    exact .inr ⟨fun _ _ => by simp, fun _ _ => by simp⟩
  | block | functionDecl | object | classDecl =>
    obtain ⟨_, rfl, _⟩ := h
    exact .inr ⟨fun _ _ => by simp, fun _ _ => by simp⟩
  | returns =>
    obtain ⟨_, _, rfl, _⟩ := h
    exact .inr ⟨fun _ _ => by simp, fun _ _ => by simp⟩
  | «variable» | loop =>
    obtain ⟨_, _, _, rfl, _⟩ := h
    exact .inr ⟨fun _ _ => by simp, fun _ _ => by simp⟩
  | indexAssign | cond =>
    obtain ⟨_, _, _, _, rfl, _⟩ := h
    exact .inr ⟨fun _ _ => by simp, fun _ _ => by simp⟩

theorem exprsParaphrase_iff {es es' : List Expr} :
    exprsParaphrase link es es' ↔ List.Forall₂ (Expr.Paraphrases link) es es' := by
  induction es generalizing es' with
  | nil => simp [exprsParaphrase]
  | cons e es ih =>
    simp only [exprsParaphrase, List.forall₂_cons_left_iff, ih]
    tauto

theorem stmtsParaphrase_iff {ss ss' : List Stmt} :
    stmtsParaphrase link ss ss' ↔ List.Forall₂ (Stmt.Paraphrases link) ss ss' := by
  induction ss generalizing ss' with
  | nil => simp [stmtsParaphrase]
  | cons s ss ih =>
    simp only [stmtsParaphrase, List.forall₂_cons_left_iff, ih]
    tauto

theorem methodsParaphrase_iff {ms ms' : List FunctionDecl} :
    methodsParaphrase link ms ms' ↔ List.Forall₂ (FunctionDecl.Paraphrases link) ms ms' := by
  induction ms generalizing ms' with
  | nil => simp [methodsParaphrase]
  | cons m ms ih =>
    simp only [methodsParaphrase, List.forall₂_cons_left_iff, ih]
    tauto

namespace FunctionDecl.Paraphrases

variable {d d' : FunctionDecl}

theorem name (h : d.Paraphrases link d') : d.name.SameWord d'.name := by
  obtain ⟨name, params, body, result⟩ := d
  obtain ⟨name', params', body', result', rfl, ht, _⟩ := h
  exact ht

theorem params (h : d.Paraphrases link d') :
    List.Forall₂ Parameter.Paraphrases d.params d'.params := by
  obtain ⟨name, params, body, result⟩ := d
  obtain ⟨name', params', body', result', rfl, _, hps, _⟩ := h
  exact hps

theorem body (h : d.Paraphrases link d') : stmtsParaphrase link d.body d'.body := by
  obtain ⟨name, params, body, result⟩ := d
  obtain ⟨name', params', body', result', rfl, _, _, hb⟩ := h
  exact hb

theorem arity (h : d.Paraphrases link d') : d'.arity = d.arity := h.params.length_eq.symm

end FunctionDecl.Paraphrases

namespace ClassDecl.Paraphrases

variable {d d' : ClassDecl}

theorem name (h : d.Paraphrases link d') : d.name.SameWord d'.name := by
  obtain ⟨name, methods, fields⟩ := d
  obtain ⟨name', methods', fields', rfl, ht, _⟩ := h
  exact ht

theorem fields (h : d.Paraphrases link d') : fieldsParaphrase link d.fields d'.fields := by
  obtain ⟨name, methods, fields⟩ := d
  obtain ⟨name', methods', fields', rfl, _, hfs, _⟩ := h
  exact hfs

theorem methods (h : d.Paraphrases link d') :
    List.Forall₂ (FunctionDecl.Paraphrases link) d.methods d'.methods := by
  obtain ⟨name, methods, fields⟩ := d
  obtain ⟨name', methods', fields', rfl, _, _, hms⟩ := h
  exact methodsParaphrase_iff.1 hms

end ClassDecl.Paraphrases

end

/-! ### Trees that are alike -/

/-- Trees that are alike say the same. -/
structure TreeLikeness.Says (L : TreeLikeness) (link : NodeId → NodeId → Prop) : Prop where
  token : ∀ {t t' : Token}, L.token t t' → t.SameWord t'
  name : ∀ {t t' : Token}, L.name t t' → t.SameWord t'
  node : ∀ {ctx : Surroundings} {n n' : Node} {id id' : NodeId} {t t' : Token}, L.node ctx n n' →
    n.reference? = some (id, t) → n'.reference? = some (id', t') → link id id'
  spelled : L.spelled

section

variable {L : TreeLikeness} {link : NodeId → NodeId → Prop}

theorem Parameter.Alike.paraphrases (h : L.Says link) {p p' : Parameter} (hp : p.Alike L p') :
    p.Paraphrases p' :=
  ⟨hp.name_eq h.spelled (h.name hp.left).lexeme, h.name hp.left⟩

mutual

theorem Expr.Alike.paraphrases (h : L.Says link) {ctx : Surroundings} : (e : Expr) → {e' : Expr} →
    e.Alike L ctx e' → e.Paraphrases link e'
  | .grouping inner, _, ⟨_, inner', he, hi⟩ => by
    subst he
    have hinner := (Expr.paraphrases_bare_right inner).2 (Expr.Alike.paraphrases h inner hi)
    exact (Expr.paraphrases_bare_right inner).1 hinner
  | .binary left _ right, _, ⟨_, left', operator', right', he, ht, hl, hr⟩ =>
    ⟨left', operator', right', congrArg Expr.bare he, h.token ht, Expr.Alike.paraphrases h left hl,
      Expr.Alike.paraphrases h right hr⟩
  | .unary _ operand, _, ⟨_, operator', operand', he, ht, ho⟩ =>
    ⟨operator', operand', congrArg Expr.bare he, h.token ht, Expr.Alike.paraphrases h operand ho⟩
  | .literal _ value, _, ⟨_, value', he, hv⟩ =>
    ⟨value', congrArg Expr.bare he, LiteralValue.Alike.paraphrases h value hv⟩
  | .name _ _, _, ⟨hn, id', token', he, ht⟩ => by
    subst he
    exact ⟨id', token', rfl, h.node hn rfl rfl, h.name ht⟩
  | .this _ _, _, ⟨hn, id', keyword', he, ht⟩ => by
    subst he
    exact ⟨id', keyword', rfl, h.node hn rfl rfl, h.name ht⟩
  | .function _ declaration, _, ⟨_, token', declaration', he, ht, hd⟩ =>
    ⟨token', declaration', congrArg Expr.bare he, h.token ht,
      FunctionDecl.Alike.paraphrases h declaration hd⟩
  | .call callee _ args, _, ⟨_, callee', paren', args', he, ht, hc, ha⟩ =>
    ⟨callee', paren', args', congrArg Expr.bare he, h.token ht, Expr.Alike.paraphrases h callee hc,
      exprsAlike_paraphrase h args ha⟩
  | .index _ _ index, _, ⟨hn, id', name', index', he, ht, hi⟩ => by
    subst he
    exact ⟨id', name', index', rfl, h.node hn rfl rfl, h.name ht, Expr.Alike.paraphrases h index hi⟩
  | .get object _, _, ⟨_, object', name', he, ht, ho⟩ =>
    ⟨object', name', congrArg Expr.bare he, h.token ht, Expr.Alike.paraphrases h object ho⟩
  | .set object _ value, _, ⟨_, object', name', value', he, ht, ho, hv⟩ =>
    ⟨object', name', value', congrArg Expr.bare he, h.token ht, Expr.Alike.paraphrases h object ho,
      Expr.Alike.paraphrases h value hv⟩
  | .object _ entries, _, ⟨_, brace', entries', he, ht, hes⟩ =>
    ⟨brace', entries', congrArg Expr.bare he, h.token ht, entriesAlike_paraphrase h entries hes⟩
  | .assign _ _ value, _, ⟨hn, id', name', value', he, ht, hv⟩ => by
    subst he
    exact ⟨id', name', value', rfl, h.node hn rfl rfl, h.name ht, Expr.Alike.paraphrases h value hv⟩
termination_by structural x => x

theorem exprsAlike_paraphrase (h : L.Says link) {ctx : Surroundings} : (es : List Expr) →
    {es' : List Expr} → exprsAlike L ctx es es' → exprsParaphrase link es es'
  | [], _, he => he
  | e :: es, _, ⟨d, ds, he, hd, hds⟩ =>
    ⟨d, ds, he, Expr.Alike.paraphrases h e hd, exprsAlike_paraphrase h es hds⟩
termination_by structural x => x

theorem LiteralValue.Alike.paraphrases (h : L.Says link) {ctx : Surroundings} :
    (v : LiteralValue) → {v' : LiteralValue} → v.Alike L ctx v' → v.Paraphrases link v'
  | .list elements, _, ⟨elements', he, hes⟩ => ⟨elements', he, exprsAlike_paraphrase h elements hes⟩
  | .num _, _, hv | .str _, _, hv | .bool _, _, hv | .null, _, hv | .undefined, _, hv
  | .emptyObject, _, hv => hv
termination_by structural x => x

theorem entriesAlike_paraphrase (h : L.Says link) {ctx : Surroundings} : (es : List Entry) →
    {es' : List Entry} → entriesAlike L ctx es es' → entriesParaphrase link es es'
  | [], _, he => he
  | .mk _ value :: es, _, ⟨key', value', ds, he, ht, hv, hds⟩ =>
    ⟨key', value', ds, he, h.token ht, Expr.Alike.paraphrases h value hv,
      entriesAlike_paraphrase h es hds⟩
termination_by structural x => x

theorem Stmt.Alike.paraphrases (h : L.Says link) {sure : Bool} {ctx : Surroundings} : (s : Stmt) →
    {s' : Stmt} → s.Alike L sure ctx s' → s.Paraphrases link s'
  | .empty, _, ⟨_, he⟩ => he
  | .block statements, _, ⟨_, statements', he, hss⟩ =>
    ⟨statements', he, stmtsAlike_paraphrase h statements hss⟩
  | .expression e _, _, ⟨_, e', token', he', ht, he⟩ =>
    ⟨e', token', he', h.token ht, Expr.Alike.paraphrases h e he⟩
  | .variable _ _ _ init, _, ⟨_, name', ty', init', he, ht, _, hi⟩ =>
    ⟨name', ty', init', he, h.name ht, optionAlike_paraphrase h init hi⟩
  | .indexAssign _ _ index value, _, ⟨hn, id', name', index', value', he, ht, hi, hv⟩ => by
    subst he
    exact ⟨id', name', index', value', rfl, h.node hn rfl rfl, h.name ht,
      Expr.Alike.paraphrases h index hi, Expr.Alike.paraphrases h value hv⟩
  | .functionDecl declaration, _, ⟨_, declaration', he, hd⟩ =>
    ⟨declaration', he, FunctionDecl.Alike.paraphrases h declaration hd⟩
  | .cond _ condition thenBranch elseBranch, _,
      ⟨_, keyword', condition', thenBranch', elseBranch', he, ht, hc, hb, ho⟩ =>
    ⟨keyword', condition', thenBranch', elseBranch', he, h.token ht,
      Expr.Alike.paraphrases h condition hc, Stmt.Alike.paraphrases h thenBranch hb,
      optionAlike_paraphrase h elseBranch ho⟩
  | .loop condition body _, _, ⟨_, condition', body', token', he, ht, hc, hb⟩ =>
    ⟨condition', body', token', he, h.token ht, Expr.Alike.paraphrases h condition hc,
      Stmt.Alike.paraphrases h body hb⟩
  | .returns _ value, _, ⟨_, keyword', value', he, ht, hv⟩ =>
    ⟨keyword', value', he, h.token ht, Stmt.Alike.paraphrases h value hv⟩
  | .object properties, _, ⟨_, properties', he, hps⟩ =>
    ⟨properties', he, propertiesAlike_paraphrase h properties hps⟩
  | .classDecl declaration, _, ⟨_, declaration', he, hd⟩ =>
    ⟨declaration', he, ClassDecl.Alike.paraphrases h declaration hd⟩
termination_by structural x => x

theorem optionAlike_paraphrase (h : L.Says link) {sure : Bool} {ctx : Surroundings} :
    (o : Option Stmt) → {o' : Option Stmt} → optionAlike L sure ctx o o' → optionParaphrase link o o'
  | none, _, ho => ho
  | some s, _, ⟨s', ho, hs⟩ => ⟨s', ho, Stmt.Alike.paraphrases h s hs⟩
termination_by structural x => x

theorem stmtsAlike_paraphrase (h : L.Says link) {sure : Bool} {ctx : Surroundings} :
    (ss : List Stmt) → {ss' : List Stmt} → stmtsAlike L sure ctx ss ss' → stmtsParaphrase link ss ss'
  | [], _, hss => hss
  | s :: ss, _, ⟨t, ts, hss, ht, hts⟩ =>
    ⟨t, ts, hss, Stmt.Alike.paraphrases h s ht, stmtsAlike_paraphrase h ss hts⟩
termination_by structural x => x

theorem propertiesAlike_paraphrase (h : L.Says link) {sure : Bool} {ctx : Surroundings} :
    (ps : List StmtEntry) → {ps' : List StmtEntry} → propertiesAlike L sure ctx ps ps' →
      propertiesParaphrase link ps ps'
  | [], _, hps => hps
  | .mk _ s :: ps, _, ⟨key', t, ts, hps, hkey, ht, hts⟩ =>
    ⟨key', t, ts, hps, h.token hkey, Stmt.Alike.paraphrases h s ht,
      propertiesAlike_paraphrase h ps hts⟩
termination_by structural x => x

theorem FunctionDecl.Alike.paraphrases (h : L.Says link) {ctx : Surroundings} :
    (f : FunctionDecl) → {f' : FunctionDecl} → f.Alike L ctx f' → f.Paraphrases link f'
  | .mk _ _ body _, _, ⟨name', params', body', result', hf, ht, hps, _, _, hb⟩ =>
    ⟨name', params', body', result', hf, h.token ht, hps.imp fun _ _ hp => hp.paraphrases h,
      stmtsAlike_paraphrase h body hb⟩
termination_by structural x => x

theorem ClassDecl.Alike.paraphrases (h : L.Says link) {ctx : Surroundings} :
    (c : ClassDecl) → {c' : ClassDecl} → c.Alike L ctx c' → c.Paraphrases link c'
  | .mk _ methods fields, _, ⟨name', methods', fields', hc, ht, hfs, hms⟩ =>
    ⟨name', methods', fields', hc, h.token ht, fieldsAlike_paraphrase h fields hfs,
      methodsAlike_paraphrase h methods hms⟩
termination_by structural x => x

theorem fieldsAlike_paraphrase (h : L.Says link) {ctx : Surroundings} :
    (fs : List FieldDecl) → {fs' : List FieldDecl} → fieldsAlike L ctx fs fs' →
      fieldsParaphrase link fs fs'
  | [], _, hfs => hfs
  | .mk _ _ init :: fs, _, ⟨name', ty', init', gs, hfs, ht, _, hi, hgs⟩ =>
    ⟨name', ty', init', gs, hfs, h.token ht, Expr.Alike.paraphrases h init hi,
      fieldsAlike_paraphrase h fs hgs⟩
termination_by structural x => x

theorem methodsAlike_paraphrase (h : L.Says link) {ctx : Surroundings} :
    (ms : List FunctionDecl) → {ms' : List FunctionDecl} → methodsAlike L ctx ms ms' →
      methodsParaphrase link ms ms'
  | [], _, hms => hms
  | m :: ms, _, ⟨n, ns, hms, hn, hns⟩ =>
    ⟨n, ns, hms, FunctionDecl.Alike.paraphrases h m hn, methodsAlike_paraphrase h ms hns⟩
termination_by structural x => x

end

end

/-! ### The other way round -/

section

variable {link : NodeId → NodeId → Prop}

theorem Token.SameWord.symm {t t' : Token} (h : t.SameWord t') : t'.SameWord t :=
  ⟨h.kind.symm, h.lexeme.symm⟩

theorem Parameter.Paraphrases.symm {p p' : Parameter} (h : p.Paraphrases p') : p'.Paraphrases p :=
  ⟨h.name.symm, h.left.symm⟩

theorem Expr.paraphrases_of_bare {e e' d : Expr} (he : e.bare = d) (h : d.Paraphrases link e') :
    e.Paraphrases link e' := by
  subst he
  exact (Expr.paraphrases_bare_left e).1 h

mutual

/-- The first expression says the same as the second, too. -/
theorem Expr.Paraphrases.symm : (e : Expr) → {e' : Expr} → e.Paraphrases link e' →
    e'.Paraphrases (flip link) e
  | .grouping inner, e', h => by
    have hinner := (Expr.paraphrases_bare_right e').2 (Expr.Paraphrases.symm inner h)
    exact (Expr.paraphrases_bare_right e').1 hinner
  | .binary left operator right, _, ⟨_, _, _, he, ht, hl, hr⟩ =>
    Expr.paraphrases_of_bare he ⟨left, operator, right, rfl, ht.symm, Expr.Paraphrases.symm left hl,
      Expr.Paraphrases.symm right hr⟩
  | .unary operator operand, _, ⟨_, _, he, ht, ho⟩ =>
    Expr.paraphrases_of_bare he ⟨operator, operand, rfl, ht.symm, Expr.Paraphrases.symm operand ho⟩
  | .literal _ value, _, ⟨_, he, hv⟩ =>
    Expr.paraphrases_of_bare he ⟨value, rfl, LiteralValue.Paraphrases.symm value hv⟩
  | .name id token, _, ⟨_, _, he, hid, ht⟩ =>
    Expr.paraphrases_of_bare he ⟨id, token, rfl, hid, ht.symm⟩
  | .this id keyword, _, ⟨_, _, he, hid, ht⟩ =>
    Expr.paraphrases_of_bare he ⟨id, keyword, rfl, hid, ht.symm⟩
  | .function token declaration, _, ⟨_, _, he, ht, hd⟩ =>
    Expr.paraphrases_of_bare he ⟨token, declaration, rfl, ht.symm,
      FunctionDecl.Paraphrases.symm declaration hd⟩
  | .call callee paren args, _, ⟨_, _, _, he, ht, hc, ha⟩ =>
    Expr.paraphrases_of_bare he ⟨callee, paren, args, rfl, ht.symm, Expr.Paraphrases.symm callee hc,
      exprsParaphrase_symm args ha⟩
  | .index id name index, _, ⟨_, _, _, he, hid, ht, hi⟩ =>
    Expr.paraphrases_of_bare he ⟨id, name, index, rfl, hid, ht.symm, Expr.Paraphrases.symm index hi⟩
  | .get object name, _, ⟨_, _, he, ht, ho⟩ =>
    Expr.paraphrases_of_bare he ⟨object, name, rfl, ht.symm, Expr.Paraphrases.symm object ho⟩
  | .set object name value, _, ⟨_, _, _, he, ht, ho, hv⟩ =>
    Expr.paraphrases_of_bare he ⟨object, name, value, rfl, ht.symm, Expr.Paraphrases.symm object ho,
      Expr.Paraphrases.symm value hv⟩
  | .object brace entries, _, ⟨_, _, he, ht, hes⟩ =>
    Expr.paraphrases_of_bare he ⟨brace, entries, rfl, ht.symm, entriesParaphrase_symm entries hes⟩
  | .assign id name value, _, ⟨_, _, _, he, hid, ht, hv⟩ =>
    Expr.paraphrases_of_bare he ⟨id, name, value, rfl, hid, ht.symm, Expr.Paraphrases.symm value hv⟩
termination_by structural x => x

theorem exprsParaphrase_symm : (es : List Expr) → {es' : List Expr} → exprsParaphrase link es es' →
    exprsParaphrase (flip link) es' es
  | [], _, rfl => rfl
  | e :: es, _, ⟨_, _, rfl, hd, hds⟩ =>
    ⟨e, es, rfl, Expr.Paraphrases.symm e hd, exprsParaphrase_symm es hds⟩
termination_by structural x => x

theorem LiteralValue.Paraphrases.symm : (v : LiteralValue) → {v' : LiteralValue} →
    v.Paraphrases link v' → v'.Paraphrases (flip link) v
  | .list elements, _, ⟨_, rfl, hes⟩ => ⟨elements, rfl, exprsParaphrase_symm elements hes⟩
  | .num _, _, rfl | .str _, _, rfl | .bool _, _, rfl | .null, _, rfl | .undefined, _, rfl
  | .emptyObject, _, rfl => rfl
termination_by structural x => x

theorem entriesParaphrase_symm : (es : List Entry) → {es' : List Entry} →
    entriesParaphrase link es es' → entriesParaphrase (flip link) es' es
  | [], _, rfl => rfl
  | .mk key value :: es, _, ⟨_, _, _, rfl, ht, hv, hds⟩ =>
    ⟨key, value, es, rfl, ht.symm, Expr.Paraphrases.symm value hv, entriesParaphrase_symm es hds⟩
termination_by structural x => x

theorem Stmt.Paraphrases.symm : (s : Stmt) → {s' : Stmt} → s.Paraphrases link s' →
    s'.Paraphrases (flip link) s
  | .empty, _, rfl => rfl
  | .block statements, _, ⟨_, rfl, hss⟩ => ⟨statements, rfl, stmtsParaphrase_symm statements hss⟩
  | .expression e token, _, ⟨_, _, rfl, ht, he⟩ =>
    ⟨e, token, rfl, ht.symm, Expr.Paraphrases.symm e he⟩
  | .variable name _ ty init, _, ⟨_, _, _, rfl, ht, hi⟩ =>
    ⟨name, ty, init, rfl, ht.symm, optionParaphrase_symm init hi⟩
  | .indexAssign id name index value, _, ⟨_, _, _, _, rfl, hid, ht, hi, hv⟩ =>
    ⟨id, name, index, value, rfl, hid, ht.symm, Expr.Paraphrases.symm index hi,
      Expr.Paraphrases.symm value hv⟩
  | .functionDecl declaration, _, ⟨_, rfl, hd⟩ =>
    ⟨declaration, rfl, FunctionDecl.Paraphrases.symm declaration hd⟩
  | .cond keyword condition thenBranch elseBranch, _, ⟨_, _, _, _, rfl, ht, hc, hb, ho⟩ =>
    ⟨keyword, condition, thenBranch, elseBranch, rfl, ht.symm, Expr.Paraphrases.symm condition hc,
      Stmt.Paraphrases.symm thenBranch hb, optionParaphrase_symm elseBranch ho⟩
  | .loop condition body token, _, ⟨_, _, _, rfl, ht, hc, hb⟩ =>
    ⟨condition, body, token, rfl, ht.symm, Expr.Paraphrases.symm condition hc,
      Stmt.Paraphrases.symm body hb⟩
  | .returns keyword value, _, ⟨_, _, rfl, ht, hv⟩ =>
    ⟨keyword, value, rfl, ht.symm, Stmt.Paraphrases.symm value hv⟩
  | .object properties, _, ⟨_, rfl, hps⟩ =>
    ⟨properties, rfl, propertiesParaphrase_symm properties hps⟩
  | .classDecl declaration, _, ⟨_, rfl, hd⟩ =>
    ⟨declaration, rfl, ClassDecl.Paraphrases.symm declaration hd⟩
termination_by structural x => x

theorem optionParaphrase_symm : (o : Option Stmt) → {o' : Option Stmt} →
    optionParaphrase link o o' → optionParaphrase (flip link) o' o
  | none, _, rfl => rfl
  | some s, _, ⟨_, rfl, hs⟩ => ⟨s, rfl, Stmt.Paraphrases.symm s hs⟩
termination_by structural x => x

theorem stmtsParaphrase_symm : (ss : List Stmt) → {ss' : List Stmt} → stmtsParaphrase link ss ss' →
    stmtsParaphrase (flip link) ss' ss
  | [], _, rfl => rfl
  | s :: ss, _, ⟨_, _, rfl, ht, hts⟩ =>
    ⟨s, ss, rfl, Stmt.Paraphrases.symm s ht, stmtsParaphrase_symm ss hts⟩
termination_by structural x => x

theorem propertiesParaphrase_symm : (ps : List StmtEntry) → {ps' : List StmtEntry} →
    propertiesParaphrase link ps ps' → propertiesParaphrase (flip link) ps' ps
  | [], _, rfl => rfl
  | .mk key s :: ps, _, ⟨_, _, _, rfl, hkey, ht, hts⟩ =>
    ⟨key, s, ps, rfl, hkey.symm, Stmt.Paraphrases.symm s ht, propertiesParaphrase_symm ps hts⟩
termination_by structural x => x

theorem FunctionDecl.Paraphrases.symm : (f : FunctionDecl) → {f' : FunctionDecl} →
    f.Paraphrases link f' → f'.Paraphrases (flip link) f
  | .mk name params body result, _, ⟨_, _, _, _, rfl, ht, hps, hb⟩ =>
    ⟨name, params, body, result, rfl, ht.symm, (hps.imp fun _ _ hp => hp.symm).flip,
      stmtsParaphrase_symm body hb⟩
termination_by structural x => x

theorem ClassDecl.Paraphrases.symm : (c : ClassDecl) → {c' : ClassDecl} → c.Paraphrases link c' →
    c'.Paraphrases (flip link) c
  | .mk name methods fields, _, ⟨_, _, _, rfl, ht, hfs, hms⟩ =>
    ⟨name, methods, fields, rfl, ht.symm, fieldsParaphrase_symm fields hfs,
      methodsParaphrase_symm methods hms⟩
termination_by structural x => x

theorem fieldsParaphrase_symm : (fs : List FieldDecl) → {fs' : List FieldDecl} →
    fieldsParaphrase link fs fs' → fieldsParaphrase (flip link) fs' fs
  | [], _, rfl => rfl
  | .mk name ty init :: fs, _, ⟨_, _, _, _, rfl, ht, hi, hgs⟩ =>
    ⟨name, ty, init, fs, rfl, ht.symm, Expr.Paraphrases.symm init hi, fieldsParaphrase_symm fs hgs⟩
termination_by structural x => x

theorem methodsParaphrase_symm : (ms : List FunctionDecl) → {ms' : List FunctionDecl} →
    methodsParaphrase link ms ms' → methodsParaphrase (flip link) ms' ms
  | [], _, rfl => rfl
  | m :: ms, _, ⟨_, _, rfl, hn, hns⟩ =>
    ⟨m, ms, rfl, FunctionDecl.Paraphrases.symm m hn, methodsParaphrase_symm ms hns⟩
termination_by structural x => x

end

end

/-! ### What the nodes are linked by -/

/-- Surroundings that declare the same names, in regions that may differ. -/
abbrev Surroundings.SameNames (ctx ctx' : Surroundings) : Prop := ctx'.layers = ctx.layers

namespace Surroundings.SameNames

variable {ctx ctx' : Surroundings}

theorem distance? (h : ctx.SameNames ctx') (name : String) :
    ctx'.distance? name = ctx.distance? name := by
  rw [← layers_distance?, ← layers_distance?, h]

theorem declare (h : ctx.SameNames ctx') (name : String) (standing : Standing) :
    (ctx.declare name standing).SameNames (ctx'.declare name standing) := by
  rw [SameNames, layers_declare, layers_declare, h]

theorem introduce (h : ctx.SameNames ctx') (name : String) (sure : Bool) :
    (ctx.introduce name sure).SameNames (ctx'.introduce name sure) := by
  rw [SameNames, layers_introduce, layers_introduce, h]

theorem push (h : ctx.SameNames ctx') (region region' : Region) (names : List (String × Standing)) :
    Surroundings.SameNames (⟨region, names⟩ :: ctx) (⟨region', names⟩ :: ctx') :=
  congrArg (List.cons _) h

theorem introduceParams (h : ctx.SameNames ctx') {ps ps' : List Parameter}
    (hps : List.Forall₂ Parameter.Paraphrases ps ps') :
    (ctx.introduceParams ps).SameNames (ctx'.introduceParams ps') := by
  induction hps generalizing ctx ctx' with
  | nil => exact h
  | cons hp _ ih =>
    simp only [Surroundings.introduceParams]
    rw [hp.left.lexeme]
    exact ih (h.introduce _ true)

end Surroundings.SameNames

section

variable {link : NodeId → NodeId → Prop}

mutual

/-- After statements that say the same, the same names are declared. -/
theorem Stmt.Paraphrases.after (sure : Bool) {ctx ctx' : Surroundings} (h : ctx.SameNames ctx') :
    (s : Stmt) → {s' : Stmt} → s.Paraphrases link s' →
      (s.after sure ctx).SameNames (s'.after sure ctx')
  | .variable name _ _ init, _, ⟨name', ty', init', he, ht, hi⟩ => by
    simp only [he, Stmt.after]
    rw [ht.lexeme]
    exact (optionParaphrase_after false (h.declare _ _) init hi).declare _ _
  | .functionDecl declaration, _, ⟨declaration', he, hd⟩ => by
    simp only [he, Stmt.after]
    rw [hd.name.lexeme]
    exact h.introduce _ _
  | .classDecl declaration, _, ⟨declaration', he, hd⟩ => by
    simp only [he, Stmt.after]
    rw [hd.name.lexeme]
    exact h.introduce _ _
  | .cond _ _ thenBranch elseBranch, _, ⟨_, _, _, _, he, _, _, hb, ho⟩ => by
    simp only [he, Stmt.after]
    exact optionParaphrase_after false (Stmt.Paraphrases.after false h thenBranch hb) elseBranch ho
  | .loop _ body _, _, ⟨_, _, _, he, _, _, hb⟩ => by
    simp only [he, Stmt.after]
    exact Stmt.Paraphrases.after false h body hb
  | .returns _ value, _, ⟨_, _, he, _, hv⟩ => by
    simp only [he, Stmt.after]
    exact Stmt.Paraphrases.after false h value hv
  | .object properties, _, ⟨_, he, hps⟩ => by
    simp only [he, Stmt.after]
    exact propertiesParaphrase_after false h properties hps
  | .empty, _, he | .block _, _, ⟨_, he, _⟩ | .expression _ _, _, ⟨_, _, he, _⟩
  | .indexAssign _ _ _ _, _, ⟨_, _, _, _, he, _⟩ => by
    rw [he]
    simp only [Stmt.after]
    exact h
termination_by structural x => x

theorem optionParaphrase_after (sure : Bool) {ctx ctx' : Surroundings} (h : ctx.SameNames ctx') :
    (o : Option Stmt) → {o' : Option Stmt} → optionParaphrase link o o' →
      (optionAfter sure ctx o).SameNames (optionAfter sure ctx' o')
  | none, _, he => by
    rw [he]
    simp only [optionAfter]
    exact h
  | some s, _, ⟨_, he, hs⟩ => by
    simp only [he, optionAfter]
    exact Stmt.Paraphrases.after sure h s hs
termination_by structural x => x

theorem propertiesParaphrase_after (sure : Bool) {ctx ctx' : Surroundings}
    (h : ctx.SameNames ctx') : (ps : List StmtEntry) → {ps' : List StmtEntry} →
      propertiesParaphrase link ps ps' →
      (propertiesAfter sure ctx ps).SameNames (propertiesAfter sure ctx' ps')
  | [], _, he => by
    rw [he]
    simp only [propertiesAfter]
    exact h
  | .mk _ s :: ps, _, ⟨_, _, _, he, _, ht, hts⟩ => by
    simp only [he, propertiesAfter]
    exact propertiesParaphrase_after sure (Stmt.Paraphrases.after sure h s ht) ps hts
termination_by structural x => x

end

/-- The places of the expression inside groupings are among those of the whole. -/
theorem Expr.places_bare_subset (ctx : Surroundings) :
    (e : Expr) → ∀ p ∈ e.bare.places ctx, p ∈ e.places ctx
  | .grouping inner, p, hp => by
    simp only [Expr.places]
    exact List.mem_cons_of_mem _ (inner.places_bare_subset ctx p hp)
  | .binary .., _, hp | .unary .., _, hp | .literal .., _, hp | .name .., _, hp | .this .., _, hp
  | .function .., _, hp | .call .., _, hp | .index .., _, hp | .get .., _, hp | .set .., _, hp
  | .object .., _, hp | .assign .., _, hp => hp
termination_by structural x => x

end

/-- The table has the distance of the node at the place. -/
def Place.FoundIn (E : Distances) (p : Place) : Prop := ∀ id, p.id? = some id → E[id]? = p.distance?

/-- Nodes that find their variables at the same distance. -/
def SameDistance (E E' : Distances) (id id' : NodeId) : Prop := E'[id']? = E[id]?

section

variable {E E' : Distances} {ctx ctx' : Surroundings}

theorem Place.FoundIn.linked {n n' : Node} {id id' : NodeId} {t t' : Token}
    (h : FoundIn E ⟨ctx, n⟩) (h' : FoundIn E' ⟨ctx', n'⟩) (hctx : ctx.SameNames ctx')
    (hr : n.reference? = some (id, t)) (hr' : n'.reference? = some (id', t'))
    (ht : t.SameWord t') : SameDistance E E' id id' := by
  have hfound := h id (by simp [Place.id?, hr])
  have hfound' := h' id' (by simp [Place.id?, hr'])
  simp only [Place.distance?, hr, hr', Option.bind_some] at hfound hfound'
  rw [SameDistance, hfound, hfound', ht.lexeme, hctx.distance?]

theorem Expr.places_of_bare {P : Place → Prop} {e d : Expr} (he : e.bare = d)
    (h : ∀ p ∈ e.places ctx, P p) : ∀ p ∈ d.places ctx, P p :=
  fun p hp => h p (e.places_bare_subset ctx p (he ▸ hp))

end

section

variable {link : NodeId → NodeId → Prop} {E E' : Distances}

mutual

/-- If the tables have the distances of all places, the nodes of trees that say the same find their
variables at the same distances. -/
theorem Expr.Paraphrases.sharpen {ctx ctx' : Surroundings} (h : ctx.SameNames ctx') : (e : Expr) →
    {e' : Expr} → e.Paraphrases link e' → (∀ p ∈ e.places ctx, p.FoundIn E) →
      (∀ p ∈ e'.places ctx', p.FoundIn E') → e.Paraphrases (SameDistance E E') e'
  | .grouping inner, _, hi, hP, hP' => by
    simp only [Expr.places, List.forall_mem_cons] at hP
    exact Expr.Paraphrases.sharpen h inner hi hP.2 hP'
  | .binary left operator right, _, ⟨left', operator', right', he, ht, hl, hr⟩, hP, hP' => by
    replace hP' := Expr.places_of_bare he hP'
    simp only [Expr.places, List.forall_mem_cons, List.forall_mem_append] at hP hP'
    exact ⟨left', operator', right', he, ht, Expr.Paraphrases.sharpen h left hl hP.2.1 hP'.2.1,
      Expr.Paraphrases.sharpen h right hr hP.2.2 hP'.2.2⟩
  | .unary operator operand, _, ⟨operator', operand', he, ht, ho⟩, hP, hP' => by
    replace hP' := Expr.places_of_bare he hP'
    simp only [Expr.places, List.forall_mem_cons] at hP hP'
    exact ⟨operator', operand', he, ht, Expr.Paraphrases.sharpen h operand ho hP.2 hP'.2⟩
  | .literal kind value, _, ⟨value', he, hv⟩, hP, hP' => by
    replace hP' := Expr.places_of_bare he hP'
    simp only [Expr.places, List.forall_mem_cons] at hP hP'
    exact ⟨value', he, LiteralValue.Paraphrases.sharpen h value hv hP.2 hP'.2⟩
  | .name id token, _, ⟨id', token', he, _, ht⟩, hP, hP' => by
    replace hP' := Expr.places_of_bare he hP'
    simp only [Expr.places, List.forall_mem_singleton] at hP hP'
    exact ⟨id', token', he, hP.linked hP' h rfl rfl ht, ht⟩
  | .this id keyword, _, ⟨id', keyword', he, _, ht⟩, hP, hP' => by
    replace hP' := Expr.places_of_bare he hP'
    simp only [Expr.places, List.forall_mem_singleton] at hP hP'
    exact ⟨id', keyword', he, hP.linked hP' h rfl rfl ht, ht⟩
  | .function token declaration, _, ⟨token', declaration', he, ht, hd⟩, hP, hP' => by
    replace hP' := Expr.places_of_bare he hP'
    simp only [Expr.places, List.forall_mem_cons] at hP hP'
    exact ⟨token', declaration', he, ht, FunctionDecl.Paraphrases.sharpen h declaration hd hP.2 hP'.2⟩
  | .call callee paren args, _, ⟨callee', paren', args', he, ht, hc, ha⟩, hP, hP' => by
    replace hP' := Expr.places_of_bare he hP'
    simp only [Expr.places, List.forall_mem_cons, List.forall_mem_append] at hP hP'
    exact ⟨callee', paren', args', he, ht, Expr.Paraphrases.sharpen h callee hc hP.2.1 hP'.2.1,
      exprsParaphrase_sharpen h args ha hP.2.2 hP'.2.2⟩
  | .index id name index, _, ⟨id', name', index', he, _, ht, hi⟩, hP, hP' => by
    replace hP' := Expr.places_of_bare he hP'
    simp only [Expr.places, List.forall_mem_cons] at hP hP'
    exact ⟨id', name', index', he, hP.1.linked hP'.1 h rfl rfl ht, ht,
      Expr.Paraphrases.sharpen h index hi hP.2 hP'.2⟩
  | .get object name, _, ⟨object', name', he, ht, ho⟩, hP, hP' => by
    replace hP' := Expr.places_of_bare he hP'
    simp only [Expr.places, List.forall_mem_cons] at hP hP'
    exact ⟨object', name', he, ht, Expr.Paraphrases.sharpen h object ho hP.2 hP'.2⟩
  | .set object name value, _, ⟨object', name', value', he, ht, ho, hv⟩, hP, hP' => by
    replace hP' := Expr.places_of_bare he hP'
    simp only [Expr.places, List.forall_mem_cons, List.forall_mem_append] at hP hP'
    exact ⟨object', name', value', he, ht, Expr.Paraphrases.sharpen h object ho hP.2.2 hP'.2.2,
      Expr.Paraphrases.sharpen h value hv hP.2.1 hP'.2.1⟩
  | .object brace entries, _, ⟨brace', entries', he, ht, hes⟩, hP, hP' => by
    replace hP' := Expr.places_of_bare he hP'
    simp only [Expr.places, List.forall_mem_cons] at hP hP'
    exact ⟨brace', entries', he, ht, entriesParaphrase_sharpen h entries hes hP.2 hP'.2⟩
  | .assign id name value, _, ⟨id', name', value', he, _, ht, hv⟩, hP, hP' => by
    replace hP' := Expr.places_of_bare he hP'
    simp only [Expr.places, List.forall_mem_append, List.forall_mem_singleton] at hP hP'
    exact ⟨id', name', value', he, hP.2.linked hP'.2 h rfl rfl ht, ht,
      Expr.Paraphrases.sharpen h value hv hP.1 hP'.1⟩
termination_by structural x => x

theorem exprsParaphrase_sharpen {ctx ctx' : Surroundings} (h : ctx.SameNames ctx') :
    (es : List Expr) → {es' : List Expr} → exprsParaphrase link es es' →
      (∀ p ∈ exprsPlaces ctx es, p.FoundIn E) → (∀ p ∈ exprsPlaces ctx' es', p.FoundIn E') →
      exprsParaphrase (SameDistance E E') es es'
  | [], _, he, _, _ => he
  | e :: es, _, ⟨d, ds, he, hd, hds⟩, hP, hP' => by
    simp only [he, exprsPlaces, List.forall_mem_append] at hP hP'
    exact ⟨d, ds, he, Expr.Paraphrases.sharpen h e hd hP.1 hP'.1,
      exprsParaphrase_sharpen h es hds hP.2 hP'.2⟩
termination_by structural x => x

theorem LiteralValue.Paraphrases.sharpen {ctx ctx' : Surroundings} (h : ctx.SameNames ctx') :
    (v : LiteralValue) → {v' : LiteralValue} → v.Paraphrases link v' →
      (∀ p ∈ v.places ctx, p.FoundIn E) → (∀ p ∈ v'.places ctx', p.FoundIn E') →
      v.Paraphrases (SameDistance E E') v'
  | .list elements, _, ⟨elements', he, hes⟩, hP, hP' => by
    simp only [he, LiteralValue.places] at hP hP'
    exact ⟨elements', he, exprsParaphrase_sharpen h elements hes hP hP'⟩
  | .num _, _, hv, _, _ | .str _, _, hv, _, _ | .bool _, _, hv, _, _ | .null, _, hv, _, _
  | .undefined, _, hv, _, _ | .emptyObject, _, hv, _, _ => hv
termination_by structural x => x

theorem entriesParaphrase_sharpen {ctx ctx' : Surroundings} (h : ctx.SameNames ctx') :
    (es : List Entry) → {es' : List Entry} → entriesParaphrase link es es' →
      (∀ p ∈ entriesPlaces ctx es, p.FoundIn E) → (∀ p ∈ entriesPlaces ctx' es', p.FoundIn E') →
      entriesParaphrase (SameDistance E E') es es'
  | [], _, he, _, _ => he
  | .mk key value :: es, _, ⟨key', value', ds, he, ht, hv, hds⟩, hP, hP' => by
    simp only [he, entriesPlaces, List.forall_mem_append] at hP hP'
    exact ⟨key', value', ds, he, ht, Expr.Paraphrases.sharpen h value hv hP.1 hP'.1,
      entriesParaphrase_sharpen h es hds hP.2 hP'.2⟩
termination_by structural x => x

theorem Stmt.Paraphrases.sharpen (sure : Bool) {ctx ctx' : Surroundings} (h : ctx.SameNames ctx') :
    (s : Stmt) → {s' : Stmt} → s.Paraphrases link s' → (∀ p ∈ s.places sure ctx, p.FoundIn E) →
      (∀ p ∈ s'.places sure ctx', p.FoundIn E') → s.Paraphrases (SameDistance E E') s'
  | .empty, _, he, _, _ => he
  | .block statements, _, ⟨statements', he, hss⟩, hP, hP' => by
    simp only [he, Stmt.places, List.forall_mem_cons] at hP hP'
    exact ⟨statements', he, stmtsParaphrase_sharpen true (h.push _ _ _) statements hss hP.2 hP'.2⟩
  | .expression e token, _, ⟨e', token', he', ht, he⟩, hP, hP' => by
    simp only [he', Stmt.places, List.forall_mem_cons] at hP hP'
    exact ⟨e', token', he', ht, Expr.Paraphrases.sharpen h e he hP.2 hP'.2⟩
  | .variable name kind ty init, _, ⟨name', ty', init', he, ht, hi⟩, hP, hP' => by
    simp only [he, Stmt.places, List.forall_mem_cons] at hP hP'
    rw [ht.lexeme] at hP'
    exact ⟨name', ty', init', he, ht,
      optionParaphrase_sharpen false (h.declare _ _) init hi hP.2 hP'.2⟩
  | .indexAssign id name index value, _, ⟨id', name', index', value', he, _, ht, hi, hv⟩, hP, hP' => by
    simp only [he, Stmt.places, List.forall_mem_append, List.forall_mem_singleton] at hP hP'
    exact ⟨id', name', index', value', he, hP.2.linked hP'.2 h rfl rfl ht, ht,
      Expr.Paraphrases.sharpen h index hi hP.1.1 hP'.1.1,
      Expr.Paraphrases.sharpen h value hv hP.1.2 hP'.1.2⟩
  | .functionDecl declaration, _, ⟨declaration', he, hd⟩, hP, hP' => by
    simp only [he, Stmt.places, List.forall_mem_cons] at hP hP'
    rw [hd.name.lexeme] at hP'
    exact ⟨declaration', he,
      FunctionDecl.Paraphrases.sharpen (h.introduce _ _) declaration hd hP.2 hP'.2⟩
  | .cond keyword condition thenBranch elseBranch, _,
      ⟨keyword', condition', thenBranch', elseBranch', he, ht, hc, hb, ho⟩, hP, hP' => by
    simp only [he, Stmt.places, List.forall_mem_cons, List.forall_mem_append] at hP hP'
    exact ⟨keyword', condition', thenBranch', elseBranch', he, ht,
      Expr.Paraphrases.sharpen h condition hc hP.2.1.1 hP'.2.1.1,
      Stmt.Paraphrases.sharpen false h thenBranch hb hP.2.1.2 hP'.2.1.2,
      optionParaphrase_sharpen false (hb.after false h thenBranch) elseBranch ho hP.2.2 hP'.2.2⟩
  | .loop condition body token, _, ⟨condition', body', token', he, ht, hc, hb⟩, hP, hP' => by
    simp only [he, Stmt.places, List.forall_mem_cons, List.forall_mem_append] at hP hP'
    exact ⟨condition', body', token', he, ht, Expr.Paraphrases.sharpen h condition hc hP.2.1 hP'.2.1,
      Stmt.Paraphrases.sharpen false h body hb hP.2.2 hP'.2.2⟩
  | .returns keyword value, _, ⟨keyword', value', he, ht, hv⟩, hP, hP' => by
    simp only [he, Stmt.places, List.forall_mem_cons] at hP hP'
    exact ⟨keyword', value', he, ht, Stmt.Paraphrases.sharpen false h value hv hP.2 hP'.2⟩
  | .object properties, _, ⟨properties', he, hps⟩, hP, hP' => by
    simp only [he, Stmt.places, List.forall_mem_cons] at hP hP'
    exact ⟨properties', he, propertiesParaphrase_sharpen false h properties hps hP.2 hP'.2⟩
  | .classDecl declaration, _, ⟨declaration', he, hd⟩, hP, hP' => by
    simp only [he, Stmt.places, List.forall_mem_cons] at hP hP'
    rw [hd.name.lexeme] at hP'
    exact ⟨declaration', he,
      ClassDecl.Paraphrases.sharpen (h.introduce _ _) declaration hd hP.2 hP'.2⟩
termination_by structural x => x

theorem optionParaphrase_sharpen (sure : Bool) {ctx ctx' : Surroundings} (h : ctx.SameNames ctx') :
    (o : Option Stmt) → {o' : Option Stmt} → optionParaphrase link o o' →
      (∀ p ∈ optionPlaces sure ctx o, p.FoundIn E) →
      (∀ p ∈ optionPlaces sure ctx' o', p.FoundIn E') → optionParaphrase (SameDistance E E') o o'
  | none, _, he, _, _ => he
  | some s, _, ⟨s', he, hs⟩, hP, hP' => by
    simp only [he, optionPlaces] at hP hP'
    exact ⟨s', he, Stmt.Paraphrases.sharpen sure h s hs hP hP'⟩
termination_by structural x => x

theorem stmtsParaphrase_sharpen (sure : Bool) {ctx ctx' : Surroundings} (h : ctx.SameNames ctx') :
    (ss : List Stmt) → {ss' : List Stmt} → stmtsParaphrase link ss ss' →
      (∀ p ∈ stmtsPlaces sure ctx ss, p.FoundIn E) →
      (∀ p ∈ stmtsPlaces sure ctx' ss', p.FoundIn E') → stmtsParaphrase (SameDistance E E') ss ss'
  | [], _, he, _, _ => he
  | s :: ss, _, ⟨t, ts, he, ht, hts⟩, hP, hP' => by
    simp only [he, stmtsPlaces, List.forall_mem_append] at hP hP'
    exact ⟨t, ts, he, Stmt.Paraphrases.sharpen sure h s ht hP.1 hP'.1,
      stmtsParaphrase_sharpen sure (ht.after sure h s) ss hts hP.2 hP'.2⟩
termination_by structural x => x

theorem propertiesParaphrase_sharpen (sure : Bool) {ctx ctx' : Surroundings}
    (h : ctx.SameNames ctx') : (ps : List StmtEntry) → {ps' : List StmtEntry} →
      propertiesParaphrase link ps ps' → (∀ p ∈ propertiesPlaces sure ctx ps, p.FoundIn E) →
      (∀ p ∈ propertiesPlaces sure ctx' ps', p.FoundIn E') →
      propertiesParaphrase (SameDistance E E') ps ps'
  | [], _, he, _, _ => he
  | .mk key s :: ps, _, ⟨key', t, ts, he, hkey, ht, hts⟩, hP, hP' => by
    simp only [he, propertiesPlaces, List.forall_mem_append] at hP hP'
    exact ⟨key', t, ts, he, hkey, Stmt.Paraphrases.sharpen sure h s ht hP.1 hP'.1,
      propertiesParaphrase_sharpen sure (ht.after sure h s) ps hts hP.2 hP'.2⟩
termination_by structural x => x

theorem FunctionDecl.Paraphrases.sharpen {ctx ctx' : Surroundings} (h : ctx.SameNames ctx') :
    (f : FunctionDecl) → {f' : FunctionDecl} → f.Paraphrases link f' →
      (∀ p ∈ f.places ctx, p.FoundIn E) → (∀ p ∈ f'.places ctx', p.FoundIn E') →
      f.Paraphrases (SameDistance E E') f'
  | .mk name params body result, _, ⟨name', params', body', result', he, ht, hps, hb⟩, hP, hP' => by
    simp only [he, FunctionDecl.places] at hP hP'
    exact ⟨name', params', body', result', he, ht, hps,
      stmtsParaphrase_sharpen true ((h.push _ _ _).introduceParams hps) body hb hP hP'⟩
termination_by structural x => x

theorem ClassDecl.Paraphrases.sharpen {ctx ctx' : Surroundings} (h : ctx.SameNames ctx') :
    (c : ClassDecl) → {c' : ClassDecl} → c.Paraphrases link c' →
      (∀ p ∈ c.places ctx, p.FoundIn E) → (∀ p ∈ c'.places ctx', p.FoundIn E') →
      c.Paraphrases (SameDistance E E') c'
  | .mk name methods fields, _, ⟨name', methods', fields', he, ht, hfs, hms⟩, hP, hP' => by
    simp only [he, ClassDecl.places, List.forall_mem_append] at hP hP'
    exact ⟨name', methods', fields', he, ht,
      fieldsParaphrase_sharpen (h.push _ _ _) fields hfs hP.1 hP'.1,
      methodsParaphrase_sharpen (h.push _ _ _) methods hms hP.2 hP'.2⟩
termination_by structural x => x

theorem fieldsParaphrase_sharpen {ctx ctx' : Surroundings} (h : ctx.SameNames ctx') :
    (fs : List FieldDecl) → {fs' : List FieldDecl} → fieldsParaphrase link fs fs' →
      (∀ p ∈ fieldsPlaces ctx fs, p.FoundIn E) → (∀ p ∈ fieldsPlaces ctx' fs', p.FoundIn E') →
      fieldsParaphrase (SameDistance E E') fs fs'
  | [], _, he, _, _ => he
  | .mk name ty init :: fs, _, ⟨name', ty', init', gs, he, ht, hi, hgs⟩, hP, hP' => by
    simp only [he, fieldsPlaces, List.forall_mem_append] at hP hP'
    exact ⟨name', ty', init', gs, he, ht, Expr.Paraphrases.sharpen h init hi hP.1 hP'.1,
      fieldsParaphrase_sharpen h fs hgs hP.2 hP'.2⟩
termination_by structural x => x

theorem methodsParaphrase_sharpen {ctx ctx' : Surroundings} (h : ctx.SameNames ctx') :
    (ms : List FunctionDecl) → {ms' : List FunctionDecl} → methodsParaphrase link ms ms' →
      (∀ p ∈ methodsPlaces ctx ms, p.FoundIn E) → (∀ p ∈ methodsPlaces ctx' ms', p.FoundIn E') →
      methodsParaphrase (SameDistance E E') ms ms'
  | [], _, he, _, _ => he
  | m :: ms, _, ⟨n, ns, he, hn, hns⟩, hP, hP' => by
    simp only [he, methodsPlaces, List.forall_mem_append] at hP hP'
    exact ⟨n, ns, he, FunctionDecl.Paraphrases.sharpen h m hn hP.1 hP'.1,
      methodsParaphrase_sharpen h ms hns hP.2 hP'.2⟩
termination_by structural x => x

end

end

end ScopedScript
