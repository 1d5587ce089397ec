import Mathlib.Data.List.Forall2
import ScopedScript.Proofs.Places

/-! # Trees that are alike

Two trees are alike if they have the same shape and their tokens and nodes correspond.  What
corresponds to what is a parameter, a `TreeLikeness`: relations between tokens, between annotations
and between functions as wholes, and one between nodes, which may depend on what surrounds the node.
The tokens that name a variable have a relation of their own.  Node numbers do not take part unless
the relation between nodes says so.

With the relation that every token and node has to itself, a tree alike to itself is one all of
whose nodes satisfy a condition; so the same notion serves for comparing two programs and for
saying that one program is as the scope analysis left it.  The main lemma is
`stmtsAlike_refine`: likeness can be sharpened by what is known of all places of the tree. -/

namespace ScopedScript

/-- What tokens and nodes of two trees correspond. -/
structure TreeLikeness where
  token : Token → Token → Prop
  /-- What corresponds where a variable is declared, read or written. -/
  name : Token → Token → Prop
  /-- What annotations correspond, with their last tokens where these are kept. -/
  annotation : Option Ty × Option Token → Option Ty × Option Token → Prop
  function : FunctionDecl → FunctionDecl → Prop
  node : Surroundings → Node → Node → Prop
  /-- Have parameters to have the names that their tokens spell? -/
  spelled : Prop := True

/-- Parameters that correspond.  A parameter has the name that its token spells, if that is
asked. -/
structure Parameter.Alike (L : TreeLikeness) (p p' : Parameter) : Prop where
  spelled : L.spelled → p.name = p.left.lexeme
  spelled' : L.spelled → p'.name = p'.left.lexeme
  left : L.name p.left p'.left
  annotation : L.annotation (p.ty, p.right) (p'.ty, p'.right)

theorem Parameter.Alike.name_eq {L : TreeLikeness} {p p' : Parameter} (h : p.Alike L p')
    (hspelled : L.spelled) (hlex : p'.left.lexeme = p.left.lexeme) : p'.name = p.name := by
  rw [h.spelled' hspelled, hlex, h.spelled hspelled]

theorem Parameter.Alike.names {L : TreeLikeness} {ps ps' : List Parameter}
    (h : List.Forall₂ (Parameter.Alike L) ps ps') : ∀ p ∈ ps, ∃ t', L.name p.left t' := by
  induction h with
  | nil => simp
  | cons hp _ ih => exact List.forall_mem_cons.2 ⟨⟨_, hp.left⟩, ih⟩

section

variable (L : TreeLikeness)

mutual

/-- Expressions that are alike. -/
def Expr.Alike (ctx : Surroundings) : Expr → Expr → Prop
  | .grouping inner => fun e' =>
    L.node ctx (.expr (.grouping inner)) (.expr e') ∧
      ∃ inner', e' = .grouping inner' ∧ inner.Alike ctx inner'
  | .binary left operator right => fun e' =>
    L.node ctx (.expr (.binary left operator right)) (.expr e') ∧
      ∃ left' operator' right', e' = .binary left' operator' right' ∧
        L.token operator operator' ∧ left.Alike ctx left' ∧ right.Alike ctx right'
  | .unary operator operand => fun e' =>
    L.node ctx (.expr (.unary operator operand)) (.expr e') ∧
      ∃ operator' operand', e' = .unary operator' operand' ∧
        L.token operator operator' ∧ operand.Alike ctx operand'
  | .literal kind value => fun e' =>
    L.node ctx (.expr (.literal kind value)) (.expr e') ∧
      ∃ value', e' = .literal kind value' ∧ value.Alike ctx value'
  | .name id token => fun e' =>
    L.node ctx (.expr (.name id token)) (.expr e') ∧
      ∃ id' token', e' = .name id' token' ∧ L.name token token'
  | .this id keyword => fun e' =>
    L.node ctx (.expr (.this id keyword)) (.expr e') ∧
      ∃ id' keyword', e' = .this id' keyword' ∧ L.name keyword keyword'
  | .function token declaration => fun e' =>
    L.node ctx (.expr (.function token declaration)) (.expr e') ∧
      ∃ token' declaration', e' = .function token' declaration' ∧
        L.token token token' ∧ declaration.Alike ctx declaration'
  | .call callee paren args => fun e' =>
    L.node ctx (.expr (.call callee paren args)) (.expr e') ∧
      ∃ callee' paren' args', e' = .call callee' paren' args' ∧
        L.token paren paren' ∧ callee.Alike ctx callee' ∧ exprsAlike ctx args args'
  | .index id name index => fun e' =>
    L.node ctx (.expr (.index id name index)) (.expr e') ∧
      ∃ id' name' index', e' = .index id' name' index' ∧
        L.name name name' ∧ index.Alike ctx index'
  | .get object name => fun e' =>
    L.node ctx (.expr (.get object name)) (.expr e') ∧
      ∃ object' name', e' = .get object' name' ∧ L.token name name' ∧ object.Alike ctx object'
  | .set object name value => fun e' =>
    L.node ctx (.expr (.set object name value)) (.expr e') ∧
      ∃ object' name' value', e' = .set object' name' value' ∧
        L.token name name' ∧ object.Alike ctx object' ∧ value.Alike ctx value'
  | .object brace entries => fun e' =>
    L.node ctx (.expr (.object brace entries)) (.expr e') ∧
      ∃ brace' entries', e' = .object brace' entries' ∧
        L.token brace brace' ∧ entriesAlike ctx entries entries'
  | .assign id name value => fun e' =>
    L.node ctx (.expr (.assign id name value)) (.expr e') ∧
      ∃ id' name' value', e' = .assign id' name' value' ∧
        L.name name name' ∧ value.Alike ctx value'

/-- Rows of expressions that are alike. -/
def exprsAlike (ctx : Surroundings) : List Expr → List Expr → Prop
  | [] => fun es' => es' = []
  | e :: es => fun es' => ∃ d ds, es' = d :: ds ∧ e.Alike ctx d ∧ exprsAlike ctx es ds

/-- Literal values that are alike. -/
def LiteralValue.Alike (ctx : Surroundings) : LiteralValue → LiteralValue → Prop
  | .list elements => fun v' => ∃ elements', v' = .list elements' ∧ exprsAlike ctx elements elements'
  | v => fun v' => v' = v

/-- Rows of properties of object literals that are alike. -/
def entriesAlike (ctx : Surroundings) : List Entry → List Entry → Prop
  | [] => fun es' => es' = []
  | .mk key value :: es => fun es' =>
    ∃ key' value' ds, es' = .mk key' value' :: ds ∧
      L.token key key' ∧ value.Alike ctx value' ∧ entriesAlike ctx es ds

/-- Statements that are alike. -/
def Stmt.Alike (sure : Bool) (ctx : Surroundings) : Stmt → Stmt → Prop
  | .empty => fun s' => L.node ctx (.stmt .empty) (.stmt s') ∧ s' = .empty
  | .block statements => fun s' =>
    L.node ctx (.stmt (.block statements)) (.stmt s') ∧
      ∃ statements', s' = .block statements' ∧
        stmtsAlike true (ctx.enterBlock statements) statements statements'
  | .expression e token => fun s' =>
    L.node ctx (.stmt (.expression e token)) (.stmt s') ∧
      ∃ e' token', s' = .expression e' token' ∧ L.token token token' ∧ e.Alike ctx e'
  | .variable name kind ty init => fun s' =>
    L.node ctx (.stmt (.variable name kind ty init)) (.stmt s') ∧
      ∃ name' ty' init', s' = .variable name' kind ty' init' ∧ L.name name name' ∧
        L.annotation (ty, none) (ty', none) ∧
        optionAlike false (.declare name.lexeme .pending ctx) init init'
  | .indexAssign id name index value => fun s' =>
    L.node ctx (.stmt (.indexAssign id name index value)) (.stmt s') ∧
      ∃ id' name' index' value', s' = .indexAssign id' name' index' value' ∧
        L.name name name' ∧ index.Alike ctx index' ∧ value.Alike ctx value'
  | .functionDecl declaration => fun s' =>
    L.node ctx (.stmt (.functionDecl declaration)) (.stmt s') ∧
      ∃ declaration', s' = .functionDecl declaration' ∧
        declaration.Alike (.introduce declaration.name.lexeme sure ctx) declaration'
  | .cond keyword condition thenBranch elseBranch => fun s' =>
    L.node ctx (.stmt (.cond keyword condition thenBranch elseBranch)) (.stmt s') ∧
      ∃ keyword' condition' thenBranch' elseBranch',
        s' = .cond keyword' condition' thenBranch' elseBranch' ∧
        L.token keyword keyword' ∧ condition.Alike ctx condition' ∧
        thenBranch.Alike false ctx thenBranch' ∧
        optionAlike false (thenBranch.after false ctx) elseBranch elseBranch'
  | .loop condition body token => fun s' =>
    L.node ctx (.stmt (.loop condition body token)) (.stmt s') ∧
      ∃ condition' body' token', s' = .loop condition' body' token' ∧
        L.token token token' ∧ condition.Alike ctx condition' ∧ body.Alike false ctx body'
  | .returns keyword value => fun s' =>
    L.node ctx (.stmt (.returns keyword value)) (.stmt s') ∧
      ∃ keyword' value', s' = .returns keyword' value' ∧
        L.token keyword keyword' ∧ value.Alike false ctx value'
  | .object properties => fun s' =>
    L.node ctx (.stmt (.object properties)) (.stmt s') ∧
      ∃ properties', s' = .object properties' ∧ propertiesAlike false ctx properties properties'
  | .classDecl declaration => fun s' =>
    L.node ctx (.stmt (.classDecl declaration)) (.stmt s') ∧
      ∃ declaration', s' = .classDecl declaration' ∧
        declaration.Alike (.introduce declaration.name.lexeme sure ctx) declaration'

/-- Statements that may be missing and are alike. -/
def optionAlike (sure : Bool) (ctx : Surroundings) : Option Stmt → Option Stmt → Prop
  | none => fun o' => o' = none
  | some s => fun o' => ∃ s', o' = some s' ∧ s.Alike sure ctx s'

/-- Rows of statements that are alike. -/
def stmtsAlike (sure : Bool) (ctx : Surroundings) : List Stmt → List Stmt → Prop
  | [] => fun ss' => ss' = []
  | s :: ss => fun ss' =>
    ∃ t ts, ss' = t :: ts ∧ s.Alike sure ctx t ∧ stmtsAlike sure (s.after sure ctx) ss ts

/-- Rows of properties of object statements that are alike. -/
def propertiesAlike (sure : Bool) (ctx : Surroundings) : List StmtEntry → List StmtEntry → Prop
  | [] => fun ps' => ps' = []
  | .mk key s :: ps => fun ps' =>
    ∃ key' t ts, ps' = .mk key' t :: ts ∧ L.token key key' ∧ s.Alike sure ctx t ∧
      propertiesAlike sure (s.after sure ctx) ps ts

/-- Functions that are alike. -/
def FunctionDecl.Alike (ctx : Surroundings) : FunctionDecl → FunctionDecl → Prop
  | .mk name params body result => fun f' =>
    ∃ name' params' body' result', f' = .mk name' params' body' result' ∧
      L.token name name' ∧ List.Forall₂ (Parameter.Alike L) params params' ∧
      L.annotation (result, none) (result', none) ∧
      L.function (.mk name params body result) (.mk name' params' body' result') ∧
      stmtsAlike true (ctx.enterFunction (.mk name params body result)) body body'

/-- Classes that are alike. -/
def ClassDecl.Alike (ctx : Surroundings) : ClassDecl → ClassDecl → Prop
  | .mk name methods fields => fun c' =>
    ∃ name' methods' fields', c' = .mk name' methods' fields' ∧ L.token name name' ∧
      fieldsAlike (ctx.enterClass (.mk name methods fields)) fields fields' ∧
      methodsAlike (ctx.enterClass (.mk name methods fields)) methods methods'

/-- Rows of fields that are alike. -/
def fieldsAlike (ctx : Surroundings) : List FieldDecl → List FieldDecl → Prop
  | [] => fun fs' => fs' = []
  | .mk name ty init :: fs => fun fs' =>
    ∃ name' ty' init' gs, fs' = .mk name' ty' init' :: gs ∧
      L.token name name' ∧ L.annotation (ty, none) (ty', none) ∧ init.Alike ctx init' ∧
      fieldsAlike ctx fs gs

/-- Rows of methods that are alike. -/
def methodsAlike (ctx : Surroundings) : List FunctionDecl → List FunctionDecl → Prop
  | [] => fun ms' => ms' = []
  | m :: ms => fun ms' => ∃ n ns, ms' = n :: ns ∧ m.Alike ctx n ∧ methodsAlike ctx ms ns

end

end

/-! ### Rows and shapes -/

section

variable {L : TreeLikeness} {ctx : Surroundings}

theorem Expr.Alike.node {e e' : Expr} (h : e.Alike L ctx e') : L.node ctx (.expr e) (.expr e') := by
  cases e <;> exact h.1

theorem Stmt.Alike.node {sure : Bool} {s s' : Stmt} (h : s.Alike L sure ctx s') :
    L.node ctx (.stmt s) (.stmt s') := by
  cases s <;> exact h.1

/-- Of two alike statements both are expression statements or neither is. -/
theorem Stmt.Alike.expression_or {sure : Bool} {s s' : Stmt} (h : s.Alike L sure ctx s') :
    (∃ e t e' t', s = .expression e t ∧ s' = .expression e' t' ∧ e.Alike L ctx e') ∨
      ((∀ e t, s ≠ .expression e t) ∧ ∀ e t, s' ≠ .expression e t) := by
  cases s with
  | expression e t =>
    obtain ⟨_, e', t', rfl, _, he⟩ := h
    exact .inl ⟨e, t, e', t', rfl, rfl, he⟩
  | empty =>
    obtain ⟨_, rfl⟩ := h
    exact .inr ⟨fun _ _ => by simp, fun _ _ => by simp⟩
  | block | functionDecl | object | classDecl =>
    obtain ⟨_, _, rfl, _⟩ := h
    exact .inr ⟨fun _ _ => by simp, fun _ _ => by simp⟩
  | returns =>
    obtain ⟨_, _, _, rfl, _⟩ := h
    exact .inr ⟨fun _ _ => by simp, fun _ _ => by simp⟩
  | «variable» | loop =>
    obtain ⟨_, _, _, _, rfl, _⟩ := h
    exact .inr ⟨fun _ _ => by simp, fun _ _ => by simp⟩
  | indexAssign | cond =>
    obtain ⟨_, _, _, _, _, rfl, _⟩ := h
    exact .inr ⟨fun _ _ => by simp, fun _ _ => by simp⟩

theorem exprsAlike_iff {es es' : List Expr} :
    exprsAlike L ctx es es' ↔ List.Forall₂ (Expr.Alike L ctx) es es' := by
  induction es generalizing es' with
  | nil => simp [exprsAlike]
  | cons e es ih =>
    simp only [exprsAlike, List.forall₂_cons_left_iff, ih]
    tauto

theorem methodsAlike_iff {ms ms' : List FunctionDecl} :
    methodsAlike L ctx ms ms' ↔ List.Forall₂ (FunctionDecl.Alike L ctx) ms ms' := by
  induction ms generalizing ms' with
  | nil => simp [methodsAlike]
  | cons m ms ih =>
    simp only [methodsAlike, List.forall₂_cons_left_iff, ih]
    tauto

theorem FunctionDecl.Alike.name {d d' : FunctionDecl} (h : d.Alike L ctx d') :
    L.token d.name d'.name := by
  obtain ⟨name, params, body, result⟩ := d
  obtain ⟨name', params', body', result', rfl, ht, _⟩ := h
  exact ht

theorem FunctionDecl.Alike.params {d d' : FunctionDecl} (h : d.Alike L ctx d') :
    List.Forall₂ (Parameter.Alike L) d.params d'.params := by
  obtain ⟨name, params, body, result⟩ := d
  obtain ⟨name', params', body', result', rfl, _, hps, _⟩ := h
  exact hps

theorem FunctionDecl.Alike.function {d d' : FunctionDecl} (h : d.Alike L ctx d') :
    L.function d d' := by
  obtain ⟨name, params, body, result⟩ := d
  obtain ⟨name', params', body', result', rfl, _, _, _, hf, _⟩ := h
  exact hf

theorem FunctionDecl.Alike.body {d d' : FunctionDecl} (h : d.Alike L ctx d') :
    stmtsAlike L true (ctx.enterFunction d) d.body d'.body := by
  obtain ⟨name, params, body, result⟩ := d
  obtain ⟨name', params', body', result', rfl, _, _, _, _, hb⟩ := h
  exact hb

theorem FunctionDecl.Alike.arity {d d' : FunctionDecl} (h : d.Alike L ctx d') :
    d'.arity = d.arity :=
  h.params.length_eq.symm

theorem ClassDecl.Alike.name {d d' : ClassDecl} (h : d.Alike L ctx d') :
    L.token d.name d'.name := by
  obtain ⟨name, methods, fields⟩ := d
  obtain ⟨name', methods', fields', rfl, ht, _, _⟩ := h
  exact ht

theorem ClassDecl.Alike.fields {d d' : ClassDecl} (h : d.Alike L ctx d') :
    fieldsAlike L (ctx.enterClass d) d.fields d'.fields := by
  obtain ⟨name, methods, fields⟩ := d
  obtain ⟨name', methods', fields', rfl, _, hfs, _⟩ := h
  exact hfs

end

/-! ### Shapes -/

section

variable {L : TreeLikeness} {ctx : Surroundings}

mutual

/-- Alike expressions have nodes of the same shapes at their places, whatever surrounds them. -/
theorem Expr.Alike.shape {ctx : Surroundings} (k k' : Surroundings) : (e : Expr) → {e' : Expr} →
    e.Alike L ctx e' →
    (e'.places k').map Place.shape = (e.places k).map Place.shape
  | .grouping inner, _, ⟨_, inner', he, hi⟩ => by
    simp only [he, Expr.places, List.map_cons, Expr.Alike.shape k k' inner hi]
    rfl
  | .binary left _ right, _, ⟨_, left', operator', right', he, _, hl, hr⟩ => by
    simp only [he, Expr.places, List.map_cons, List.map_append,
      Expr.Alike.shape k k' left hl, Expr.Alike.shape k k' right hr]
    rfl
  | .unary _ operand, _, ⟨_, operator', operand', he, _, ho⟩ => by
    simp only [he, Expr.places, List.map_cons, Expr.Alike.shape k k' operand ho]
    rfl
  | .literal _ value, _, ⟨_, value', he, hv⟩ => by
    simp only [he, Expr.places, List.map_cons,
      LiteralValue.Alike.shape k k' value hv]
    rfl
  | .name _ _, _, ⟨_, id', token', he, _⟩ => by
    simp only [he, Expr.places, List.map_cons, List.map_nil]
    rfl
  | .this _ _, _, ⟨_, id', keyword', he, _⟩ => by
    simp only [he, Expr.places, List.map_cons, List.map_nil]
    rfl
  | .function _ declaration, _, ⟨_, token', declaration', he, _, hd⟩ => by
    simp only [he, Expr.places, List.map_cons,
      FunctionDecl.Alike.shape k k' declaration hd]
    rfl
  | .call callee _ args, _, ⟨_, callee', paren', args', he, _, hc, ha⟩ => by
    simp only [he, Expr.places, List.map_cons, List.map_append,
      Expr.Alike.shape k k' callee hc, exprsAlike_shape k k' args ha]
    rfl
  | .index _ _ index, _, ⟨_, id', name', index', he, _, hi⟩ => by
    simp only [he, Expr.places, List.map_cons, Expr.Alike.shape k k' index hi]
    rfl
  | .get object _, _, ⟨_, object', name', he, _, ho⟩ => by
    simp only [he, Expr.places, List.map_cons, Expr.Alike.shape k k' object ho]
    rfl
  | .set object _ value, _, ⟨_, object', name', value', he, _, ho, hv⟩ => by
    simp only [he, Expr.places, List.map_cons, List.map_append,
      Expr.Alike.shape k k' object ho, Expr.Alike.shape k k' value hv]
    rfl
  | .object _ entries, _, ⟨_, brace', entries', he, _, hes⟩ => by
    simp only [he, Expr.places, List.map_cons, entriesAlike_shape k k' entries hes]
    rfl
  | .assign _ _ value, _, ⟨_, id', name', value', he, _, hv⟩ => by
    simp only [he, Expr.places, List.map_append, List.map_cons, List.map_nil,
      Expr.Alike.shape k k' value hv]
    rfl
termination_by structural x => x

theorem exprsAlike_shape {ctx : Surroundings} (k k' : Surroundings) : (es : List Expr) →
    {es' : List Expr} → exprsAlike L ctx es es' →
    (exprsPlaces k' es').map Place.shape = (exprsPlaces k es).map Place.shape
  | [], _, he => by rw [he, exprsPlaces, exprsPlaces]
  | e :: es, _, ⟨d, ds, he, hd, hds⟩ => by
    simp only [he, exprsPlaces, List.map_append, Expr.Alike.shape k k' e hd,
      exprsAlike_shape k k' es hds]
termination_by structural x => x

theorem LiteralValue.Alike.shape {ctx : Surroundings} (k k' : Surroundings) :
    (v : LiteralValue) → {v' : LiteralValue} → v.Alike L ctx v' →
    (v'.places k').map Place.shape = (v.places k).map Place.shape
  | .list elements, _, ⟨elements', he, hes⟩ => by
    simp only [he, LiteralValue.places, exprsAlike_shape k k' elements hes]
  | .num _, _, he | .str _, _, he | .bool _, _, he | .null, _, he | .undefined, _, he
  | .emptyObject, _, he => by rw [he, LiteralValue.places, LiteralValue.places] <;> simp
termination_by structural x => x

theorem entriesAlike_shape {ctx : Surroundings} (k k' : Surroundings) : (es : List Entry) →
    {es' : List Entry} → entriesAlike L ctx es es' →
    (entriesPlaces k' es').map Place.shape = (entriesPlaces k es).map Place.shape
  | [], _, he => by rw [he, entriesPlaces, entriesPlaces]
  | .mk _ value :: es, _, ⟨key', value', ds, he, _, hv, hds⟩ => by
    simp only [he, entriesPlaces, List.map_append, Expr.Alike.shape k k' value hv,
      entriesAlike_shape k k' es hds]
termination_by structural x => x

/-- Alike statements have nodes of the same shapes at their places, whatever surrounds them. -/
theorem Stmt.Alike.shape {sure : Bool} {ctx : Surroundings} (u u' : Bool) (k k' : Surroundings) :
    (s : Stmt) → {s' : Stmt} → s.Alike L sure ctx s' →
    (s'.places u' k').map Place.shape = (s.places u k).map Place.shape
  | .empty, _, ⟨_, he⟩ => by
    simp only [he, Stmt.places, List.map_cons, List.map_nil]
    rfl
  | .block statements, _, ⟨_, statements', he, hss⟩ => by
    simp only [he, Stmt.places, List.map_cons, stmtsAlike_shape true true
      (k.enterBlock statements) (k'.enterBlock statements') statements hss]
    rfl
  | .expression e _, _, ⟨_, e', token', he', _, he⟩ => by
    simp only [he', Stmt.places, List.map_cons, Expr.Alike.shape k k' e he]
    rfl
  | .variable name _ _ init, _, ⟨_, name', ty', init', he, _, _, hi⟩ => by
    simp only [he, Stmt.places, List.map_cons, optionAlike_shape false false
      (k.declare name.lexeme .pending) (k'.declare name'.lexeme .pending) init hi]
    rfl
  | .indexAssign _ _ index value, _, ⟨_, id', name', index', value', he, _, hi, hv⟩ => by
    simp only [he, Stmt.places, List.map_cons, List.map_nil, List.map_append,
      Expr.Alike.shape k k' index hi, Expr.Alike.shape k k' value hv]
    rfl
  | .functionDecl declaration, _, ⟨_, declaration', he, hd⟩ => by
    simp only [he, Stmt.places, List.map_cons, FunctionDecl.Alike.shape
      (k.introduce declaration.name.lexeme u) (k'.introduce declaration'.name.lexeme u')
      declaration hd]
    rfl
  | .cond _ condition thenBranch elseBranch, _,
      ⟨_, keyword', condition', thenBranch', elseBranch', he, _, hc, hb, ho⟩ => by
    simp only [he, Stmt.places, List.map_cons, List.map_append,
      Expr.Alike.shape k k' condition hc, Stmt.Alike.shape false false k k' thenBranch hb,
      optionAlike_shape false false (thenBranch.after false k) (thenBranch'.after false k')
        elseBranch ho]
    rfl
  | .loop condition body _, _, ⟨_, condition', body', token', he, _, hc, hb⟩ => by
    simp only [he, Stmt.places, List.map_cons, List.map_append,
      Expr.Alike.shape k k' condition hc, Stmt.Alike.shape false false k k' body hb]
    rfl
  | .returns _ value, _, ⟨_, keyword', value', he, _, hv⟩ => by
    simp only [he, Stmt.places, List.map_cons,
      Stmt.Alike.shape false false k k' value hv]
    rfl
  | .object properties, _, ⟨_, properties', he, hps⟩ => by
    simp only [he, Stmt.places, List.map_cons,
      propertiesAlike_shape false false k k' properties hps]
    rfl
  | .classDecl declaration, _, ⟨_, declaration', he, hd⟩ => by
    simp only [he, Stmt.places, List.map_cons, ClassDecl.Alike.shape
      (k.introduce declaration.name.lexeme u) (k'.introduce declaration'.name.lexeme u')
      declaration hd]
    rfl
termination_by structural x => x

theorem optionAlike_shape {sure : Bool} {ctx : Surroundings} (u u' : Bool)
    (k k' : Surroundings) : (o : Option Stmt) → {o' : Option Stmt} → optionAlike L sure ctx o o' →
    (optionPlaces u' k' o').map Place.shape = (optionPlaces u k o).map Place.shape
  | none, _, he => by rw [he, optionPlaces, optionPlaces]
  | some s, _, ⟨s', he, hs⟩ => by
    simp only [he, optionPlaces, Stmt.Alike.shape u u' k k' s hs]
termination_by structural x => x

theorem stmtsAlike_shape {sure : Bool} {ctx : Surroundings} (u u' : Bool) (k k' : Surroundings) :
    (ss : List Stmt) → {ss' : List Stmt} → stmtsAlike L sure ctx ss ss' →
    (stmtsPlaces u' k' ss').map Place.shape = (stmtsPlaces u k ss).map Place.shape
  | [], _, he => by rw [he, stmtsPlaces, stmtsPlaces]
  | s :: ss, _, ⟨t, ts, he, ht, hts⟩ => by
    simp only [he, stmtsPlaces, List.map_append, Stmt.Alike.shape u u' k k' s ht,
      stmtsAlike_shape u u' (s.after u k) (t.after u' k') ss hts]
termination_by structural x => x

theorem propertiesAlike_shape {sure : Bool} {ctx : Surroundings} (u u' : Bool)
    (k k' : Surroundings) : (ps : List StmtEntry) → {ps' : List StmtEntry} →
    propertiesAlike L sure ctx ps ps' →
    (propertiesPlaces u' k' ps').map Place.shape =
      (propertiesPlaces u k ps).map Place.shape
  | [], _, he => by rw [he, propertiesPlaces, propertiesPlaces]
  | .mk _ s :: ps, _, ⟨key', t, ts, he, _, ht, hts⟩ => by
    simp only [he, propertiesPlaces, List.map_append, Stmt.Alike.shape u u' k k' s ht,
      propertiesAlike_shape u u' (s.after u k) (t.after u' k') ps hts]
termination_by structural x => x

theorem FunctionDecl.Alike.shape {ctx : Surroundings} (k k' : Surroundings) :
    (f : FunctionDecl) → {f' : FunctionDecl} → f.Alike L ctx f' →
    (f'.places k').map Place.shape = (f.places k).map Place.shape
  | .mk name params body result, _, ⟨name', params', body', result', he, _, _, _, _, hb⟩ => by
    simp only [he, FunctionDecl.places, stmtsAlike_shape true true
      (k.enterFunction (.mk name params body result))
      (k'.enterFunction (.mk name' params' body' result')) body hb]
termination_by structural x => x

theorem ClassDecl.Alike.shape {ctx : Surroundings} (k k' : Surroundings) :
    (c : ClassDecl) → {c' : ClassDecl} → c.Alike L ctx c' →
    (c'.places k').map Place.shape = (c.places k).map Place.shape
  | .mk name methods fields, _, ⟨name', methods', fields', he, _, hfs, hms⟩ => by
    simp only [he, ClassDecl.places, List.map_append,
      fieldsAlike_shape (k.enterClass (.mk name methods fields))
        (k'.enterClass (.mk name' methods' fields')) fields hfs,
      methodsAlike_shape (k.enterClass (.mk name methods fields))
        (k'.enterClass (.mk name' methods' fields')) methods hms]
termination_by structural x => x

theorem fieldsAlike_shape {ctx : Surroundings} (k k' : Surroundings) : (fs : List FieldDecl) →
    {fs' : List FieldDecl} → fieldsAlike L ctx fs fs' →
    (fieldsPlaces k' fs').map Place.shape = (fieldsPlaces k fs).map Place.shape
  | [], _, he => by rw [he, fieldsPlaces, fieldsPlaces]
  | .mk _ _ init :: fs, _, ⟨name', ty', init', gs, he, _, _, hi, hgs⟩ => by
    simp only [he, fieldsPlaces, List.map_append, Expr.Alike.shape k k' init hi,
      fieldsAlike_shape k k' fs hgs]
termination_by structural x => x

theorem methodsAlike_shape {ctx : Surroundings} (k k' : Surroundings) :
    (ms : List FunctionDecl) → {ms' : List FunctionDecl} → methodsAlike L ctx ms ms' →
    (methodsPlaces k' ms').map Place.shape = (methodsPlaces k ms).map Place.shape
  | [], _, he => by rw [he, methodsPlaces, methodsPlaces]
  | m :: ms, _, ⟨n, ns, he, hn, hns⟩ => by
    simp only [he, methodsPlaces, List.map_append, FunctionDecl.Alike.shape k k' m hn,
      methodsAlike_shape k k' ms hns]
termination_by structural x => x

end

end

/-! ### Sharpening -/

/-- Every function is that of some node. -/
theorem FunctionDecl.exists_site (f : FunctionDecl) : ∃ p : Place, True ∧ f ∈ p.node.functions :=
  ⟨⟨[], .expr (.function f.name f)⟩, trivial, List.mem_singleton_self f⟩

/-- The token declares a name, in a statement or as a parameter. -/
structure TreeLikeness.Declares (L : TreeLikeness) (t : Token) : Prop where
  token : ∃ t', L.name t t' ∨ L.token t t'
  site : (∃ ctx n n', L.node ctx n n' ∧ n.declares? = some t) ∨
    ∃ d d', L.function d d' ∧ ∃ p ∈ d.params, p.left = t

/-- A region as it is entered, in a tree that is alike to another one. -/
inductive TreeLikeness.Opens (L : TreeLikeness) : Surrounding → Prop
  | block {ctx : Surroundings} {ss ss' : List Stmt} : stmtsAlike L true ctx ss ss' →
      Opens L ⟨.block ss, []⟩
  | function {ctx : Surroundings} {f f' : FunctionDecl} : f.Alike L ctx f' →
      Opens L ⟨.function f, []⟩
  | receiver (c : ClassDecl) : Opens L ⟨.receiver c, [("this", .settled)]⟩

theorem TreeLikeness.Opens.fresh {L : TreeLikeness} {s : Surrounding} (h : L.Opens s) :
    s.Fresh := by
  cases h with
  | block _ => exact .block _
  | function _ => exact .function _
  | receiver c => exact .receiver c

/-- How likeness by `L` is sharpened to likeness by `L'`.  The places of the tree are known to
satisfy `P`, and `P'` when the tree is put into other surroundings, which `K` relates to the given
ones. -/
structure Sharpens (L L' : TreeLikeness) (K : Surroundings → Surroundings → Prop)
    (P P' : Place → Prop) : Prop where
  token : ∀ {t t'}, L.token t t' → L'.token t t'
  name : ∀ {t t'}, L.name t t' → L'.name t t'
  annotation : ∀ {a a'}, L.annotation a a' → L'.annotation a a'
  function : ∀ {f f'}, (∃ p, P p ∧ f ∈ p.node.functions) → (∃ ctx, f.Alike L ctx f') →
    L'.function f f'
  node : ∀ {ctx ctx' n n'}, K ctx ctx' → P ⟨ctx, n⟩ → P' ⟨ctx', n⟩ → L.node ctx n n' →
    L'.node ctx n n'
  push : ∀ {ctx ctx'} {s : Surrounding}, L.Opens s → K ctx ctx' → K (s :: ctx) (s :: ctx')
  declare : ∀ {ctx ctx'} {t : Token} (standing : Standing), L.Declares t → K ctx ctx' →
    K (.declare t.lexeme standing ctx) (.declare t.lexeme standing ctx')
  spelled : L'.spelled → L.spelled := by exact id

namespace Sharpens

variable {L L' : TreeLikeness} {K : Surroundings → Surroundings → Prop} {P P' : Place → Prop}
variable {ctx ctx' : Surroundings}

theorem introduce (h : Sharpens L L' K P P') {t : Token} (ht : L.Declares t) (sure : Bool)
    (hK : K ctx ctx') : K (.introduce t.lexeme sure ctx) (.introduce t.lexeme sure ctx') :=
  h.declare _ ht (h.declare _ ht hK)

theorem introduceParams (h : Sharpens L L' K P P') {ps : List Parameter}
    (hps : ∀ p ∈ ps, L.Declares p.left) (hK : K ctx ctx') :
    K (.introduceParams ps ctx) (.introduceParams ps ctx') := by
  induction ps generalizing ctx ctx' with
  | nil => exact hK
  | cons p ps ih =>
    obtain ⟨hp, hps⟩ := List.forall_mem_cons.1 hps
    exact ih hps (h.introduce hp true hK)

theorem enterFunction (h : Sharpens L L' K P P') {k : Surroundings} {f f' : FunctionDecl}
    (hf : f.Alike L k f') (hK : K ctx ctx') : K (ctx.enterFunction f) (ctx'.enterFunction f) := by
  refine h.introduceParams (fun p hp => ?_) (h.push (.function hf) hK)
  obtain ⟨t', ht⟩ := Parameter.Alike.names hf.params p hp
  exact ⟨⟨t', .inl ht⟩, .inr ⟨f, f', hf.function, p, hp, rfl⟩⟩

theorem params (h : Sharpens L L' K P P') {ps ps' : List Parameter}
    (hps : List.Forall₂ (Parameter.Alike L) ps ps') :
    List.Forall₂ (Parameter.Alike L') ps ps' :=
  hps.imp fun _ _ hp => ⟨fun hs => hp.spelled (h.spelled hs), fun hs => hp.spelled' (h.spelled hs),
    h.name hp.left, h.annotation hp.annotation⟩

mutual

theorem after (h : Sharpens L L' K P P') {ctx ctx' : Surroundings} (sure : Bool)
    (hK : K ctx ctx') : (s : Stmt) → {s' : Stmt} → s.Alike L sure ctx s' →
      K (s.after sure ctx) (s.after sure ctx')
  | .variable name _ _ init, _, ⟨hn, name', _, init', heq, ht, _, hi⟩ => by
    have hname : L.Declares name := ⟨⟨name', .inl ht⟩, .inl ⟨_, _, _, hn, rfl⟩⟩
    simp only [Stmt.after]
    exact h.declare _ hname (optionAfter h false (h.declare _ hname hK) init hi)
  | .functionDecl declaration, _, ⟨hn, _, _, hd⟩ => by
    simp only [Stmt.after]
    exact h.introduce ⟨⟨_, .inr hd.name⟩, .inl ⟨_, _, _, hn, rfl⟩⟩ _ hK
  | .classDecl declaration, _, ⟨hn, _, _, hd⟩ => by
    simp only [Stmt.after]
    exact h.introduce ⟨⟨_, .inr hd.name⟩, .inl ⟨_, _, _, hn, rfl⟩⟩ _ hK
  | .cond _ _ thenBranch elseBranch, _, ⟨_, _, _, _, _, _, _, _, hb, he⟩ => by
    simp only [Stmt.after]
    exact optionAfter h false (after h false hK thenBranch hb) elseBranch he
  | .loop _ body _, _, ⟨_, _, _, _, _, _, _, hb⟩ => by
    simp only [Stmt.after]
    exact after h false hK body hb
  | .returns _ value, _, ⟨_, _, _, _, _, hv⟩ => by
    simp only [Stmt.after]
    exact after h false hK value hv
  | .object properties, _, ⟨_, _, _, hps⟩ => by
    simp only [Stmt.after]
    exact propertiesAfter h false hK properties hps
  | .empty, _, _ => by simpa only [Stmt.after] using hK
  | .block _, _, _ => by simpa only [Stmt.after] using hK
  | .expression _ _, _, _ => by simpa only [Stmt.after] using hK
  | .indexAssign _ _ _ _, _, _ => by simpa only [Stmt.after] using hK
termination_by structural x => x

theorem optionAfter (h : Sharpens L L' K P P') {ctx ctx' : Surroundings} (sure : Bool)
    (hK : K ctx ctx') : (o : Option Stmt) → {o' : Option Stmt} → optionAlike L sure ctx o o' →
      K (ScopedScript.optionAfter sure ctx o) (ScopedScript.optionAfter sure ctx' o)
  | none, _, _ => by simpa only [ScopedScript.optionAfter] using hK
  | some s, _, ⟨_, _, hs⟩ => by
    simp only [ScopedScript.optionAfter]
    exact after h sure hK s hs
termination_by structural x => x

theorem propertiesAfter (h : Sharpens L L' K P P') {ctx ctx' : Surroundings} (sure : Bool)
    (hK : K ctx ctx') : (ps : List StmtEntry) → {ps' : List StmtEntry} →
      propertiesAlike L sure ctx ps ps' →
      K (ScopedScript.propertiesAfter sure ctx ps) (ScopedScript.propertiesAfter sure ctx' ps)
  | [], _, _ => by simpa only [ScopedScript.propertiesAfter] using hK
  | .mk _ s :: ps, _, ⟨_, _, _, _, _, hs, hps⟩ => by
    simp only [ScopedScript.propertiesAfter]
    exact propertiesAfter h sure (after h sure hK s hs) ps hps
termination_by structural x => x

end

end Sharpens

section

variable {L L' : TreeLikeness} {K : Surroundings → Surroundings → Prop} {P P' : Place → Prop}

mutual

theorem Expr.Alike.refine (h : Sharpens L L' K P P') {ctx ctx' : Surroundings} (hK : K ctx ctx') :
    (e : Expr) → {e' : Expr} → e.Alike L ctx e' → (∀ p ∈ e.places ctx, P p) →
      (∀ p ∈ e.places ctx', P' p) → e.Alike L' ctx e'
  | .grouping inner, _, he, hP, hP' => by
    simp only [Expr.places, List.forall_mem_cons] at hP hP'
    obtain ⟨hn, inner', rfl, hi⟩ := he
    exact ⟨h.node hK hP.1 hP'.1 hn, inner', rfl, Expr.Alike.refine h hK inner hi hP.2 hP'.2⟩
  | .binary left operator right, _, he, hP, hP' => by
    simp only [Expr.places, List.forall_mem_cons, List.forall_mem_append] at hP hP'
    obtain ⟨hn, left', operator', right', rfl, ht, hl, hr⟩ := he
    exact ⟨h.node hK hP.1 hP'.1 hn, left', operator', right', rfl, h.token ht,
      Expr.Alike.refine h hK left hl hP.2.1 hP'.2.1, Expr.Alike.refine h hK right hr hP.2.2 hP'.2.2⟩
  | .unary operator operand, _, he, hP, hP' => by
    simp only [Expr.places, List.forall_mem_cons] at hP hP'
    obtain ⟨hn, operator', operand', rfl, ht, ho⟩ := he
    exact ⟨h.node hK hP.1 hP'.1 hn, operator', operand', rfl, h.token ht,
      Expr.Alike.refine h hK operand ho hP.2 hP'.2⟩
  | .literal kind value, _, he, hP, hP' => by
    simp only [Expr.places, List.forall_mem_cons] at hP hP'
    obtain ⟨hn, value', rfl, hv⟩ := he
    exact ⟨h.node hK hP.1 hP'.1 hn, value', rfl,
      LiteralValue.Alike.refine h hK value hv hP.2 hP'.2⟩
  | .name id token, _, he, hP, hP' => by
    simp only [Expr.places, List.forall_mem_cons] at hP hP'
    obtain ⟨hn, id', token', rfl, ht⟩ := he
    exact ⟨h.node hK hP.1 hP'.1 hn, id', token', rfl, h.name ht⟩
  | .this id keyword, _, he, hP, hP' => by
    simp only [Expr.places, List.forall_mem_cons] at hP hP'
    obtain ⟨hn, id', keyword', rfl, ht⟩ := he
    exact ⟨h.node hK hP.1 hP'.1 hn, id', keyword', rfl, h.name ht⟩
  | .function token declaration, _, he, hP, hP' => by
    simp only [Expr.places, List.forall_mem_cons] at hP hP'
    obtain ⟨hn, token', declaration', rfl, ht, hd⟩ := he
    exact ⟨h.node hK hP.1 hP'.1 hn, token', declaration', rfl, h.token ht,
      FunctionDecl.Alike.refine h hK declaration hd ⟨_, hP.1, List.mem_singleton_self _⟩ hP.2
        hP'.2⟩
  | .call callee paren args, _, he, hP, hP' => by
    simp only [Expr.places, List.forall_mem_cons, List.forall_mem_append] at hP hP'
    obtain ⟨hn, callee', paren', args', rfl, ht, hc, ha⟩ := he
    exact ⟨h.node hK hP.1 hP'.1 hn, callee', paren', args', rfl, h.token ht,
      Expr.Alike.refine h hK callee hc hP.2.1 hP'.2.1, exprsAlike_refine h hK args ha hP.2.2 hP'.2.2⟩
  | .index id name index, _, he, hP, hP' => by
    simp only [Expr.places, List.forall_mem_cons] at hP hP'
    obtain ⟨hn, id', name', index', rfl, ht, hi⟩ := he
    exact ⟨h.node hK hP.1 hP'.1 hn, id', name', index', rfl, h.name ht,
      Expr.Alike.refine h hK index hi hP.2 hP'.2⟩
  | .get object name, _, he, hP, hP' => by
    simp only [Expr.places, List.forall_mem_cons] at hP hP'
    obtain ⟨hn, object', name', rfl, ht, ho⟩ := he
    exact ⟨h.node hK hP.1 hP'.1 hn, object', name', rfl, h.token ht,
      Expr.Alike.refine h hK object ho hP.2 hP'.2⟩
  | .set object name value, _, he, hP, hP' => by
    simp only [Expr.places, List.forall_mem_cons, List.forall_mem_append] at hP hP'
    obtain ⟨hn, object', name', value', rfl, ht, ho, hv⟩ := he
    exact ⟨h.node hK hP.1 hP'.1 hn, object', name', value', rfl, h.token ht,
      Expr.Alike.refine h hK object ho hP.2.2 hP'.2.2, Expr.Alike.refine h hK value hv hP.2.1 hP'.2.1⟩
  | .object brace entries, _, he, hP, hP' => by
    simp only [Expr.places, List.forall_mem_cons] at hP hP'
    obtain ⟨hn, brace', entries', rfl, ht, hes⟩ := he
    exact ⟨h.node hK hP.1 hP'.1 hn, brace', entries', rfl, h.token ht,
      entriesAlike_refine h hK entries hes hP.2 hP'.2⟩
  | .assign id name value, _, he, hP, hP' => by
    simp only [Expr.places, List.forall_mem_append, List.forall_mem_singleton] at hP hP'
    obtain ⟨hn, id', name', value', rfl, ht, hv⟩ := he
    exact ⟨h.node hK hP.2 hP'.2 hn, id', name', value', rfl, h.name ht,
      Expr.Alike.refine h hK value hv hP.1 hP'.1⟩
termination_by structural x => x

theorem exprsAlike_refine (h : Sharpens L L' K P P') {ctx ctx' : Surroundings} (hK : K ctx ctx') :
    (es : List Expr) → {es' : List Expr} → exprsAlike L ctx es es' →
      (∀ p ∈ exprsPlaces ctx es, P p) → (∀ p ∈ exprsPlaces ctx' es, P' p) →
      exprsAlike L' ctx es es'
  | [], _, hes, _, _ => hes
  | e :: es, _, hes, hP, hP' => by
    simp only [exprsPlaces, List.forall_mem_append] at hP hP'
    obtain ⟨d, ds, rfl, hd, hds⟩ := hes
    exact ⟨d, ds, rfl, Expr.Alike.refine h hK e hd hP.1 hP'.1,
      exprsAlike_refine h hK es hds hP.2 hP'.2⟩
termination_by structural x => x

theorem LiteralValue.Alike.refine (h : Sharpens L L' K P P') {ctx ctx' : Surroundings}
    (hK : K ctx ctx') : (v : LiteralValue) → {v' : LiteralValue} → v.Alike L ctx v' →
      (∀ p ∈ v.places ctx, P p) → (∀ p ∈ v.places ctx', P' p) → v.Alike L' ctx v'
  | .list elements, _, hv, hP, hP' => by
    simp only [LiteralValue.places] at hP hP'
    obtain ⟨elements', rfl, hes⟩ := hv
    exact ⟨elements', rfl, exprsAlike_refine h hK elements hes hP hP'⟩
  | .num _, _, hv, _, _ => hv
  | .str _, _, hv, _, _ => hv
  | .bool _, _, hv, _, _ => hv
  | .null, _, hv, _, _ => hv
  | .undefined, _, hv, _, _ => hv
  | .emptyObject, _, hv, _, _ => hv
termination_by structural x => x

theorem entriesAlike_refine (h : Sharpens L L' K P P') {ctx ctx' : Surroundings}
    (hK : K ctx ctx') : (es : List Entry) → {es' : List Entry} → entriesAlike L ctx es es' →
      (∀ p ∈ entriesPlaces ctx es, P p) → (∀ p ∈ entriesPlaces ctx' es, P' p) →
      entriesAlike L' ctx es es'
  | [], _, hes, _, _ => hes
  | .mk key value :: es, _, hes, hP, hP' => by
    simp only [entriesPlaces, List.forall_mem_append] at hP hP'
    obtain ⟨key', value', ds, rfl, ht, hv, hds⟩ := hes
    exact ⟨key', value', ds, rfl, h.token ht, Expr.Alike.refine h hK value hv hP.1 hP'.1,
      entriesAlike_refine h hK es hds hP.2 hP'.2⟩
termination_by structural x => x

theorem Stmt.Alike.refine (h : Sharpens L L' K P P') {sure : Bool} {ctx ctx' : Surroundings}
    (hK : K ctx ctx') : (s : Stmt) → {s' : Stmt} → s.Alike L sure ctx s' →
      (∀ p ∈ s.places sure ctx, P p) → (∀ p ∈ s.places sure ctx', P' p) → s.Alike L' sure ctx s'
  | .empty, _, hs, hP, hP' => by
    simp only [Stmt.places, List.forall_mem_cons] at hP hP'
    exact ⟨h.node hK hP.1 hP'.1 hs.1, hs.2⟩
  | .block statements, _, hs, hP, hP' => by
    simp only [Stmt.places, List.forall_mem_cons] at hP hP'
    obtain ⟨hn, statements', rfl, hss⟩ := hs
    exact ⟨h.node hK hP.1 hP'.1 hn, statements', rfl,
      stmtsAlike_refine h (h.push (.block hss) hK) statements hss hP.2 hP'.2⟩
  | .expression e token, _, hs, hP, hP' => by
    simp only [Stmt.places, List.forall_mem_cons] at hP hP'
    obtain ⟨hn, e', token', rfl, ht, he⟩ := hs
    exact ⟨h.node hK hP.1 hP'.1 hn, e', token', rfl, h.token ht,
      Expr.Alike.refine h hK e he hP.2 hP'.2⟩
  | .variable name kind ty init, _, hs, hP, hP' => by
    simp only [Stmt.places, List.forall_mem_cons] at hP hP'
    obtain ⟨hn, name', ty', init', rfl, ht, hty, hi⟩ := hs
    have hname : L.Declares name := ⟨⟨name', .inl ht⟩, .inl ⟨_, _, _, hn, rfl⟩⟩
    exact ⟨h.node hK hP.1 hP'.1 hn, name', ty', init', rfl, h.name ht, h.annotation hty,
      optionAlike_refine h (h.declare _ hname hK) init hi hP.2 hP'.2⟩
  | .indexAssign id name index value, _, hs, hP, hP' => by
    simp only [Stmt.places, List.forall_mem_append, List.forall_mem_singleton] at hP hP'
    obtain ⟨hn, id', name', index', value', rfl, ht, hi, hv⟩ := hs
    exact ⟨h.node hK hP.2 hP'.2 hn, id', name', index', value', rfl, h.name ht,
      Expr.Alike.refine h hK index hi hP.1.1 hP'.1.1, Expr.Alike.refine h hK value hv hP.1.2 hP'.1.2⟩
  | .functionDecl declaration, _, hs, hP, hP' => by
    simp only [Stmt.places, List.forall_mem_cons] at hP hP'
    obtain ⟨hn, declaration', rfl, hd⟩ := hs
    have hname : L.Declares declaration.name := ⟨⟨_, .inr hd.name⟩, .inl ⟨_, _, _, hn, rfl⟩⟩
    exact ⟨h.node hK hP.1 hP'.1 hn, declaration', rfl,
      FunctionDecl.Alike.refine h (h.introduce hname _ hK) declaration hd
        ⟨_, hP.1, List.mem_singleton_self _⟩ hP.2 hP'.2⟩
  | .cond keyword condition thenBranch elseBranch, _, hs, hP, hP' => by
    simp only [Stmt.places, List.forall_mem_cons, List.forall_mem_append] at hP hP'
    obtain ⟨hn, keyword', condition', thenBranch', elseBranch', rfl, ht, hc, hb, he⟩ := hs
    exact ⟨h.node hK hP.1 hP'.1 hn, keyword', condition', thenBranch', elseBranch', rfl, h.token ht,
      Expr.Alike.refine h hK condition hc hP.2.1.1 hP'.2.1.1,
      Stmt.Alike.refine h hK thenBranch hb hP.2.1.2 hP'.2.1.2,
      optionAlike_refine h (h.after false hK thenBranch hb) elseBranch he hP.2.2 hP'.2.2⟩
  | .loop condition body token, _, hs, hP, hP' => by
    simp only [Stmt.places, List.forall_mem_cons, List.forall_mem_append] at hP hP'
    obtain ⟨hn, condition', body', token', rfl, ht, hc, hb⟩ := hs
    exact ⟨h.node hK hP.1 hP'.1 hn, condition', body', token', rfl, h.token ht,
      Expr.Alike.refine h hK condition hc hP.2.1 hP'.2.1,
      Stmt.Alike.refine h hK body hb hP.2.2 hP'.2.2⟩
  | .returns keyword value, _, hs, hP, hP' => by
    simp only [Stmt.places, List.forall_mem_cons] at hP hP'
    obtain ⟨hn, keyword', value', rfl, ht, hv⟩ := hs
    exact ⟨h.node hK hP.1 hP'.1 hn, keyword', value', rfl, h.token ht,
      Stmt.Alike.refine h hK value hv hP.2 hP'.2⟩
  | .object properties, _, hs, hP, hP' => by
    simp only [Stmt.places, List.forall_mem_cons] at hP hP'
    obtain ⟨hn, properties', rfl, hps⟩ := hs
    exact ⟨h.node hK hP.1 hP'.1 hn, properties', rfl,
      propertiesAlike_refine h hK properties hps hP.2 hP'.2⟩
  | .classDecl declaration, _, hs, hP, hP' => by
    simp only [Stmt.places, List.forall_mem_cons] at hP hP'
    obtain ⟨hn, declaration', rfl, hd⟩ := hs
    have hname : L.Declares declaration.name := ⟨⟨_, .inr hd.name⟩, .inl ⟨_, _, _, hn, rfl⟩⟩
    exact ⟨h.node hK hP.1 hP'.1 hn, declaration', rfl,
      ClassDecl.Alike.refine h (h.introduce hname _ hK) declaration hd
        (fun m hm => ⟨_, hP.1, hm⟩) hP.2 hP'.2⟩
termination_by structural x => x

theorem optionAlike_refine (h : Sharpens L L' K P P') {sure : Bool} {ctx ctx' : Surroundings}
    (hK : K ctx ctx') : (o : Option Stmt) → {o' : Option Stmt} → optionAlike L sure ctx o o' →
      (∀ p ∈ optionPlaces sure ctx o, P p) → (∀ p ∈ optionPlaces sure ctx' o, P' p) →
      optionAlike L' sure ctx o o'
  | none, _, ho, _, _ => ho
  | some s, _, ho, hP, hP' => by
    simp only [optionPlaces] at hP hP'
    obtain ⟨s', rfl, hs⟩ := ho
    exact ⟨s', rfl, Stmt.Alike.refine h hK s hs hP hP'⟩
termination_by structural x => x

theorem stmtsAlike_refine (h : Sharpens L L' K P P') {sure : Bool} {ctx ctx' : Surroundings}
    (hK : K ctx ctx') : (ss : List Stmt) → {ss' : List Stmt} → stmtsAlike L sure ctx ss ss' →
      (∀ p ∈ stmtsPlaces sure ctx ss, P p) → (∀ p ∈ stmtsPlaces sure ctx' ss, P' p) →
      stmtsAlike L' sure ctx ss ss'
  | [], _, hss, _, _ => hss
  | s :: ss, _, hss, hP, hP' => by
    simp only [stmtsPlaces, List.forall_mem_append] at hP hP'
    obtain ⟨t, ts, rfl, ht, hts⟩ := hss
    exact ⟨t, ts, rfl, Stmt.Alike.refine h hK s ht hP.1 hP'.1,
      stmtsAlike_refine h (h.after sure hK s ht) ss hts hP.2 hP'.2⟩
termination_by structural x => x

theorem propertiesAlike_refine (h : Sharpens L L' K P P') {sure : Bool} {ctx ctx' : Surroundings}
    (hK : K ctx ctx') : (ps : List StmtEntry) → {ps' : List StmtEntry} →
      propertiesAlike L sure ctx ps ps' → (∀ p ∈ propertiesPlaces sure ctx ps, P p) →
      (∀ p ∈ propertiesPlaces sure ctx' ps, P' p) → propertiesAlike L' sure ctx ps ps'
  | [], _, hps, _, _ => hps
  | .mk key s :: ps, _, hps, hP, hP' => by
    simp only [propertiesPlaces, List.forall_mem_append] at hP hP'
    obtain ⟨key', t, ts, rfl, hkey, ht, hts⟩ := hps
    exact ⟨key', t, ts, rfl, h.token hkey, Stmt.Alike.refine h hK s ht hP.1 hP'.1,
      propertiesAlike_refine h (h.after sure hK s ht) ps hts hP.2 hP'.2⟩
termination_by structural x => x

theorem FunctionDecl.Alike.refine (h : Sharpens L L' K P P') {ctx ctx' : Surroundings}
    (hK : K ctx ctx') : (f : FunctionDecl) → {f' : FunctionDecl} → f.Alike L ctx f' →
      (∃ p, P p ∧ f ∈ p.node.functions) → (∀ p ∈ f.places ctx, P p) →
      (∀ p ∈ f.places ctx', P' p) → f.Alike L' ctx f'
  | .mk name params body result, _, hf, hsite, hP, hP' => by
    simp only [FunctionDecl.places] at hP hP'
    have hfunction := h.function hsite ⟨ctx, hf⟩
    have hin := h.enterFunction hf hK
    obtain ⟨name', params', body', result', rfl, ht, hps, hty, _, hb⟩ := hf
    exact ⟨name', params', body', result', rfl, h.token ht, h.params hps, h.annotation hty,
      hfunction, stmtsAlike_refine h hin body hb hP hP'⟩
termination_by structural x => x

theorem ClassDecl.Alike.refine (h : Sharpens L L' K P P') {ctx ctx' : Surroundings}
    (hK : K ctx ctx') : (c : ClassDecl) → {c' : ClassDecl} → c.Alike L ctx c' →
      (∀ m ∈ c.methods, ∃ p, P p ∧ m ∈ p.node.functions) → (∀ p ∈ c.places ctx, P p) →
      (∀ p ∈ c.places ctx', P' p) → c.Alike L' ctx c'
  | .mk name methods fields, _, hc, hsites, hP, hP' => by
    simp only [ClassDecl.places, List.forall_mem_append] at hP hP'
    obtain ⟨name', methods', fields', rfl, ht, hfs, hms⟩ := hc
    exact ⟨name', methods', fields', rfl, h.token ht,
      fieldsAlike_refine h (h.push (.receiver _) hK) fields hfs hP.1 hP'.1,
      methodsAlike_refine h (h.push (.receiver _) hK) methods hms hsites hP.2 hP'.2⟩
termination_by structural x => x

theorem fieldsAlike_refine (h : Sharpens L L' K P P') {ctx ctx' : Surroundings}
    (hK : K ctx ctx') : (fs : List FieldDecl) → {fs' : List FieldDecl} →
      fieldsAlike L ctx fs fs' → (∀ p ∈ fieldsPlaces ctx fs, P p) →
      (∀ p ∈ fieldsPlaces ctx' fs, P' p) → fieldsAlike L' ctx fs fs'
  | [], _, hfs, _, _ => hfs
  | .mk name ty init :: fs, _, hfs, hP, hP' => by
    simp only [fieldsPlaces, List.forall_mem_append] at hP hP'
    obtain ⟨name', ty', init', gs, rfl, ht, hty, hi, hgs⟩ := hfs
    exact ⟨name', ty', init', gs, rfl, h.token ht, h.annotation hty,
      Expr.Alike.refine h hK init hi hP.1 hP'.1, fieldsAlike_refine h hK fs hgs hP.2 hP'.2⟩
termination_by structural x => x

theorem methodsAlike_refine (h : Sharpens L L' K P P') {ctx ctx' : Surroundings}
    (hK : K ctx ctx') : (ms : List FunctionDecl) → {ms' : List FunctionDecl} →
      methodsAlike L ctx ms ms' → (∀ m ∈ ms, ∃ p, P p ∧ m ∈ p.node.functions) →
      (∀ p ∈ methodsPlaces ctx ms, P p) → (∀ p ∈ methodsPlaces ctx' ms, P' p) →
      methodsAlike L' ctx ms ms'
  | [], _, hms, _, _, _ => hms
  | m :: ms, _, hms, hsites, hP, hP' => by
    simp only [methodsPlaces, List.forall_mem_append] at hP hP'
    obtain ⟨hsite, hsites⟩ := List.forall_mem_cons.1 hsites
    obtain ⟨n, ns, rfl, hn, hns⟩ := hms
    exact ⟨n, ns, rfl, FunctionDecl.Alike.refine h hK m hn hsite hP.1 hP'.1,
      methodsAlike_refine h hK ms hns hsites hP.2 hP'.2⟩
termination_by structural x => x

end

end

end ScopedScript
