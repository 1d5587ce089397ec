import ScopedScript.Proofs.Scope.SideBySide
import ScopedScript.Proofs.Sessions.Histories

/-! # Annotations have no effect

Annotations are kept in the trees and never looked at.  *Erasing* drops them: from variables,
parameters, fields and results, in every function, method and class inside, and with the annotation
of a parameter its last token.  Values, heaps and machines are erased in the trees that functions
and classes carry.

A tree corresponds to its erasure by a likeness in which every node goes with its erasure
(`TreeLikeness.erasing`).  So the scope analysis makes the same of both (`resolve_erase`), and a run
of a tree on a machine goes in lockstep with the run of the erased tree on the erased machine.  The
erased tree, which erasing leaves as it is, goes in lockstep with that same run from the machine as
it was; this compares the two (`annotations_inert`). -/

namespace ScopedScript

/-! ### Erasing -/

/-- The parameter without its annotation. -/
def Parameter.erase : Parameter → Parameter
  | .mk name _ left _ => .mk name none left none

mutual

/-- The expression without annotations. -/
def Expr.erase : Expr → Expr
  | .grouping inner => .grouping inner.erase
  | .binary left operator right => .binary left.erase operator right.erase
  | .unary operator operand => .unary operator operand.erase
  | .literal kind value => .literal kind value.erase
  | .name id token => .name id token
  | .this id keyword => .this id keyword
  | .function token declaration => .function token declaration.erase
  | .call callee paren args => .call callee.erase paren (exprsErase args)
  | .index id name index => .index id name index.erase
  | .get object name => .get object.erase name
  | .set object name value => .set object.erase name value.erase
  | .object brace entries => .object brace (entriesErase entries)
  | .assign id name value => .assign id name value.erase

/-- The expressions without annotations. -/
def exprsErase : List Expr → List Expr
  | [] => []
  | e :: es => e.erase :: exprsErase es

/-- The literal value without annotations. -/
def LiteralValue.erase : LiteralValue → LiteralValue
  | .list elements => .list (exprsErase elements)
  | v => v

/-- The properties of an object literal without annotations. -/
def entriesErase : List Entry → List Entry
  | [] => []
  | .mk key value :: entries => .mk key value.erase :: entriesErase entries

/-- The statement without annotations. -/
def Stmt.erase : Stmt → Stmt
  | .empty => .empty
  | .block statements => .block (stmtsErase statements)
  | .expression e token => .expression e.erase token
  | .variable name kind _ init => .variable name kind none (optionErase init)
  | .indexAssign id name index value => .indexAssign id name index.erase value.erase
  | .functionDecl declaration => .functionDecl declaration.erase
  | .cond keyword condition thenBranch elseBranch =>
    .cond keyword condition.erase thenBranch.erase (optionErase elseBranch)
  | .loop condition body token => .loop condition.erase body.erase token
  | .returns keyword value => .returns keyword value.erase
  | .object properties => .object (propertiesErase properties)
  | .classDecl declaration => .classDecl declaration.erase

/-- The statement that may be missing, without annotations. -/
def optionErase : Option Stmt → Option Stmt
  | none => none
  | some s => some s.erase

/-- The statements without annotations. -/
def stmtsErase : List Stmt → List Stmt
  | [] => []
  | s :: ss => s.erase :: stmtsErase ss

/-- The properties of an object statement without annotations. -/
def propertiesErase : List StmtEntry → List StmtEntry
  | [] => []
  | .mk key s :: properties => .mk key s.erase :: propertiesErase properties

/-- The function without annotations, that of its result included. -/
def FunctionDecl.erase : FunctionDecl → FunctionDecl
  | .mk name params body _ => .mk name (params.map Parameter.erase) (stmtsErase body) none

/-- The class without annotations. -/
def ClassDecl.erase : ClassDecl → ClassDecl
  | .mk name methods fields => .mk name (methodsErase methods) (fieldsErase fields)

/-- The fields without annotations. -/
def fieldsErase : List FieldDecl → List FieldDecl
  | [] => []
  | .mk name _ init :: fields => .mk name none init.erase :: fieldsErase fields

/-- The methods without annotations. -/
def methodsErase : List FunctionDecl → List FunctionDecl
  | [] => []
  | m :: ms => m.erase :: methodsErase ms

end

/-- The program without annotations. -/
def Program.erase (p : Program) : Program := stmtsErase p

/-- The node without annotations. -/
def Node.erase : Node → Node
  | .expr e => .expr e.erase
  | .stmt s => .stmt s.erase

/-- Erasing leaves the variable that a node is about. -/
theorem Node.reference?_erase (n : Node) : n.erase.reference? = n.reference? := by
  obtain e | s := n
  · cases e <;> simp only [erase, Expr.erase] <;> rfl
  · cases s <;> simp only [erase, Stmt.erase] <;> rfl

@[simp] theorem Parameter.erase_erase (p : Parameter) : p.erase.erase = p.erase := by
  cases p
  rfl

mutual

/-- There is nothing left to erase. -/
theorem Expr.erase_erase : (e : Expr) → e.erase.erase = e.erase
  | .grouping inner => by simp only [Expr.erase, Expr.erase_erase inner]
  | .binary left _ right => by
    simp only [Expr.erase, Expr.erase_erase left, Expr.erase_erase right]
  | .unary _ operand => by simp only [Expr.erase, Expr.erase_erase operand]
  | .literal _ value => by simp only [Expr.erase, LiteralValue.erase_erase value]
  | .name _ _ | .this _ _ => by simp only [Expr.erase]
  | .function _ declaration => by simp only [Expr.erase, FunctionDecl.erase_erase declaration]
  | .call callee _ args => by
    simp only [Expr.erase, Expr.erase_erase callee, exprsErase_erase args]
  | .index _ _ index => by simp only [Expr.erase, Expr.erase_erase index]
  | .get object _ => by simp only [Expr.erase, Expr.erase_erase object]
  | .set object _ value => by
    simp only [Expr.erase, Expr.erase_erase object, Expr.erase_erase value]
  | .object _ entries => by simp only [Expr.erase, entriesErase_erase entries]
  | .assign _ _ value => by simp only [Expr.erase, Expr.erase_erase value]

theorem exprsErase_erase : (es : List Expr) → exprsErase (exprsErase es) = exprsErase es
  | [] => by simp only [exprsErase]
  | e :: es => by simp only [exprsErase, Expr.erase_erase e, exprsErase_erase es]

theorem LiteralValue.erase_erase : (v : LiteralValue) → v.erase.erase = v.erase
  | .list elements => by simp only [LiteralValue.erase, exprsErase_erase elements]
  | .num _ | .str _ | .bool _ | .null | .undefined | .emptyObject => by
    simp only [LiteralValue.erase]

theorem entriesErase_erase : (es : List Entry) → entriesErase (entriesErase es) = entriesErase es
  | [] => by simp only [entriesErase]
  | .mk _ value :: es => by
    simp only [entriesErase, Expr.erase_erase value, entriesErase_erase es]

theorem Stmt.erase_erase : (s : Stmt) → s.erase.erase = s.erase
  | .empty => by simp only [Stmt.erase]
  | .block statements => by simp only [Stmt.erase, stmtsErase_erase statements]
  | .expression e _ => by simp only [Stmt.erase, Expr.erase_erase e]
  | .variable _ _ _ init => by simp only [Stmt.erase, optionErase_erase init]
  | .indexAssign _ _ index value => by
    simp only [Stmt.erase, Expr.erase_erase index, Expr.erase_erase value]
  | .functionDecl declaration => by simp only [Stmt.erase, FunctionDecl.erase_erase declaration]
  | .cond _ condition thenBranch elseBranch => by
    simp only [Stmt.erase, Expr.erase_erase condition, Stmt.erase_erase thenBranch,
      optionErase_erase elseBranch]
  | .loop condition body _ => by
    simp only [Stmt.erase, Expr.erase_erase condition, Stmt.erase_erase body]
  | .returns _ value => by simp only [Stmt.erase, Stmt.erase_erase value]
  | .object properties => by simp only [Stmt.erase, propertiesErase_erase properties]
  | .classDecl declaration => by simp only [Stmt.erase, ClassDecl.erase_erase declaration]

theorem optionErase_erase : (o : Option Stmt) → optionErase (optionErase o) = optionErase o
  | none => by simp only [optionErase]
  | some s => by simp only [optionErase, Stmt.erase_erase s]

theorem stmtsErase_erase : (ss : List Stmt) → stmtsErase (stmtsErase ss) = stmtsErase ss
  | [] => by simp only [stmtsErase]
  | s :: ss => by simp only [stmtsErase, Stmt.erase_erase s, stmtsErase_erase ss]

theorem propertiesErase_erase : (ps : List StmtEntry) →
    propertiesErase (propertiesErase ps) = propertiesErase ps
  | [] => by simp only [propertiesErase]
  | .mk _ s :: ps => by
    simp only [propertiesErase, Stmt.erase_erase s, propertiesErase_erase ps]

theorem FunctionDecl.erase_erase : (f : FunctionDecl) → f.erase.erase = f.erase
  | .mk _ params body _ => by
    have hparams : (params.map Parameter.erase).map Parameter.erase =
        params.map Parameter.erase := by simp
    simp only [FunctionDecl.erase, stmtsErase_erase body, hparams]

theorem ClassDecl.erase_erase : (c : ClassDecl) → c.erase.erase = c.erase
  | .mk _ methods fields => by
    simp only [ClassDecl.erase, methodsErase_erase methods, fieldsErase_erase fields]

theorem fieldsErase_erase : (fs : List FieldDecl) →
    fieldsErase (fieldsErase fs) = fieldsErase fs
  | [] => by simp only [fieldsErase]
  | .mk _ _ init :: fs => by
    simp only [fieldsErase, Expr.erase_erase init, fieldsErase_erase fs]

theorem methodsErase_erase : (ms : List FunctionDecl) →
    methodsErase (methodsErase ms) = methodsErase ms
  | [] => by simp only [methodsErase]
  | m :: ms => by
    simp only [methodsErase, FunctionDecl.erase_erase m, methodsErase_erase ms]

end

/-! ### A tree and its erasure -/

/-- Nodes and functions go with their erasures. -/
def TreeLikeness.erasing : TreeLikeness where
  token := Eq
  name := Eq
  annotation _ a' := a' = (none, none)
  function d d' := d' = d.erase
  node _ n n' := n' = n.erase
  spelled := False

theorem paramsErase_alike (ps : List Parameter) :
    List.Forall₂ (Parameter.Alike .erasing) ps (ps.map Parameter.erase) := by
  induction ps with
  | nil => exact .nil
  | cons p ps ih =>
    obtain ⟨name, ty, left, right⟩ := p
    exact .cons ⟨False.elim, False.elim, rfl, rfl⟩ ih

mutual

/-- Every tree is alike to its erasure. -/
theorem Expr.erase_alike (ctx : Surroundings) : (e : Expr) → e.Alike .erasing ctx e.erase
  | .grouping inner => ⟨rfl, _, rfl, Expr.erase_alike ctx inner⟩
  | .binary left _ right =>
    ⟨rfl, _, _, _, rfl, rfl, Expr.erase_alike ctx left, Expr.erase_alike ctx right⟩
  | .unary _ operand => ⟨rfl, _, _, rfl, rfl, Expr.erase_alike ctx operand⟩
  | .literal _ value => ⟨rfl, _, rfl, LiteralValue.erase_alike ctx value⟩
  | .name _ _ | .this _ _ => ⟨rfl, _, _, rfl, rfl⟩
  | .function _ declaration => ⟨rfl, _, _, rfl, rfl, FunctionDecl.erase_alike ctx declaration⟩
  | .call callee _ args =>
    ⟨rfl, _, _, _, rfl, rfl, Expr.erase_alike ctx callee, exprsErase_alike ctx args⟩
  | .index _ _ index => ⟨rfl, _, _, _, rfl, rfl, Expr.erase_alike ctx index⟩
  | .get object _ => ⟨rfl, _, _, rfl, rfl, Expr.erase_alike ctx object⟩
  | .set object _ value =>
    ⟨rfl, _, _, _, rfl, rfl, Expr.erase_alike ctx object, Expr.erase_alike ctx value⟩
  | .object _ entries => ⟨rfl, _, _, rfl, rfl, entriesErase_alike ctx entries⟩
  | .assign _ _ value => ⟨rfl, _, _, _, rfl, rfl, Expr.erase_alike ctx value⟩

theorem exprsErase_alike (ctx : Surroundings) :
    (es : List Expr) → exprsAlike .erasing ctx es (exprsErase es)
  | [] => rfl
  | e :: es => ⟨_, _, rfl, Expr.erase_alike ctx e, exprsErase_alike ctx es⟩

theorem LiteralValue.erase_alike (ctx : Surroundings) :
    (v : LiteralValue) → v.Alike .erasing ctx v.erase
  | .list elements => ⟨_, rfl, exprsErase_alike ctx elements⟩
  | .num _ | .str _ | .bool _ | .null | .undefined | .emptyObject => rfl

theorem entriesErase_alike (ctx : Surroundings) :
    (es : List Entry) → entriesAlike .erasing ctx es (entriesErase es)
  | [] => rfl
  | .mk _ value :: es => ⟨_, _, _, rfl, rfl, Expr.erase_alike ctx value, entriesErase_alike ctx es⟩

theorem Stmt.erase_alike (sure : Bool) (ctx : Surroundings) :
    (s : Stmt) → s.Alike .erasing sure ctx s.erase
  | .empty => ⟨rfl, rfl⟩
  | .block statements => ⟨rfl, _, rfl, stmtsErase_alike true _ statements⟩
  | .expression e _ => ⟨rfl, _, _, rfl, rfl, Expr.erase_alike ctx e⟩
  | .variable _ _ _ init => ⟨rfl, _, _, _, rfl, rfl, rfl, optionErase_alike false _ init⟩
  | .indexAssign _ _ index value =>
    ⟨rfl, _, _, _, _, rfl, rfl, Expr.erase_alike ctx index, Expr.erase_alike ctx value⟩
  | .functionDecl declaration => ⟨rfl, _, rfl, FunctionDecl.erase_alike _ declaration⟩
  | .cond _ condition thenBranch elseBranch =>
    ⟨rfl, _, _, _, _, rfl, rfl, Expr.erase_alike ctx condition, Stmt.erase_alike false ctx thenBranch,
      optionErase_alike false _ elseBranch⟩
  | .loop condition body _ =>
    ⟨rfl, _, _, _, rfl, rfl, Expr.erase_alike ctx condition, Stmt.erase_alike false ctx body⟩
  | .returns _ value => ⟨rfl, _, _, rfl, rfl, Stmt.erase_alike false ctx value⟩
  | .object properties => ⟨rfl, _, rfl, propertiesErase_alike false ctx properties⟩
  | .classDecl declaration => ⟨rfl, _, rfl, ClassDecl.erase_alike _ declaration⟩

theorem optionErase_alike (sure : Bool) (ctx : Surroundings) :
    (o : Option Stmt) → optionAlike .erasing sure ctx o (optionErase o)
  | none => rfl
  | some s => ⟨_, rfl, Stmt.erase_alike sure ctx s⟩

theorem stmtsErase_alike (sure : Bool) (ctx : Surroundings) :
    (ss : List Stmt) → stmtsAlike .erasing sure ctx ss (stmtsErase ss)
  | [] => rfl
  | s :: ss => ⟨_, _, rfl, Stmt.erase_alike sure ctx s, stmtsErase_alike sure _ ss⟩

theorem propertiesErase_alike (sure : Bool) (ctx : Surroundings) :
    (ps : List StmtEntry) → propertiesAlike .erasing sure ctx ps (propertiesErase ps)
  | [] => rfl
  | .mk _ s :: ps =>
    ⟨_, _, _, rfl, rfl, Stmt.erase_alike sure ctx s, propertiesErase_alike sure _ ps⟩

theorem FunctionDecl.erase_alike (ctx : Surroundings) :
    (f : FunctionDecl) → f.Alike .erasing ctx f.erase
  | .mk _ params body _ =>
    ⟨_, _, _, _, rfl, rfl, paramsErase_alike params, rfl, rfl, stmtsErase_alike true _ body⟩

theorem ClassDecl.erase_alike (ctx : Surroundings) :
    (c : ClassDecl) → c.Alike .erasing ctx c.erase
  | .mk _ methods fields =>
    ⟨_, _, _, rfl, rfl, fieldsErase_alike _ fields, methodsErase_alike _ methods⟩

theorem fieldsErase_alike (ctx : Surroundings) :
    (fs : List FieldDecl) → fieldsAlike .erasing ctx fs (fieldsErase fs)
  | [] => rfl
  | .mk _ _ init :: fs =>
    ⟨_, _, _, _, rfl, rfl, rfl, Expr.erase_alike ctx init, fieldsErase_alike ctx fs⟩

theorem methodsErase_alike (ctx : Surroundings) :
    (ms : List FunctionDecl) → methodsAlike .erasing ctx ms (methodsErase ms)
  | [] => rfl
  | m :: ms => ⟨_, _, rfl, FunctionDecl.erase_alike ctx m, methodsErase_alike ctx ms⟩

end

/-! ### Scope analysis -/

/-- The walks over a tree and its erasure. -/
def Scope.Walking.erasing : Walking where
  toTreeLikeness := .erasing
  extra := []
  distances := Eq
  exact := True
  named := id
  lexeme h := h ▸ rfl
  whole := Walking.nothing_besides
  found := by
    rintro ctx n _ id id' t t' D _ d d' rfl hr hr' rfl hd
    rw [Node.reference?_erase, hr] at hr'
    obtain ⟨rfl, rfl⟩ := Prod.mk.inj (Option.some.inj hr')
    rw [hd rfl]

/-- The scope analysis makes the same of a program and of its erasure. -/
theorem resolve_erase (D : Distances) (p : Program) : resolve D p.erase = resolve D p := by
  have h := Scope.Walking.resolve_along Scope.Walking.erasing (stmtsErase_alike true .top p)
    (D := D) rfl
  change Scope.Walking.erasing.Analyses (resolve D p) (resolve D p.erase) at h
  generalize resolve D p = r, resolve D p.erase = r' at h
  cases h with
  | ok hD => rw [hD]
  | @failed _ e' E' hfailed =>
    obtain ⟨e, E, rfl, hfault, ht, hE⟩ := hfailed trivial
    obtain rfl : e' = e := by
      obtain ⟨fault, t⟩ := e
      exact congrArg₂ ScopeError.mk hfault (Eq.symm ht)
    rw [hE]

/-! ### Values and machines -/

/-- The function without annotations. -/
def Closure.erase (c : Closure) : Closure := { c with declaration := c.declaration.erase }

/-- The class without annotations. -/
def Class.erase (c : Class) : Class := { c with declaration := c.declaration.erase }

/-- The instance of the class without annotations. -/
def Instance.erase (i : Instance) : Instance := { i with cls := i.cls.erase }

/-- The method without annotations. -/
def Method.erase (b : Method) : Method :=
  { b with declaration := b.declaration.erase, receiver := b.receiver.erase }

mutual

/-- The value without annotations. -/
def Value.erase : Value → Value
  | .function c => .function c.erase
  | .method b => .method b.erase
  | .native n => .native n.erase
  | .cls c => .cls c.erase
  | .instance i => .instance i.erase
  | v => v

/-- The native without annotations in the value that it holds. -/
def Native.erase : Native → Native
  | .mk identity name arity action => .mk identity name arity action.erase

/-- The action without annotations in the value that it holds. -/
def NativeAction.erase : NativeAction → NativeAction
  | .host index held => .host index held.erase
  | action => action

end

/-- The record without annotations in its values. -/
def Record.erase (r : Record Value) : Record Value := r.map fun p => (p.1, p.2.erase)

/-- The heap without annotations in the values that it holds. -/
def Heap.erase (h : Heap) : Heap where
  lists := h.lists.map fun xs => xs.map Value.erase
  records := h.records.map Record.erase

/-- The frame without annotations in its values, and without the part of the program that it was
made for. -/
def Frame.erase (f : Frame) : Frame := ⟨.globals, f.parent, Record.erase f.vars⟩

/-- The machine without annotations. -/
def Machine.erase (m : Machine) : Machine :=
  { m with frames := m.frames.map Frame.erase, heap := m.heap.erase }

/-- The outcome without annotations in the value.  Errors have none. -/
def Outcome.erase : Outcome → Outcome
  | .value v => .value v.erase
  | .failed e => .failed e
  | .unfinished => .unfinished

/-- The session without annotations on its machine. -/
def Session.erase (s : Session) : Session := { s with machine := s.machine.erase }

/-- A run goes with the run of the erased trees. -/
def Likeness.erasing (D : Distances) : Likeness where
  toTreeLikeness := .erasing
  reported := Eq
  tracked := False
  left := D
  right := D
  renamed _ := id
  watched := False
  same h := h ▸ ⟨rfl, rfl⟩
  unnamed := id
  home := by
    rintro ctx n _ id id' t t' fr f rfl hr hr' -
    rw [Node.reference?_erase, hr] at hr'
    obtain ⟨rfl, -⟩ := Prod.mk.inj (Option.some.inj hr')
    rfl
  found _ _ h _ _ _ _ := h ▸ rfl
  declared _ _ _ h _ _ := h ▸ rfl
  params := by
    rintro ⟨name, params, body, result⟩ _ rfl -
    change List.Forall₂ _ params (params.map Parameter.erase)
    rw [List.forall₂_map_right_iff, List.forall₂_same]
    rintro ⟨name, ty, left, right⟩ -
    rfl
  injective _ := Function.injective_id
  globals := id_eq
  receiver _ := id_eq _
  returns _ h := h.elim
  spares _ h := h.elim
  spells := False.elim
  unspelled _ := ⟨id, fun _ _ => rfl⟩

section

variable {D : Distances} {fr : Array Frame}

mutual

/-- Every value is alike to its erasure. -/
theorem Value.erase_alike : (v : Value) → v.Alike (.erasing D) fr v.erase
  | .function c => .function ⟨rfl, rfl, rfl, .top, False.elim, c.declaration.erase_alike _⟩
  | .method b => .method ⟨rfl, rfl, ⟨⟨rfl, rfl, .top, False.elim,
      b.receiver.cls.declaration.erase_alike _⟩, rfl⟩, False.elim, .top, False.elim,
      b.declaration.erase_alike _⟩
  | .native n => n.erase_alike
  | .cls c => .cls ⟨rfl, rfl, .top, False.elim, c.declaration.erase_alike _⟩
  | .instance i =>
    .instance ⟨⟨rfl, rfl, .top, False.elim, i.cls.declaration.erase_alike _⟩, rfl⟩
  | .num x => .num x
  | .str s => .str s
  | .bool b => .bool b
  | .null => .null
  | .undefined => .undefined
  | .list ref => .list ref
  | .object ref => .object ref

theorem Native.erase_alike :
    (n : Native) → (Value.native n).Alike (.erasing D) fr (.native n.erase)
  | .mk _ _ _ (.host _ held) => .host held.erase_alike
  | .mk _ _ _ .print | .mk _ _ _ .readLine | .mk _ _ _ .map | .mk _ _ _ .len | .mk _ _ _ .push
  | .mk _ _ _ .clock => .native rfl

end

theorem FunctionDecl.Alike.eq_erase {ctx : Surroundings} {d d' : FunctionDecl}
    (h : d.Alike .erasing ctx d') : d' = d.erase := by
  obtain ⟨name, params, body, result⟩ := d
  obtain ⟨_, _, _, _, rfl, _, _, _, hd, _⟩ := h
  exact hd

theorem fieldsAlike_eq_erase {ctx : Surroundings} {fs fs' : List FieldDecl}
    (h : fieldsAlike .erasing ctx fs fs') : fs' = fieldsErase fs := by
  induction fs generalizing fs' with
  | nil => exact h
  | cons field fs ih =>
    obtain ⟨name, ty, init⟩ := field
    obtain ⟨_, ty', init', gs, rfl, rfl, hty, hi, hgs⟩ := h
    obtain ⟨rfl, -⟩ := Prod.mk.inj hty
    obtain rfl : init' = init.erase := Node.expr.inj hi.node
    rw [fieldsErase, ih hgs]

theorem methodsAlike_eq_erase {ctx : Surroundings} {ms ms' : List FunctionDecl}
    (h : methodsAlike .erasing ctx ms ms') : ms' = methodsErase ms := by
  induction ms generalizing ms' with
  | nil => exact h
  | cons m ms ih =>
    obtain ⟨n, ns, rfl, hn, hns⟩ := h
    rw [methodsErase, hn.eq_erase, ih hns]

theorem ClassDecl.Alike.eq_erase {ctx : Surroundings} {c c' : ClassDecl}
    (h : c.Alike .erasing ctx c') : c' = c.erase := by
  obtain ⟨name, methods, fields⟩ := c
  obtain ⟨_, methods', fields', rfl, rfl, hfs, hms⟩ := h
  rw [ClassDecl.erase, fieldsAlike_eq_erase hfs, methodsAlike_eq_erase hms]

theorem Class.Alike.eq_erase {c c' : Class} (h : c.Alike (.erasing D) fr c') : c' = c.erase := by
  obtain ⟨identity, declaration, frame⟩ := c
  obtain ⟨identity', declaration', frame'⟩ := c'
  obtain ⟨rfl, rfl, ctx, -, hd⟩ := h
  rw [Class.erase, ← hd.eq_erase]

theorem Instance.Alike.eq_erase {i i' : Instance} (h : i.Alike (.erasing D) fr i') :
    i' = i.erase := by
  obtain ⟨cls, fields⟩ := i
  obtain ⟨cls', fields'⟩ := i'
  obtain ⟨hcls, rfl⟩ := h
  rw [Instance.erase, ← hcls.eq_erase]

/-- A value goes with its erasure only. -/
theorem Value.Alike.eq_erase {v v' : Value} (h : v.Alike (.erasing D) fr v') : v' = v.erase := by
  induction h with
  | @function c c' hc =>
    obtain ⟨identity, declaration, frame, anonymous⟩ := c
    obtain ⟨identity', declaration', frame', anonymous'⟩ := c'
    obtain ⟨rfl, rfl, rfl, ctx, -, hd⟩ := hc
    rw [Value.erase, Closure.erase, ← hd.eq_erase]
  | @method b b' hb =>
    obtain ⟨identity, declaration, frame, receiver⟩ := b
    obtain ⟨identity', declaration', frame', receiver'⟩ := b'
    obtain ⟨rfl, rfl, hreceiver, -, ctx, -, hd⟩ := hb
    rw [Value.erase, Method.erase, ← hd.eq_erase, ← hreceiver.eq_erase]
  | @native _ _ _ action hp =>
    cases action with
    | host index held => cases hp
    | _ => rfl
  | host _ ih => rw [ih, Value.erase, Native.erase, NativeAction.erase]
  | cls hc => rw [hc.eq_erase, Value.erase]
  | «instance» hi => rw [hi.eq_erase, Value.erase]
  | _ => rfl

theorem Record.erase_alike (r : Record Value) : Record.Alike (.erasing D) fr id r r.erase := by
  induction r with
  | nil => exact .nil
  | cons p r ih => exact .cons ⟨rfl, p.2.erase_alike⟩ ih

theorem Record.Alike.eq_erase {r r' : Record Value} (h : Record.Alike (.erasing D) fr id r r') :
    r' = Record.erase r := by
  have hmap : r.map (fun p => (p.1, p.2.erase)) = r'.map id :=
    forall₂_map_eq h fun _ _ hp => Prod.ext hp.1.symm hp.2.eq_erase.symm
  rw [Record.erase, hmap, List.map_id]

theorem ArrayAlike.map {α : Type} {P : α → α → Prop} {xs : Array α} {f : α → α}
    (h : ∀ x ∈ xs, P x (f x)) : ArrayAlike P xs (xs.map f) := by
  unfold ArrayAlike
  rw [Array.toList_map, List.forall₂_map_right_iff, List.forall₂_same]
  exact fun x hx => h x (Array.mem_toList_iff.1 hx)

theorem ArrayAlike.map_eq {α β : Type} {P : α → α → Prop} {xs ys : Array α} {f g : α → β}
    (h : ArrayAlike P xs ys) (hfg : ∀ x y, P x y → f x = g y) : xs.map f = ys.map g := by
  apply Array.toList_inj.1
  rw [Array.toList_map, Array.toList_map]
  exact forall₂_map_eq h hfg

theorem ArrayAlike.eq_map {α : Type} {P : α → α → Prop} {xs ys : Array α} {f : α → α}
    (h : ArrayAlike P xs ys) (hf : ∀ x y, P x y → y = f x) : ys = xs.map f := by
  rw [h.map_eq (g := id) fun x y hxy => (hf x y hxy).symm, Array.map_id]

theorem Heap.erase_alike (h : Heap) : h.Alike (.erasing D) fr h.erase :=
  ⟨.map fun _ _ => .map fun v _ => v.erase_alike, .map fun r _ => Record.erase_alike r⟩

theorem Heap.Alike.eq_erase {h h' : Heap} (hh : h.Alike (.erasing D) fr h') : h' = h.erase := by
  obtain ⟨lists, records⟩ := h
  obtain ⟨lists', records'⟩ := h'
  obtain ⟨hlists, hrecords⟩ := hh
  exact congrArg₂ Heap.mk (hlists.eq_map fun _ _ hxs => hxs.eq_map fun _ _ hv => hv.eq_erase)
    (hrecords.eq_map fun _ _ hr => hr.eq_erase)

end

/-- A machine is alike to its erasure. -/
theorem Machine.erase_alike {m : Machine}
    (hglobals : ∃ vars, m.frames[Machine.globalFrame]? = some ⟨.globals, none, vars⟩) :
    m.Alike (.erasing m.distances) m.erase where
  frames := .map fun f _ => ⟨rfl, Record.erase_alike f.vars⟩
  globals := hglobals
  heap := m.heap.erase_alike
  nextIdentity := rfl
  left := rfl
  right := rfl
  frame := rfl
  depth := rfl
  sink := rfl
  input := rfl
  clock := rfl
  ticks := rfl
  hosts := rfl
  fits f _ := f.respects_eq
  proper := False.elim

theorem Frame.Alike.erase_eq {D : Distances} {fr : Array Frame} {f f' : Frame}
    (h : f.Alike (.erasing D) fr f') : f.erase = ⟨.globals, f'.parent, f'.vars⟩ := by
  rw [Frame.erase, h.parent, Record.Alike.eq_erase h.vars]

/-- Machines that go with the same machine are the same when erased. -/
theorem Machine.Alike.erase_eq {D : Distances} {m₁ m₂ m : Machine}
    (h₁ : m₁.Alike (.erasing D) m) (h₂ : m₂.Alike (.erasing D) m) : m₁.erase = m₂.erase := by
  have hframes : m₁.frames.map Frame.erase = m₂.frames.map Frame.erase :=
    (h₁.frames.map_eq fun _ _ hf => hf.erase_eq).trans
      (h₂.frames.map_eq fun _ _ hf => hf.erase_eq).symm
  have hheap : m₁.heap.erase = m₂.heap.erase := h₁.heap.eq_erase.symm.trans h₂.heap.eq_erase
  have hleft : m₁.distances = m₂.distances := h₁.left.trans h₂.left.symm
  have hidentity := h₁.nextIdentity.symm.trans h₂.nextIdentity
  have hframe := h₁.frame.symm.trans h₂.frame
  have hdepth := h₁.depth.symm.trans h₂.depth
  have hsink := h₁.sink.symm.trans h₂.sink
  have hinput := h₁.input.symm.trans h₂.input
  have hclock := h₁.clock.symm.trans h₂.clock
  have hticks := h₁.ticks.symm.trans h₂.ticks
  have hhosts := h₁.hosts.symm.trans h₂.hosts
  cases m₁
  cases m₂
  dsimp only at *
  simp only [Machine.erase, hframes, hheap, hleft, hidentity, hframe, hdepth, hsink, hinput, hclock,
    hticks, hhosts]

/-! ### Runs -/

theorem Stop.Alike.eq_of_erasing {D : Distances} {e e' : Stop} (h : e.Alike (.erasing D) e') :
    e' = e := by
  cases h with
  | raised fault ht => rw [show _ = _ from ht]
  | named fault ht => rw [show _ = _ from ht]
  | reported message ht => rw [show _ = _ from ht]
  | outOfFuel => rfl

/-- The run of a program goes in lockstep with that of its erasure on the erased machine. -/
theorem Program.erase_agree (p : Program) (fuel : Nat) {m : Machine}
    (hglobals : ∃ vars, m.frames[Machine.globalFrame]? = some ⟨.globals, none, vars⟩) :
    Agree (.erasing m.distances) m.frames m.frame
      (fun fr v v' => v.Alike (.erasing m.distances) fr v')
      (Evaluation.runProgram (Evaluation.run fuel) p .undefined m)
      (Evaluation.runProgram (Evaluation.run fuel) p.erase .undefined m.erase) := by
  have hat : (Likeness.erasing m.distances).At m.frames m.frame .top := False.elim
  have hsim : Sim (.erasing m.distances) m.frames m.frame
      (Evaluation.runProgram (Evaluation.run fuel) p .undefined)
      (Evaluation.runProgram (Evaluation.run fuel) p.erase .undefined) _ :=
    Evaluation.Sims.runProgram (Evaluation.sims_run _ fuel) hat Surroundings.not_inFunction_top
      (stmtsErase_alike true .top p) .undefined
  exact (hsim.weaken fun _ _ _ _ h => h.1) (Machine.erase_alike hglobals) (.refl _) rfl

/-- Running two programs that have the same erasure. -/
theorem Session.execute_erase_eq (s : Session) (fuel : Nat) {p q : Program}
    (hglobals : ∃ vars, s.machine.frames[Machine.globalFrame]? = some ⟨.globals, none, vars⟩)
    (hpq : p.erase = q.erase) :
    (s.execute fuel p).1.erase = (s.execute fuel q).1.erase ∧
      (s.execute fuel p).2.erase = (s.execute fuel q).2.erase := by
  have hp := p.erase_agree fuel hglobals
  have hq := q.erase_agree fuel hglobals
  rw [hpq] at hp
  unfold Session.execute Session.erase
  generalize Evaluation.runProgram (Evaluation.run fuel) p .undefined s.machine = x at hp
  generalize Evaluation.runProgram (Evaluation.run fuel) q .undefined s.machine = y at hq
  generalize Evaluation.runProgram (Evaluation.run fuel) q.erase .undefined s.machine.erase = z
    at hp hq
  cases hp with
  | ok hm _ _ hv =>
    cases hq with
    | ok hm' _ _ hv' =>
      simp only [Outcome.erase, ← hv.eq_erase, ← hv'.eq_erase, hm.erase_eq hm', and_self]
  | @error e _ _ _ hm _ _ he =>
    cases hq with
    | error hm' _ _ he' =>
      obtain rfl := he.eq_of_erasing.symm.trans he'.eq_of_erasing
      cases e <;> simp only [Outcome.erase, hm.erase_eq hm', and_self]

/-- **Annotations have no effect.**  The scope analysis reaches the same verdict on a program and on
its erasure, with the same distances, and then running them comes to the same: the same value or
error, with its token, and the same session, output included, up to the annotations in the trees
that functions and classes carry. -/
theorem annotations_inert (s : Session)
    (hglobals : ∃ vars, s.machine.frames[Machine.globalFrame]? = some ⟨.globals, none, vars⟩)
    (p : Program) (fuel : Nat) (nextId : NodeId) :
    let s₁ := s.analysed nextId (resolve s.machine.distances p).2
    resolve s.machine.distances p.erase = resolve s.machine.distances p ∧
      (s₁.execute fuel p.erase).1.erase = (s₁.execute fuel p).1.erase ∧
      (s₁.execute fuel p.erase).2.erase = (s₁.execute fuel p).2.erase :=
  ⟨resolve_erase _ p, Session.execute_erase_eq _ fuel hglobals (stmtsErase_erase p)⟩

/-- The program `function f(x: string): string { return x }` with the call `f("a")` after it. -/
def annotatedCall : Program :=
  let name (lexeme : String) : Token := .make .name lexeme 0 1 1 none
  [.functionDecl (.mk (name "f") [.mk "x" (some (.named "string" .typeString)) (name "x")
      (some (.make .typeString "string" 0 1 1 none))]
      [.returns (.make .kwReturn "return" 0 1 1 none) (.expression (.name 0 (name "x")) (name "x"))]
      (some (.named "string" .typeString))),
    .expression (.call (.name 1 (name "f")) (.make .rightParen ")" 0 1 1 none)
      [.literal .string (.str "a")]) (name "f")]

/-- A call of a function with annotations, run in a new session. -/
theorem annotatedCall_inert :
    let s := Session.start false [] none (.still 0)
    let s₁ := s.analysed 2 (resolve s.machine.distances annotatedCall).2
    (∃ vars, s.machine.frames[Machine.globalFrame]? = some ⟨.globals, none, vars⟩) ∧
      annotatedCall.erase ≠ annotatedCall ∧
      resolve s.machine.distances annotatedCall.erase = resolve s.machine.distances annotatedCall ∧
      (s₁.execute 9 annotatedCall.erase).1.erase = (s₁.execute 9 annotatedCall).1.erase ∧
      (s₁.execute 9 annotatedCall.erase).2.erase = (s₁.execute 9 annotatedCall).2.erase := by
  have hglobals := (Session.sound_start false [] none (.still 0)).machine.globals
  refine ⟨hglobals, fun h => ?_, annotations_inert _ hglobals annotatedCall 9 2⟩
  cases h

end ScopedScript
