import Mathlib.Data.List.Induction
import ScopedScript.Proofs.Scope.Declarations

/-! # Well-scoped programs

The rules of scope, said of a program without the scope analysis: by what encloses a node, and by
what the scopes of the program declare.

* **Enclosures.** `Program.sites` lists the nodes of a program, each with the functions, methods,
  class bodies and initialisers around it, innermost first.
* **Scopes.** The program, each block and each function with its parameters is a scope
  (`Program.scopes`).  A declaration that is itself a branch or the body of a loop belongs to the
  scope around it.
* **Rules.** `Program.WellScoped` states the four rules, `Program.Violates` what an error has to say
  of a program that breaks one of them; a program is well-scoped if no error says something of it
  (`wellScoped_iff`). -/

namespace ScopedScript

/-- The token that names what is declared. -/
def Binder.token : Binder → Token
  | .variable name => name
  | .callable name => name

/-! ### Enclosures -/

/-- A part of a program that encloses nodes. -/
inductive Enclosure where
  /-- The body of a function that is no method. -/
  | function (declaration : FunctionDecl)
  | method (declaration : FunctionDecl)
  /-- The fields and methods of a class. -/
  | classBody (declaration : ClassDecl)
  /-- The initialiser of the variable of that name. -/
  | initializer (name : Token)

namespace Enclosure

/-- Is it a function or a method? -/
def isFunction : Enclosure → Bool
  | .function _ | .method _ => true
  | .classBody _ | .initializer _ => false

/-- Is it the method that initialises an instance? -/
def isConstructor : Enclosure → Bool
  | .method declaration => declaration.name.lexeme == ClassDecl.constructorName
  | _ => false

end Enclosure

/-- A node with what encloses it, innermost first. -/
structure Site where
  outer : List Enclosure
  node : Node

/-- The nearest function or method around the node. -/
def Site.function? (s : Site) : Option Enclosure := s.outer.find? Enclosure.isFunction

mutual

/-- The nodes of an expression. -/
def Expr.sites (outer : List Enclosure) : Expr → List Site
  | .grouping inner => ⟨outer, .expr (.grouping inner)⟩ :: inner.sites outer
  | .binary left operator right =>
    ⟨outer, .expr (.binary left operator right)⟩ :: (left.sites outer ++ right.sites outer)
  | .unary operator operand => ⟨outer, .expr (.unary operator operand)⟩ :: operand.sites outer
  | .literal kind value => ⟨outer, .expr (.literal kind value)⟩ :: value.sites outer
  | .name id token => [⟨outer, .expr (.name id token)⟩]
  | .this id keyword => [⟨outer, .expr (.this id keyword)⟩]
  | .function token declaration =>
    ⟨outer, .expr (.function token declaration)⟩ ::
      declaration.sites (.function declaration :: outer)
  | .call callee paren args =>
    ⟨outer, .expr (.call callee paren args)⟩ :: (callee.sites outer ++ exprsSites outer args)
  | .index id name index => ⟨outer, .expr (.index id name index)⟩ :: index.sites outer
  | .get object name => ⟨outer, .expr (.get object name)⟩ :: object.sites outer
  | .set object name value =>
    ⟨outer, .expr (.set object name value)⟩ :: (value.sites outer ++ object.sites outer)
  | .object brace entries => ⟨outer, .expr (.object brace entries)⟩ :: entriesSites outer entries
  | .assign id name value => ⟨outer, .expr (.assign id name value)⟩ :: value.sites outer

/-- The nodes of expressions. -/
def exprsSites (outer : List Enclosure) : List Expr → List Site
  | [] => []
  | e :: es => e.sites outer ++ exprsSites outer es

/-- The nodes of the elements of a list literal. -/
def LiteralValue.sites (outer : List Enclosure) : LiteralValue → List Site
  | .list elements => exprsSites outer elements
  | _ => []

/-- The nodes of the values of an object literal. -/
def entriesSites (outer : List Enclosure) : List Entry → List Site
  | [] => []
  | .mk _ value :: entries => value.sites outer ++ entriesSites outer entries

/-- The nodes of a statement. -/
def Stmt.sites (outer : List Enclosure) : Stmt → List Site
  | .empty => [⟨outer, .stmt .empty⟩]
  | .block statements => ⟨outer, .stmt (.block statements)⟩ :: stmtsSites outer statements
  | .expression e token => ⟨outer, .stmt (.expression e token)⟩ :: e.sites outer
  | .variable name kind ty init =>
    ⟨outer, .stmt (.variable name kind ty init)⟩ :: optionSites (.initializer name :: outer) init
  | .indexAssign id name index value =>
    ⟨outer, .stmt (.indexAssign id name index value)⟩ :: (index.sites outer ++ value.sites outer)
  | .functionDecl declaration =>
    ⟨outer, .stmt (.functionDecl declaration)⟩ :: declaration.sites (.function declaration :: outer)
  | .cond keyword condition thenBranch elseBranch =>
    ⟨outer, .stmt (.cond keyword condition thenBranch elseBranch)⟩ ::
      (condition.sites outer ++ (thenBranch.sites outer ++ optionSites outer elseBranch))
  | .loop condition body token =>
    ⟨outer, .stmt (.loop condition body token)⟩ :: (condition.sites outer ++ body.sites outer)
  | .returns keyword value => ⟨outer, .stmt (.returns keyword value)⟩ :: value.sites outer
  | .object properties => ⟨outer, .stmt (.object properties)⟩ :: propertiesSites outer properties
  | .classDecl declaration =>
    ⟨outer, .stmt (.classDecl declaration)⟩ :: declaration.sites (.classBody declaration :: outer)

/-- The nodes of a statement that may be missing. -/
def optionSites (outer : List Enclosure) : Option Stmt → List Site
  | none => []
  | some s => s.sites outer

/-- The nodes of statements. -/
def stmtsSites (outer : List Enclosure) : List Stmt → List Site
  | [] => []
  | s :: ss => s.sites outer ++ stmtsSites outer ss

/-- The nodes of the values of an object statement. -/
def propertiesSites (outer : List Enclosure) : List StmtEntry → List Site
  | [] => []
  | .mk _ s :: properties => s.sites outer ++ propertiesSites outer properties

/-- The nodes of the body of a function. -/
def FunctionDecl.sites (outer : List Enclosure) : FunctionDecl → List Site
  | .mk _ _ body _ => stmtsSites outer body

/-- The nodes of the body of a class. -/
def ClassDecl.sites (outer : List Enclosure) : ClassDecl → List Site
  | .mk _ methods fields => fieldsSites outer fields ++ methodsSites outer methods

/-- The nodes of the initialisers of fields. -/
def fieldsSites (outer : List Enclosure) : List FieldDecl → List Site
  | [] => []
  | .mk _ _ init :: fields => init.sites outer ++ fieldsSites outer fields

/-- The nodes of the bodies of methods. -/
def methodsSites (outer : List Enclosure) : List FunctionDecl → List Site
  | [] => []
  | m :: ms => m.sites (.method m :: outer) ++ methodsSites outer ms

end

/-- The nodes of a program. -/
def Program.sites (program : Program) : List Site := stmtsSites [] program

/-! ### Scopes -/

/-- What a function declares in its scope: the parameters and what its body declares. -/
def FunctionDecl.scope (f : FunctionDecl) : List Token :=
  f.params.map Parameter.left ++ (stmtsBinders f.body).map Binder.token

/-- The scopes that a node opens, each with the tokens it declares in order. -/
def Node.scopes : Node → List (List Token)
  | .stmt (.block statements) => [(stmtsBinders statements).map Binder.token]
  | n => n.functions.map FunctionDecl.scope

/-- The scopes of a program, its own first. -/
def Program.scopes (program : Program) : List (List Token) :=
  (stmtsBinders program).map Binder.token ::
    (Program.sites program).flatMap fun s => s.node.scopes

/-! ### Rules -/

/-- The keyword of a `return`. -/
def Node.return? : Node → Option Token
  | .stmt (.returns keyword _) => some keyword
  | _ => none

/-- The keyword of a `this`. -/
def Node.this? : Node → Option Token
  | .expr (.this _ keyword) => some keyword
  | _ => none

/-- The name that is read, as a whole or at an index. -/
def Node.read? : Node → Option Token
  | .expr (.name _ name) | .expr (.index _ name _) => some name
  | _ => none

/-- The node lies in the initialiser of a variable of that name, with no function between them. -/
def Site.InOwnInitializer (s : Site) (name : String) : Prop :=
  ∃ inner token outer, s.outer = inner ++ .initializer token :: outer ∧ token.lexeme = name ∧
    ∀ f ∈ inner, f.isFunction = false

/-- The rules of scope. -/
structure Program.WellScoped (program : Program) : Prop where
  /-- No scope declares a name twice. -/
  distinct : ∀ scope ∈ Program.scopes program, (scope.map Token.lexeme).Nodup
  /-- Each `return` stands in a function or a method, and the nearest one is no constructor. -/
  returns : ∀ s ∈ Program.sites program, ∀ keyword, s.node.return? = some keyword →
    ∃ f, s.function? = some f ∧ f.isConstructor = false
  /-- Each `this` stands in a class. -/
  receivers : ∀ s ∈ Program.sites program, ∀ keyword, s.node.this? = some keyword →
    ∃ c, .classBody c ∈ s.outer
  /-- No variable is read in its own initialiser, unless by a function made there. -/
  initializers : ∀ s ∈ Program.sites program, ∀ name, s.node.read? = some name →
    ¬s.InOwnInitializer name.lexeme

/-- The scope declares the name of the token that the error reports a second time, there.  The names
in `before` have been declared already. -/
def Redeclares (before : List String) (scope : List Token) (e : ScopeError) : Prop :=
  ∃ earlier token later, scope = earlier ++ token :: later ∧
    token.lexeme ∈ before ++ earlier.map Token.lexeme ∧
    e = ⟨.alreadyDeclared token.lexeme, token⟩

/-- The error reports a rule that the node breaks, other than that of the scopes, at its token. -/
inductive Site.Breaks (s : Site) : ScopeError → Prop
  | returnOutside {keyword : Token} : s.node.return? = some keyword → s.function? = none →
      Breaks s ⟨.returnOutsideFunction, keyword⟩
  | returnInConstructor {keyword : Token} {f : Enclosure} : s.node.return? = some keyword →
      s.function? = some f → f.isConstructor = true → Breaks s ⟨.returnInConstructor, keyword⟩
  | thisOutside {keyword : Token} : s.node.this? = some keyword →
      (∀ c, .classBody c ∉ s.outer) → Breaks s ⟨.thisOutsideClass, keyword⟩
  | ownInitializer {name : Token} : s.node.read? = some name → s.InOwnInitializer name.lexeme →
      Breaks s ⟨.ownInitializer, name⟩

/-- The error reports a rule that the program breaks, at the token that breaks it. -/
inductive Program.Violates (program : Program) (e : ScopeError) : Prop
  | scope {scope : List Token} : scope ∈ Program.scopes program → Redeclares [] scope e →
      Violates program e
  | site {s : Site} : s ∈ Program.sites program → s.Breaks e → Violates program e

/-- A scope declares its names once if no error says otherwise. -/
theorem nodup_iff_not_redeclares (scope : List Token) :
    (scope.map Token.lexeme).Nodup ↔ ∀ e, ¬Redeclares [] scope e := by
  refine ⟨?_, fun h => ?_⟩
  · rintro hnodup _ ⟨earlier, token, later, rfl, hmem, -⟩
    rw [List.map_append, List.map_cons] at hnodup
    exact List.disjoint_of_nodup_append hnodup hmem List.mem_cons_self
  · induction scope using List.reverseRecOn with
    | nil => exact .nil
    | append_singleton scope token ih =>
      rw [List.map_append, List.map_singleton, ← List.concat_eq_append, List.nodup_concat]
      refine ⟨fun hmem => h _ ⟨scope, token, [], rfl, hmem, rfl⟩, ih ?_⟩
      rintro _ ⟨earlier, t, later, rfl, hmem, rfl⟩
      exact h _ ⟨earlier, t, later ++ [token], by simp, hmem, rfl⟩

/-- A program is well-scoped if there is no error to report. -/
theorem wellScoped_iff (program : Program) :
    Program.WellScoped program ↔ ∀ e, ¬Program.Violates program e := by
  refine ⟨fun h e hviolates => ?_, fun h => ⟨?_, ?_, ?_, ?_⟩⟩
  · cases hviolates with
    | scope hscope hagain =>
      exact (nodup_iff_not_redeclares _).1 (h.distinct _ hscope) _ hagain
    | site hs hbreaks =>
      cases hbreaks with
      | returnOutside hreturn houter =>
        obtain ⟨f, hf, -⟩ := h.returns _ hs _ hreturn
        rw [houter] at hf
        cases hf
      | returnInConstructor hreturn houter hf =>
        obtain ⟨f', hf', hnot⟩ := h.returns _ hs _ hreturn
        obtain rfl := Option.some.inj (houter.symm.trans hf')
        rw [hf] at hnot
        cases hnot
      | thisOutside hthis hclass =>
        obtain ⟨c, hc⟩ := h.receivers _ hs _ hthis
        exact hclass c hc
      | ownInitializer hread hown => exact h.initializers _ hs _ hread hown
  · intro scope hscope
    exact (nodup_iff_not_redeclares scope).2 fun e he => h e (.scope hscope he)
  · intro s hs keyword hreturn
    cases hf : s.function? with
    | none => exact absurd (.site hs (.returnOutside hreturn hf)) (h _)
    | some f =>
      refine ⟨f, rfl, ?_⟩
      by_contra hconstructor
      exact h _ (.site hs (.returnInConstructor hreturn hf (by simpa using hconstructor)))
  · intro s hs keyword hthis
    by_contra hclass
    exact h _ (.site hs (.thisOutside hthis fun c hc => hclass ⟨c, hc⟩))
  · intro s hs name hread hown
    exact h _ (.site hs (.ownInitializer hread hown))

end ScopedScript
