import Std.Data.HashMap
import ScopedScript.Tree

/-! # Scope analysis

Before a program runs, every node that reads or writes a variable is told how many scopes lie
between it and the scope that declares the variable: its *distance*.  A node whose variable no
scope declares gets none, and is looked up among the globals when it runs.

The analysis walks the program in order with a stack of layers, innermost first, one for each open
scope: the program, a block, a function with its parameters, or the surroundings of a class body,
where `this` is declared.  A layer holds the names declared so far, each with the mark whether it
is ready, that is, whether its initialiser has been passed.  Along the way four rules are checked:

* no name is declared twice in a layer;
* a variable is not read in its own initialiser, as long as its layer is the innermost one;
* `return` stands in a function or in a method other than the constructor;
* `this` stands in a class. -/

namespace ScopedScript

/-- Which rule a program breaks. -/
inductive ScopeFault where
  | alreadyDeclared (name : String)
  | ownInitializer
  | returnOutsideFunction
  | returnInConstructor
  | thisOutsideClass
  deriving DecidableEq, Repr

/-- The message of a fault. -/
def ScopeFault.message : ScopeFault → String
  | .alreadyDeclared name => "Already a variable named '" ++ name ++ "' in this scope."
  | .ownInitializer => "Can't read local variable in its own initializer."
  | .returnOutsideFunction => "Can't return from top-level code."
  | .returnInConstructor => "Can't return from a constructor."
  | .thisOutsideClass => "Can't use 'this' outside of a class."

/-- A broken rule at the token that breaks it. -/
structure ScopeError where
  fault : ScopeFault
  token : Token

/-- The distances found for the variable nodes of a session. -/
abbrev Distances := Std.HashMap NodeId Nat

namespace Scope

/-- What a statement is in the body of. -/
inductive Body where
  | program | function | method | constructor
  deriving DecidableEq, Repr

/-- Where the walk is: the kind of body, and whether a class is around it. -/
structure Context where
  body : Body
  inClass : Bool
  deriving DecidableEq, Repr

/-- The names declared in one scope, each with the mark whether it is ready.  Of two entries for a
name the first one counts. -/
abbrev Layer := List (String × Bool)

/-- Is the name declared in the layer? -/
def Layer.declares (layer : Layer) (name : String) : Bool := layer.any (·.1 == name)

/-- The state of the walk: the open layers, innermost first, and the distances found so far. -/
structure State where
  layers : List Layer
  distances : Distances

/-- A step of the walk. -/
abbrev Walk := EStateM ScopeError State

/-- The distance to the innermost layer that declares the name. -/
def distance? (layers : List Layer) (name : String) : Option Nat :=
  layers.findIdx? (·.declares name)

/-- Is the name in the innermost layer and not ready? -/
def unready (layers : List Layer) (name : String) : Bool :=
  match layers with
  | layer :: _ => layer.lookup name == some false
  | [] => false

/-- Reports a broken rule. -/
def fail {α : Type} (token : Token) (fault : ScopeFault) : Walk α := throw ⟨fault, token⟩

/-- Adds an entry to the innermost layer. -/
def addEntry (name : String) (ready : Bool) : List Layer → List Layer
  | layer :: outer => ((name, ready) :: layer) :: outer
  | [] => []

/-- Declares a name that is not ready yet. -/
def declare (token : Token) : Walk Unit := do
  let s ← get
  match s.layers with
  | layer :: _ =>
    if layer.declares token.lexeme then fail token (.alreadyDeclared token.lexeme)
    set { s with layers := addEntry token.lexeme false s.layers }
  | [] => return

/-- Marks a name as ready. -/
def define (token : Token) : Walk Unit :=
  modify fun s => { s with layers := addEntry token.lexeme true s.layers }

/-- Records the distance of a variable node, if a layer declares the variable. -/
def record (id : NodeId) (token : Token) : Walk Unit :=
  modify fun s =>
    match distance? s.layers token.lexeme with
    | some d => { s with distances := s.distances.insert id d }
    | none => s

/-- A variable read. -/
def read (id : NodeId) (token : Token) : Walk Unit := do
  if unready (← get).layers token.lexeme then fail token .ownInitializer
  record id token

/-- Walks a part of the program in a layer of its own. -/
def within (layer : Layer) (walk : Walk Unit) : Walk Unit := do
  modify fun s => { s with layers := layer :: s.layers }
  walk
  modify fun s => { s with layers := s.layers.tail }

/-- Declares the parameters of a function. -/
def declareParams : List Parameter → Walk Unit
  | [] => return
  | p :: ps => do
    declare p.left
    define p.left
    declareParams ps

/-- The kind of body that a method has. -/
def methodBody (m : FunctionDecl) : Body :=
  if m.name.lexeme = ClassDecl.constructorName then .constructor else .method

mutual

/-- Walks an expression. -/
def walkExpr (ctx : Context) : Expr → Walk Unit
  | .grouping inner => walkExpr ctx inner
  | .binary left _ right => do walkExpr ctx left; walkExpr ctx right
  | .unary _ operand => walkExpr ctx operand
  | .literal _ value => walkLiteral ctx value
  | .name id token => read id token
  | .this id keyword => do
    if !ctx.inClass then fail keyword .thisOutsideClass
    record id keyword
  | .function _ declaration => walkFunction { ctx with body := .function } declaration
  | .call callee _ args => do walkExpr ctx callee; walkExprs ctx args
  | .index id name index => do read id name; walkExpr ctx index
  | .get object _ => walkExpr ctx object
  | .set object _ value => do walkExpr ctx value; walkExpr ctx object
  | .object _ entries => walkEntries ctx entries
  | .assign id name value => do walkExpr ctx value; record id name

/-- Walks expressions in order. -/
def walkExprs (ctx : Context) : List Expr → Walk Unit
  | [] => return
  | e :: es => do walkExpr ctx e; walkExprs ctx es

/-- Walks the elements of a list literal. -/
def walkLiteral (ctx : Context) : LiteralValue → Walk Unit
  | .list elements => walkExprs ctx elements
  | _ => return

/-- Walks the values of an object literal. -/
def walkEntries (ctx : Context) : List Entry → Walk Unit
  | [] => return
  | .mk _ value :: entries => do walkExpr ctx value; walkEntries ctx entries

/-- Walks a statement. -/
def walkStmt (ctx : Context) : Stmt → Walk Unit
  | .empty => return
  | .block statements => within [] (walkStmts ctx statements)
  | .expression e _ => walkExpr ctx e
  | .variable name _ _ init => do
    declare name
    walkOption ctx init
    define name
  | .indexAssign id name index value => do
    walkExpr ctx index
    walkExpr ctx value
    record id name
  | .functionDecl declaration => do
    declare declaration.name
    define declaration.name
    walkFunction { ctx with body := .function } declaration
  | .cond _ condition thenBranch elseBranch => do
    walkExpr ctx condition
    walkStmt ctx thenBranch
    walkOption ctx elseBranch
  | .loop condition body _ => do walkExpr ctx condition; walkStmt ctx body
  | .returns keyword value =>
    match ctx.body with
    | .program => fail keyword .returnOutsideFunction
    | .constructor => fail keyword .returnInConstructor
    | .function | .method => walkStmt ctx value
  | .object properties => walkProperties ctx properties
  | .classDecl declaration => walkClass ctx declaration

/-- Walks a statement that may be missing. -/
def walkOption (ctx : Context) : Option Stmt → Walk Unit
  | none => return
  | some s => walkStmt ctx s

/-- Walks statements in order. -/
def walkStmts (ctx : Context) : List Stmt → Walk Unit
  | [] => return
  | s :: ss => do walkStmt ctx s; walkStmts ctx ss

/-- Walks the values of an object statement. -/
def walkProperties (ctx : Context) : List StmtEntry → Walk Unit
  | [] => return
  | .mk _ value :: properties => do walkStmt ctx value; walkProperties ctx properties

/-- Walks a function: its parameters and its body share a layer. -/
def walkFunction (ctx : Context) : FunctionDecl → Walk Unit
  | .mk _ params body _ => within [] do
    declareParams params
    walkStmts ctx body

/-- Walks a class: the fields, then the methods, in a layer that declares `this`. -/
def walkClass (ctx : Context) : ClassDecl → Walk Unit
  | .mk name methods fields => do
    declare name
    define name
    within [("this", true)] do
      walkFields { ctx with inClass := true } fields
      walkMethods { ctx with inClass := true } methods

/-- Walks the initialisers of fields. -/
def walkFields (ctx : Context) : List FieldDecl → Walk Unit
  | [] => return
  | .mk _ _ init :: fields => do walkExpr ctx init; walkFields ctx fields

/-- Walks methods. -/
def walkMethods (ctx : Context) : List FunctionDecl → Walk Unit
  | [] => return
  | m :: ms => do
    walkFunction { ctx with body := methodBody m } m
    walkMethods ctx ms

end

end Scope

/-- Adds the distances of a program's variable nodes to those of a session.  Those that are found
before an error stay. -/
def resolve (distances : Distances) (program : Program) : Except ScopeError Unit × Distances :=
  match Scope.within [] (Scope.walkStmts ⟨.program, false⟩ program) ⟨[], distances⟩ with
  | .ok () s => (.ok (), s.distances)
  | .error e s => (.error e, s.distances)

end ScopedScript
