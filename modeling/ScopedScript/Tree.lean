import ScopedScript.Token

/-! # Program trees

What a row of tokens means: expressions, statements and declarations, with the type annotations
they carry.  Annotations are kept and never looked at.

Each node that reads or writes a variable (`name`, `this`, `index`, `assign` and the statement
`indexAssign`) carries a number.  The numbers are handed out in the order in which the nodes are
made, and tell the nodes of all programs of one session apart; the scope analysis attaches what it
finds to them. -/

namespace ScopedScript

/-- The number of a node that stands for a variable.  The counter is taken not to run over: with words
of 32 bits, that is so for the first 2^32 such nodes of a session. -/
abbrev NodeId := Nat

/-! ### Annotations -/

mutual

/-- A type annotation. -/
inductive Ty where
  /-- A built-in type, a literal, or a name. -/
  | named (name : String) (kind : Token.Kind)
  | function (params : List Parameter) (result : Ty)
  | union (members : List Ty)
  | intersection (members : List Ty)
  | array (element : Ty)
  | tuple (elements : List Ty)
  | object (entries : List TyEntry)
  | generic (name : String) (args : List Ty)

/-- A parameter of a function or of a function type.  The tokens are the name and, if there is an
annotation, its last token. -/
inductive Parameter where
  | mk (name : String) (ty : Option Ty) (left : Token) (right : Option Token)

/-- A property of an object type. -/
inductive TyEntry where
  | mk (name : String) (ty : Ty)

end

namespace Parameter

/-- The name that the parameter declares. -/
def name : Parameter → String
  | .mk name _ _ _ => name

/-- The annotation. -/
def ty : Parameter → Option Ty
  | .mk _ ty _ _ => ty

/-- The token of the name. -/
def left : Parameter → Token
  | .mk _ _ left _ => left

/-- The last token of the annotation. -/
def right : Parameter → Option Token
  | .mk _ _ _ right => right

end Parameter

/-! ### Expressions and statements -/

/-- The word that introduces a variable.  All three mean the same. -/
inductive DeclarationKind where
  | let_ | const | var
  deriving DecidableEq, Repr

mutual

/-- An expression. -/
inductive Expr where
  | grouping (inner : Expr)
  | binary (left : Expr) (operator : Token) (right : Expr)
  | unary (operator : Token) (operand : Expr)
  | literal (kind : Token.Kind) (value : LiteralValue)
  | name (id : NodeId) (token : Token)
  | this (id : NodeId) (keyword : Token)
  | function (token : Token) (declaration : FunctionDecl)
  | call (callee : Expr) (paren : Token) (args : List Expr)
  | index (id : NodeId) (name : Token) (index : Expr)
  | get (object : Expr) (name : Token)
  | set (object : Expr) (name : Token) (value : Expr)
  | object (brace : Token) (entries : List Entry)
  | assign (id : NodeId) (name : Token) (value : Expr)

/-- The value of a literal expression. -/
inductive LiteralValue where
  | num (value : Float)
  | str (value : String)
  | bool (value : Bool)
  | null
  | undefined
  | emptyObject
  | list (elements : List Expr)

/-- A property of an object literal. -/
inductive Entry where
  | mk (key : Token) (value : Expr)

/-- A statement. -/
inductive Stmt where
  /-- The missing body of a loop at the end of the source. -/
  | empty
  | block (statements : List Stmt)
  | expression (expression : Expr) (token : Token)
  | variable (name : Token) (kind : DeclarationKind) (ty : Option Ty) (init : Option Stmt)
  | indexAssign (id : NodeId) (name : Token) (index value : Expr)
  | functionDecl (declaration : FunctionDecl)
  | cond (keyword : Token) (condition : Expr) (thenBranch : Stmt) (elseBranch : Option Stmt)
  | loop (condition : Expr) (body : Stmt) (token : Token)
  | returns (keyword : Token) (value : Stmt)
  /-- Braces with nothing between them in the place of a statement. -/
  | object (properties : List StmtEntry)
  | classDecl (declaration : ClassDecl)

/-- A property of an object statement. -/
inductive StmtEntry where
  | mk (key : Token) (value : Stmt)

/-- A function: its name, or the word `function` if it has none, its parameters and its body. -/
inductive FunctionDecl where
  | mk (name : Token) (params : List Parameter) (body : List Stmt) (result : Option Ty)

/-- A field of a class with the expression that initialises it. -/
inductive FieldDecl where
  | mk (name : Token) (ty : Option Ty) (init : Expr)

/-- A class. -/
inductive ClassDecl where
  | mk (name : Token) (methods : List FunctionDecl) (fields : List FieldDecl)

end

instance : Inhabited Expr := ⟨.literal .undefinedLit .undefined⟩
instance : Inhabited Stmt := ⟨.empty⟩

namespace Entry

/-- The token of the key. -/
def key : Entry → Token
  | .mk key _ => key

/-- The expression of the value. -/
def value : Entry → Expr
  | .mk _ value => value

end Entry

namespace FunctionDecl

/-- The token that names the function. -/
def name : FunctionDecl → Token
  | .mk name _ _ _ => name

/-- The parameters, in order. -/
def params : FunctionDecl → List Parameter
  | .mk _ params _ _ => params

/-- The statements of the body. -/
def body : FunctionDecl → List Stmt
  | .mk _ _ body _ => body

/-- The annotation of the result. -/
def result : FunctionDecl → Option Ty
  | .mk _ _ _ result => result

/-- The number of arguments a call has to give. -/
def arity (f : FunctionDecl) : Nat := f.params.length

end FunctionDecl

namespace FieldDecl

/-- The token of the field's name. -/
def name : FieldDecl → Token
  | .mk name _ _ => name

/-- The expression that initialises the field. -/
def init : FieldDecl → Expr
  | .mk _ _ init => init

end FieldDecl

namespace ClassDecl

/-- The name of the method that initialises an instance. -/
def constructorName : String := "constructor"

/-- The token of the class's name. -/
def name : ClassDecl → Token
  | .mk name _ _ => name

/-- The methods, in order of declaration. -/
def methods : ClassDecl → List FunctionDecl
  | .mk _ methods _ => methods

/-- The fields, in order of declaration. -/
def fields : ClassDecl → List FieldDecl
  | .mk _ _ fields => fields

/-- The method of a name.  Of several the last one counts. -/
def method? (c : ClassDecl) (name : String) : Option FunctionDecl :=
  c.methods.reverse.find? fun m => m.name.lexeme == name

/-- The number of arguments an instantiation has to give. -/
def arity (c : ClassDecl) : Nat :=
  match c.method? constructorName with
  | some m => m.arity
  | none => 0

end ClassDecl

/-- A program: the statements at the top level. -/
abbrev Program := List Stmt

end ScopedScript
