import ScopedScript.Number
import ScopedScript.Record
import ScopedScript.Tree

/-! # Values

What an expression evaluates to.  Numbers, strings, truth values, `null` and `undefined` are
themselves.  Lists, objects and instances are shared and mutable: the value is a reference into
the heap, and two of them are the same exactly if the references agree.  Functions, bound methods,
natives and classes never change, so the value holds all there is to them, with an *identity*: a
number given out when the value was made, by which `==` compares them. -/

namespace ScopedScript

/-- A reference to a frame: the variables of one scope at run time. -/
abbrev FrameId := Nat

/-- A reference to a list or a record on the heap. -/
abbrev Ref := Nat

/-- A function with the frame it was made in. -/
structure Closure where
  identity : Nat
  declaration : FunctionDecl
  frame : FrameId
  anonymous : Bool

/-- A class with the frame it was declared in. -/
structure Class where
  identity : Nat
  declaration : ClassDecl
  frame : FrameId

/-- An instance: its class, and the record that holds its fields. -/
structure Instance where
  cls : Class
  fields : Ref

/-- A method bound to an instance, with the frame in which `this` is that instance. -/
structure Method where
  identity : Nat
  declaration : FunctionDecl
  frame : FrameId
  receiver : Instance

mutual

/-- A value. -/
inductive Value where
  | num (value : Float)
  | str (value : String)
  | bool (value : Bool)
  | null
  | undefined
  | list (ref : Ref)
  | object (ref : Ref)
  | function (closure : Closure)
  | method (method : Method)
  | native (native : Native)
  | cls (cls : Class)
  | instance (instance_ : Instance)

/-- A function provided from outside the program. -/
inductive Native where
  | mk (identity : Nat) (name : String) (arity : Nat) (action : NativeAction)

/-- What a native does. -/
inductive NativeAction where
  /-- Writes the text of its argument and a line feed. -/
  | print
  /-- Reads a line of input. -/
  | readLine
  /-- Applies a function to each element of a list. -/
  | map
  /-- The length of a list or string. -/
  | len
  /-- Adds an element at the end of a list. -/
  | push
  /-- The time of day. -/
  | clock
  /-- Calls a function of the host, by its number among those that have been registered, with the value
  that is held for it. -/
  | host (index : Nat) (held : Value)

end

instance : Inhabited Value := ⟨.undefined⟩

namespace Native

/-- The number that tells natives apart. -/
def identity : Native → Nat
  | .mk identity _ _ _ => identity

/-- The name under which the native was registered. -/
def name : Native → String
  | .mk _ name _ _ => name

/-- The number of arguments a call has to give. -/
def arity : Native → Nat
  | .mk _ _ arity _ => arity

/-- What the native does. -/
def action : Native → NativeAction
  | .mk _ _ _ action => action

end Native

/-- Is the method the one that initialises instances? -/
def Method.isConstructor (m : Method) : Bool :=
  m.declaration.name.lexeme == ClassDecl.constructorName

namespace Value

/-- The name of a value's type, for messages. -/
def typeName : Value → String
  | .num _ => "number"
  | .str _ => "string"
  | .bool _ => "boolean"
  | .null => "null"
  | .undefined => "undefined"
  | .list _ => "list"
  | .object _ => "object"
  | .cls _ => "class"
  | .function _ | .method _ | .native _ => "function"
  | .instance _ => "instance"

/-- The number of arguments that a call of the value has to give, if it can be called. -/
def arity? : Value → Option Nat
  | .function f => some f.declaration.arity
  | .method m => some m.declaration.arity
  | .native n => some n.arity
  | .cls c => some c.declaration.arity
  | _ => none

end Value

end ScopedScript
