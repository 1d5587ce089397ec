import ScopedScript.Machine
import ScopedScript.Value.Equality

/-! # Evaluation

How expressions, statements and calls run on the machine.

* An expression yields a value.  A statement yields a `Signal`: go on, or leave the function with
  a result.
* Operands are evaluated from left to right, before their types are looked at.
* A block runs in a new frame inside the current one; a function runs in a new frame inside the
  frame it was made in, which holds its arguments.
* Methods are found through an instance and bound to it: a frame in which `this` is the instance
  stands between the class's frame and the frame of the call.
* Properties of a list or string are those of an instance of the class `Array` or `String` made
  from it.

The parts of an evaluation that call each other are *tasks*.  `step` carries out one task and
leaves those inside it to an interpreter that it is given, and `run` ties the knot: it is the step
with itself for the tasks inside, as often as a bound allows.  When the bound is used up, iterations
of a loop included, the evaluation stops with `Stop.outOfFuel`, which is no fault of the
program. -/

namespace ScopedScript

/-- What a statement tells the statements around it. -/
inductive Signal where
  | proceed
  | returned (value : Value)

namespace Evaluation

open Eval

/-! ### Operators -/

/-- The two numbers, or a fault. -/
def numbers (operator : Token) : Value → Value → Except RuntimeFault (Float × Float)
  | .num x, .num y => .ok (x, y)
  | v, w => .error (.numberOperands operator.lexeme v.typeName w.typeName)

/-- The sum of two numbers, or two texts put together.  A number is put to a string by its text. -/
def add : Value → Value → Except RuntimeFault Value
  | .num x, .num y => .ok (.num (x + y))
  | .str s, .str t => .ok (.str (s ++ t))
  | .str s, .num y => .ok (.str (s ++ Number.text y))
  | .num x, .str t => .ok (.str (Number.text x ++ t))
  | v, w => .error (.addition v.typeName w.typeName)

/-- The quotient of two numbers, the second not zero. -/
def divide (x y : Float) : Except RuntimeFault Value :=
  if y == 0.0 then .error .divisionByZero else .ok (.num (x / y))

/-- A binary operator applied to two values. -/
def applyBinary (h : Heap) (operator : Token) (v w : Value) : Except RuntimeFault Value := do
  match operator.kind with
  | .plus => add v w
  | .minus => let (x, y) ← numbers operator v w; return .num (x - y)
  | .times => let (x, y) ← numbers operator v w; return .num (x * y)
  | .divide => let (x, y) ← numbers operator v w; divide x y
  | .greater => let (x, y) ← numbers operator v w; return .bool (x > y)
  | .greaterEqual => let (x, y) ← numbers operator v w; return .bool (x ≥ y)
  | .less => let (x, y) ← numbers operator v w; return .bool (x < y)
  | .lessEqual => let (x, y) ← numbers operator v w; return .bool (x ≤ y)
  | .equal => return .bool (v.equal h w)
  | .notEqual => return .bool (!v.equal h w)
  | _ => throw (.unknownOperator operator.lexeme)

/-- A unary operator applied to a value. -/
def applyUnary (operator : Token) (v : Value) : Except RuntimeFault Value :=
  match operator.kind, v with
  | .minus, .num x => .ok (.num (-x))
  | .not, .bool b => .ok (.bool !b)
  | .minus, v => .error (.negation v.typeName)
  | _, v => .error (.complement v.typeName)

/-- A result, or the fault at the token. -/
def liftAt {α : Type} (token : Token) : Except RuntimeFault α → Eval α
  | .ok a => pure a
  | .error fault => raise token fault

/-- Does the operator decide by its left operand whether it needs the right one? -/
def isLogical (operator : Token) : Bool := operator.kind == .and || operator.kind == .or

/-- The truth value of an operand of a logical operator. -/
def logicalOperand (operator : Token) : Value → Eval Bool
  | .bool b => pure b
  | v => raise operator (.booleanOperand operator.lexeme v.typeName)

/-- Does the left operand decide the result?  A true one decides `||`, a false one `&&`. -/
def decides (operator : Token) (left : Bool) : Bool :=
  if operator.kind = .or then left else !left

/-! ### Lists, objects and instances -/

/-- The position that an index says, if it can be one. -/
def position (name : Token) (index : Value) : Eval (Option Nat) := do
  match index with
  | .num x =>
    match Number.position? x with
    | some p => return p
    | none => raise name (.indexNotWhole (Number.text x))
  | v => raise name (.indexNotWhole (← inspect fun m => v.text m.heap))

/-- The element of a list at an index; `undefined` where there is none. -/
def readElement (name : Token) (target index : Value) : Eval Value := do
  match target with
  | .list ref =>
    match ← position name index with
    | some i => inspect fun m => (m.heap.elements ref).getD i .undefined
    | none => return .undefined
  | v => raise name (.notIndexable name.lexeme v.typeName)

/-- Replaces the element of a list at an index, where there must be one. -/
def writeElement (name : Token) (target index value : Value) : Eval Unit := do
  match target with
  | .list ref =>
    let place ← position name index
    let length ← inspect fun m => (m.heap.elements ref).size
    match place.filter (· < length) with
    | some i =>
      modify fun m => { m with heap := m.heap.modifyList ref fun xs => xs.setIfInBounds i value }
    | none =>
      let shown ← inspect fun m => index.text m.heap
      raise name (.indexOutOfBounds shown name.lexeme length)
  | v => raise name (.notAssignable name.lexeme v.typeName)

/-- Sets a property of an object or a field of an instance. -/
def writeRecord (ref : Ref) (name : String) (value : Value) : Eval Unit :=
  modify fun m => { m with heap := m.heap.modifyRecord ref fun r => r.set name value }

/-- The record behind a value whose fields can be set. -/
def fieldsOf (name : Token) : Value → Eval Ref
  | .instance i => pure i.fields
  | .object ref => pure ref
  | v => raise name (.noFields v.typeName)

/-- A frame inside the frame of the class in which `this` is the instance. -/
def bindThis (i : Instance) : Eval FrameId :=
  newFrame (.receiver i.cls.declaration) i.cls.frame [("this", .instance i)]

/-- A method bound to an instance of its class. -/
def bindMethod (i : Instance) (declaration : FunctionDecl) : Eval Method := do
  let frame ← bindThis i
  return ⟨← newIdentity, declaration, frame, i⟩

/-- A property of an instance: a field, or else a method, bound anew at each reading. -/
def instanceProperty (i : Instance) (name : Token) : Eval Value := do
  match ← inspect fun m => (m.heap.record i.fields).get? name.lexeme with
  | some v => return v
  | none =>
    match i.cls.declaration.method? name.lexeme with
    | some declaration => return .method (← bindMethod i declaration)
    | none => raise name (.noInstanceProperty name.lexeme)

/-- A property of an object. -/
def objectProperty (ref : Ref) (name : Token) : Eval Value := do
  orRaise name (.noObjectProperty name.lexeme)
    (← inspect fun m => (m.heap.record ref).get? name.lexeme)

/-- The class whose instances have the properties of a value, for lists and strings. -/
def wrapperName? : Value → Option String
  | .list _ => some "Array"
  | .str _ => some "String"
  | _ => none

/-- The global class of a name. -/
def globalClass? (m : Machine) (name : String) : Option Class :=
  match (m.vars Machine.globalFrame).get? name with
  | some (.cls c) => some c
  | _ => none

/-- The frame of a call: the parameters with their arguments, inside the closure's frame. -/
def bindParameters : List Parameter → List Value → Record Value → Eval (Record Value)
  | p :: ps, v :: vs, vars =>
    if vars.has p.name then raise p.left (.parameterDeclared p.name)
    else bindParameters ps vs (vars.set p.name v)
  | _, _, vars => pure vars

/-! ### Natives -/

/-- Reads a line of input: its text without the line end, or `undefined` at the end of the input.
A line that is no text is used up all the same. -/
def readLine (site : Token) : Eval Value := do
  let (line, rest) ← inspect fun m => splitLine m.input
  modify fun m => { m with input := rest }
  match decodeText? line with
  | none => raise site .invalidInput
  | some text => return if line.isEmpty then .undefined else .str (trimLineEnd text)

/-- Writes a text, unless it is empty, and a line feed. -/
def printLine (site : Token) (text : String) : Eval Value := do
  if !text.isEmpty then write site text
  write site "\n"
  return .undefined

/-- The length of a list or string. -/
def lengthOf (site : Token) : Value → Eval Value
  | .list ref => do return .num (Float.ofNat (← inspect fun m => (m.heap.elements ref).size))
  | .str s => return .num (Float.ofNat s.length)
  | v => raise site (.lenNeedsSequence v.typeName)

/-- Adds an element at the end of a list and yields the new length. -/
def pushElement (site : Token) (target value : Value) : Eval Value :=
  match target with
  | .list ref => do
    modify fun m => { m with heap := m.heap.modifyList ref fun xs => xs.push value }
    lengthOf site target
  | v => raise site (.pushNeedsList v.typeName)

/-- The next reading of the clock. -/
def readClock (site : Token) : Eval Value := do
  let reading ← inspect fun m => m.clock m.ticks
  modify fun m => { m with ticks := m.ticks + 1 }
  return .num (← orRaise site .clockBehind reading)

/-- Takes the answer of a host function over. -/
def deliver (answer : HostAnswer) : Eval Value := fun m =>
  match answer.result with
  | .ok v => .ok v { m with heap := answer.heap }
  | .error e => .error (.raised ⟨.host e.message, e.token⟩) { m with heap := answer.heap }

/-- Calls a function of the host. -/
def callHost (index : Nat) (held : Value) (site : Token) (args : List Value) : Eval Value := do
  match ← inspect (·.hosts[index]?) with
  | some f => deliver (← inspect fun m => f.run site held args m.heap)
  -- a native has the number of a function that has been registered
  | none => return .undefined

theorem callHost_of_some {m : Machine} {index : Nat} {f : HostFunction}
    (h : m.hosts[index]? = some f) (held : Value) (site : Token) (args : List Value) :
    callHost index held site args m = deliver (f.run site held args m.heap) m := by
  simp only [callHost, inspect, bind, EStateM.bind, h]

theorem callHost_of_none {m : Machine} {index : Nat} (h : m.hosts[index]? = none) (held : Value)
    (site : Token) (args : List Value) : callHost index held site args m = .ok .undefined m := by
  simp only [callHost, inspect, bind, EStateM.bind, h]
  rfl

/-- A native other than `map`, applied to its arguments. -/
def runNative (action : NativeAction) (site : Token) (args : List Value) : Eval Value := do
  match action, args with
  | .print, v :: _ => printLine site (← inspect fun m => v.text m.heap)
  | .readLine, _ => readLine site
  | .len, v :: _ => lengthOf site v
  | .push, v :: w :: _ => pushElement site v w
  | .clock, _ => readClock site
  | .host index held, vs => callHost index held site vs
  | _, _ => return .undefined

/-! ### Tasks -/

/-- A part of an evaluation that may call other parts, with the type of what it yields. -/
inductive Task : Type → Type where
  | expr (e : Expr) : Task Value
  | property (target : Value) (name : Token) : Task Value
  | call (callee : Value) (site : Token) (args : List Value) : Task Value
  | stmt (s : Stmt) : Task Signal
  /-- A loop from the test of its condition on. -/
  | loop (condition : Expr) (body : Stmt) (token : Token) : Task Signal

/-- A way to carry out tasks. -/
abbrev Interpreter := {α : Type} → Task α → Eval α

section

variable (self : Interpreter)

/-! ### Expressions -/

/-- Evaluates expressions in order. -/
def evalExprs : List Expr → Eval (List Value)
  | [] => return []
  | e :: es => do
    let v ← self (.expr e)
    return v :: (← evalExprs es)

/-- Evaluates the properties of an object literal in order. -/
def evalEntries : List Entry → Eval (Record Value)
  | [] => return []
  | .mk key e :: entries => do
    let v ← self (.expr e)
    return (key.lexeme, v) :: (← evalEntries entries)

/-- Evaluates the operands of an operator and applies it. -/
def evalBinary (left : Expr) (operator : Token) (right : Expr) : Eval Value := do
  let v ← self (.expr left)
  let w ← self (.expr right)
  liftAt operator (← inspect fun m => applyBinary m.heap operator v w)

/-- Evaluates `&&` and `||`, the right operand only if it decides. -/
def evalLogical (left : Expr) (operator : Token) (right : Expr) : Eval Value := do
  let b ← logicalOperand operator (← self (.expr left))
  if decides operator b then return .bool b
  else return .bool (← logicalOperand operator (← self (.expr right)))

/-- Evaluates the operand of a unary operator and applies it. -/
def evalUnary (operator : Token) (operand : Expr) : Eval Value := do
  liftAt operator (applyUnary operator (← self (.expr operand)))

/-- Evaluates a literal.  A list or object is a new one each time. -/
def evalLiteral : LiteralValue → Eval Value
  | .num x => return .num x
  | .str s => return .str s
  | .bool b => return .bool b
  | .null => return .null
  | .undefined => return .undefined
  | .emptyObject => return .object (← newRecord [])
  | .list elements => do newList (← evalExprs self elements).toArray

/-- Evaluates an object literal. -/
def evalObject (entries : List Entry) : Eval Value := do
  return .object (← newRecord (← evalEntries self entries))

/-- Makes a function that has no name. -/
def evalFunction (declaration : FunctionDecl) : Eval Value := do
  let identity ← newIdentity
  return .function ⟨identity, declaration, ← inspect (·.frame), true⟩

/-- Evaluates a call: the callee, the arguments, then the call itself. -/
def evalCall (callee : Expr) (paren : Token) (args : List Expr) : Eval Value := do
  let f ← self (.expr callee)
  let vs ← evalExprs self args
  self (.call f paren vs)

/-- Evaluates `name[index]`. -/
def evalIndex (id : NodeId) (name : Token) (index : Expr) : Eval Value := do
  let target ← readVariable id name
  readElement name target (← self (.expr index))

/-- Evaluates `object.name`. -/
def evalGet (object : Expr) (name : Token) : Eval Value := do
  self (.property (← self (.expr object)) name)

/-- Evaluates `object.name = value`; the value only if the object has fields. -/
def evalSet (object : Expr) (name : Token) (value : Expr) : Eval Value := do
  let ref ← fieldsOf name (← self (.expr object))
  let v ← self (.expr value)
  writeRecord ref name.lexeme v
  return v

/-- Evaluates `name = value`. -/
def evalAssign (id : NodeId) (name : Token) (value : Expr) : Eval Value := do
  let v ← self (.expr value)
  writeVariable id name v
  return v

/-- Evaluates an expression. -/
def evalExpr : Expr → Eval Value
  | .grouping inner => self (.expr inner)
  | .binary left operator right =>
    if isLogical operator then evalLogical self left operator right
    else evalBinary self left operator right
  | .unary operator operand => evalUnary self operator operand
  | .literal _ value => evalLiteral self value
  | .name id token => readVariable id token
  | .this id keyword => readVariable id keyword
  | .function _ declaration => evalFunction declaration
  | .call callee paren args => evalCall self callee paren args
  | .index id name index => evalIndex self id name index
  | .get object name => evalGet self object name
  | .set object name value => evalSet self object name value
  | .object _ entries => evalObject self entries
  | .assign id name value => evalAssign self id name value

/-- Reads a property of a value.  A list or string is wrapped first. -/
def property (target : Value) (name : Token) : Eval Value :=
  match target with
  | .instance i => instanceProperty i name
  | .object ref => objectProperty ref name
  | v =>
    match wrapperName? v with
    | none => raise name (.noProperties v.typeName)
    | some wrapper => do
      match ← inspect (globalClass? · wrapper) with
      | none => raise name (.noWrapper name.lexeme v.typeName wrapper)
      | some c => self (.property (← self (.call (.cls c) name [v])) name)

/-! ### Statements -/

/-- Executes statements in order, up to one that leaves the function. -/
def execAll : List Stmt → Eval Signal
  | [] => return .proceed
  | s :: ss => do
    match ← self (.stmt s) with
    | .returned v => return .returned v
    | .proceed => execAll ss

/-- Executes statements in a new frame. -/
def execBlock (statements : List Stmt) : Eval Signal := do
  let frame ← newFrame (.block statements) (← inspect (·.frame)) []
  inFrame frame (execAll self statements)

/-- The value that a variable starts with: that of an expression statement, else `undefined`. -/
def evalInit : Option Stmt → Eval Value
  | some (.expression e _) => self (.expr e)
  | some s => do
    let _ ← self (.stmt s)
    return .undefined
  | none => return .undefined

/-- Executes `name[index] = value`. -/
def execIndexAssign (id : NodeId) (name : Token) (index value : Expr) : Eval Signal := do
  let target ← readVariable id name
  let i ← self (.expr index)
  let v ← self (.expr value)
  writeElement name target i v
  return .proceed

/-- Evaluates the condition of a conditional or loop. -/
def evalCondition (condition : Expr) (keyword : Token) : Eval Bool := do
  match ← self (.expr condition) with
  | .bool b => return b
  | v => raise keyword (.conditionType keyword.lexeme v.typeName)

/-- Executes a conditional. -/
def execCond (keyword : Token) (condition : Expr) (thenBranch : Stmt)
    (elseBranch : Option Stmt) : Eval Signal := do
  if ← evalCondition self condition keyword then self (.stmt thenBranch)
  else
    match elseBranch with
    | some s => self (.stmt s)
    | none => return .proceed

/-- Executes a loop from the test of its condition on. -/
def execLoop (condition : Expr) (body : Stmt) (token : Token) : Eval Signal := do
  if ← evalCondition self condition token then
    match ← self (.stmt body) with
    | .returned v => return .returned v
    | .proceed => self (.loop condition body token)
  else return .proceed

/-- Executes the values of an object statement. -/
def execProperties : List StmtEntry → Eval Signal
  | [] => return .proceed
  | .mk _ s :: properties => do
    let _ ← self (.stmt s)
    execProperties properties

/-- Executes a function declaration. -/
def execFunction (declaration : FunctionDecl) : Eval Signal := do
  let identity ← newIdentity
  let frame ← inspect (·.frame)
  declareVariable declaration.name (.function ⟨identity, declaration, frame, false⟩)
  return .proceed

/-- Executes a class declaration. -/
def execClass (declaration : ClassDecl) : Eval Signal := do
  let identity ← newIdentity
  let frame ← inspect (·.frame)
  declareVariable declaration.name (.cls ⟨identity, declaration, frame⟩)
  return .proceed

/-- Executes `return`; anything but an expression statement counts as `undefined`. -/
def execReturn : Stmt → Eval Signal
  | .expression e _ => do return .returned (← self (.expr e))
  | _ => return .returned .undefined

/-- Executes a statement. -/
def exec : Stmt → Eval Signal
  | .empty => return .proceed
  | .block statements => execBlock self statements
  | .expression e _ => do
    let _ ← self (.expr e)
    return .proceed
  | .variable name _ _ init => do
    let v ← evalInit self init
    declareVariable name v
    return .proceed
  | .indexAssign id name index value => execIndexAssign self id name index value
  | .functionDecl declaration => execFunction declaration
  | .cond keyword condition thenBranch elseBranch =>
    execCond self keyword condition thenBranch elseBranch
  | .loop condition body token => self (.loop condition body token)
  | .returns _ value => execReturn self value
  | .object properties => execProperties self properties
  | .classDecl declaration => execClass declaration

/-! ### Calls -/

/-- Runs the body of a function on its arguments, in a new frame inside `frame`. -/
def runBody (declaration : FunctionDecl) (frame : FrameId) (args : List Value) : Eval Value := do
  let vars ← bindParameters declaration.params args []
  let own ← newFrame (.function declaration) frame vars
  match ← inFrame own (execAll self declaration.body) with
  | .returned v => return v
  | .proceed => return .undefined

/-- Runs a bound method; a constructor yields its instance. -/
def runMethod (b : Method) (args : List Value) : Eval Value := do
  let v ← runBody self b.declaration b.frame args
  return if b.isConstructor then .instance b.receiver else v

/-- Initialises fields in order, each expression in the frame `frame`. -/
def initFields (frame : FrameId) (ref : Ref) : List FieldDecl → Eval Unit
  | [] => return
  | .mk name _ init :: fields => do
    let v ← inFrame frame (self (.expr init))
    writeRecord ref name.lexeme v
    initFields frame ref fields

/-- Makes an instance: its fields in order, then its constructor. -/
def instantiate (c : Class) (args : List Value) : Eval Value := do
  let i : Instance := ⟨c, ← newRecord []⟩
  if !c.declaration.fields.isEmpty then
    let frame ← bindThis i
    initFields self frame i.fields c.declaration.fields
  match c.declaration.method? ClassDecl.constructorName with
  | some declaration =>
    let _ ← runMethod self (← bindMethod i declaration) args
    return .instance i
  | none => return .instance i

/-- Calls a value with each of the elements in order. -/
def callEach (f : Value) (site : Token) : List Value → Eval (List Value)
  | [] => return []
  | v :: vs => do
    let w ← self (.call f site [v])
    return w :: (← callEach f site vs)

/-- The native `map`: a new list of the results for the elements that the list has now. -/
def mapList (site : Token) (args : List Value) : Eval Value :=
  match args with
  | .list ref :: f :: _ => do
    let elements ← inspect fun m => (m.heap.elements ref).toList
    newList (← callEach self f site elements).toArray
  | v :: _ => raise site (.mapNeedsList v.typeName)
  | [] => return .undefined

/-- What a call does, once it is allowed. -/
def invoke (callee : Value) (site : Token) (args : List Value) : Eval Value :=
  match callee with
  | .function f => runBody self f.declaration f.frame args
  | .method b => runMethod self b args
  | .native (.mk _ _ _ .map) => mapList self site args
  | .native n => runNative n.action site args
  | .cls c => instantiate self c args
  | _ => return .undefined

/-- Calls a value from the token `site`. -/
def callValue (callee : Value) (site : Token) (args : List Value) : Eval Value := do
  match callee.arity? with
  | none => raise site (.notCallable callee.typeName)
  | some arity =>
    if arity ≠ args.length then raise site (.wrongArity arity args.length)
    else if Machine.maxDepth ≤ (← inspect (·.depth)) then raise site .stackOverflow
    else asCall (invoke self callee site args)

/-! ### Running -/

/-- Carries out a task, leaving the tasks inside it to `self`. -/
def step : {α : Type} → Task α → Eval α
  | _, .expr e => evalExpr self e
  | _, .property target name => property self target name
  | _, .call callee site args => callValue self callee site args
  | _, .stmt s => exec self s
  | _, .loop condition body token => execLoop self condition body token

/-- Runs the statements of a program and yields the value of the last expression statement among
them; `last` is the value so far. -/
def runProgram : Program → Value → Eval Value
  | [], last => return last
  | .expression e _ :: ss, _ => do runProgram ss (← self (.expr e))
  | s :: ss, last => do
    let _ ← self (.stmt s)
    runProgram ss last

end

/-- Carries out a task.  The bound is on the number of tasks inside one another. -/
def run : Nat → Interpreter
  | 0, _, _ => throw .outOfFuel
  | fuel + 1, _, t => step (run fuel) t

end Evaluation

end ScopedScript
