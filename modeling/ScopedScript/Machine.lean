import ScopedScript.Host
import ScopedScript.Scope

/-! # The machine

The state in which programs run, and the elementary steps on it.

* **Frames.** Each entry into a scope makes a frame: a record of variables and the frame around
  it, with the region of the program that was entered.  Frame `0` holds the globals and has none
  around it.  Frames stay, because functions made in them may outlive the scope.
* **Heap.** The contents of lists, objects and instances, and the next identity to give out.
* **Distances.** What the scope analysis found, for every program run so far.
* **Where it is.** The current frame and the number of calls under way.
* **Outside.** The sink that printing writes to, the input still to be read, the clock, and the
  functions that the host has registered.

A step either yields a result or stops the program, and it leaves a machine in both cases. -/

namespace ScopedScript

/-! ### Output and input -/

/-- Where printing goes.  A sink with a limit refuses everything once that many line feeds have
gone through. -/
structure Sink where
  /-- The texts written, the last one first. -/
  written : List String := []
  lineFeeds : Nat := 0
  limit : Option Nat := none

namespace Sink

/-- Does the sink refuse everything? -/
def isFull (s : Sink) : Bool :=
  match s.limit with
  | some n => n ≤ s.lineFeeds
  | none => false

/-- One write, which goes through as a whole or not at all. -/
def write (s : Sink) (text : String) : Option Sink :=
  if s.isFull then none
  else some { s with
    written := text :: s.written
    lineFeeds := s.lineFeeds + text.toList.count '\n' }

/-- Everything written. -/
def text (s : Sink) : String := String.join s.written.reverse

end Sink

/-- The bytes of the first line of an input, its line feed included, and the bytes after it. -/
def splitLine (input : List UInt8) : List UInt8 × List UInt8 :=
  match input.dropWhile (· != 10) with
  | feed :: rest => (input.takeWhile (· != 10) ++ [feed], rest)
  | [] => (input, [])

/-- The text that bytes encode. -/
def decodeText? (bytes : List UInt8) : Option String :=
  String.fromUTF8? ⟨bytes.toArray⟩

/-- A text without the line feeds and carriage returns at its end. -/
def trimLineEnd (s : String) : String :=
  String.ofList (s.toList.reverse.dropWhile fun c => c == '\n' || c == '\r').reverse

/-! ### The clock -/

/-- The readings of the clock in the order in which they are taken, in seconds.  A reading fails where
the clock stands before the time that it counts from. -/
abbrev Clock := Nat → Option Float

/-- A clock that stands still. -/
def Clock.still (time : Float) : Clock := fun _ => some time

/-! ### The state -/

/-- A part of a program that has variables of its own. -/
inductive Region where
  | globals
  | block (statements : List Stmt)
  /-- The parameters and the body of a function. -/
  | function (declaration : FunctionDecl)
  /-- What surrounds the body of a class, where `this` is a variable. -/
  | receiver (cls : ClassDecl)

/-- The variables of one scope at run time, the frame around it, and the part of the program that
it was made for. -/
structure Frame where
  region : Region
  parent : Option FrameId
  vars : Record Value

/-- The state in which programs run. -/
structure Machine where
  frames : Array Frame := #[⟨.globals, none, []⟩]
  heap : Heap := {}
  nextIdentity : Nat := 0
  distances : Distances := {}
  frame : FrameId := 0
  depth : Nat := 0
  sink : Sink := {}
  input : List UInt8 := []
  clock : Clock := .still 0.0
  /-- The number of readings that have been taken of the clock. -/
  ticks : Nat := 0
  hosts : Array HostFunction := #[]

namespace Machine

/-- The frame of the globals. -/
def globalFrame : FrameId := 0

/-- The most calls that may be under way. -/
def maxDepth : Nat := 1024

/-- The variables of a frame. -/
def vars (m : Machine) (frame : FrameId) : Record Value :=
  match m.frames[frame]? with
  | some f => f.vars
  | none => []

/-- The frame `distance` steps outwards. -/
def outward? (frames : Array Frame) : Nat → FrameId → Option FrameId
  | 0, frame => some frame
  | distance + 1, frame =>
    match frames[frame]? with
    | some ⟨_, some parent, _⟩ => outward? frames distance parent
    | _ => none

/-- The frame in which a variable node finds its variable: at its distance from the current frame,
or the globals if it has none. -/
def home? (m : Machine) (id : NodeId) : Option FrameId :=
  match m.distances[id]? with
  | some distance => outward? m.frames distance m.frame
  | none => some globalFrame

/-- The value of a variable node. -/
def lookup? (m : Machine) (id : NodeId) (name : String) : Option Value :=
  match m.home? id with
  | some frame => (m.vars frame).get? name
  | none => none

/-- The machine with a variable of a frame set. -/
def setVariable (m : Machine) (frame : FrameId) (name : String) (value : Value) : Machine :=
  { m with frames := m.frames.modify frame fun f =>
      { f with vars := f.vars.set name value } }

/-- The machine with a new frame, which is the last. -/
def pushFrame (m : Machine) (region : Region) (parent : FrameId) (vars : Record Value) : Machine :=
  { m with frames := m.frames.push ⟨region, some parent, vars⟩ }

end Machine

/-! ### Steps -/

/-- How a step stops a program: by a fault of the program, or because the bound on the depth of
the evaluation is used up. -/
inductive Stop where
  | raised (error : RuntimeError)
  | outOfFuel

/-- A step of the machine. -/
abbrev Eval := EStateM Stop Machine

namespace Eval

variable {α : Type}

/-- Stops the program. -/
def raise (token : Token) (fault : RuntimeFault) : Eval α := throw (.raised ⟨fault, token⟩)

/-- A result that is there, or a fault. -/
def orRaise (token : Token) (fault : RuntimeFault) : Option α → Eval α
  | some a => pure a
  | none => raise token fault

/-- Looks at the machine. -/
def inspect (f : Machine → α) : Eval α := fun m => .ok (f m) m

/-- Runs a step in another frame and comes back. -/
def inFrame (frame : FrameId) (step : Eval α) : Eval α := fun m =>
  let here := m.frame
  match step { m with frame := frame } with
  | .ok a m' => .ok a { m' with frame := here }
  | .error e m' => .error e { m' with frame := here }

/-- Runs a step as a call, one level deeper. -/
def asCall (step : Eval α) : Eval α := fun m =>
  match step { m with depth := m.depth + 1 } with
  | .ok a m' => .ok a { m' with depth := m'.depth - 1 }
  | .error e m' => .error e { m' with depth := m'.depth - 1 }

/-- A new list. -/
def newList (elements : Array Value) : Eval Value := fun m =>
  .ok (.list m.heap.lists.size)
    { m with heap := { m.heap with lists := m.heap.lists.push elements } }

/-- A new record. -/
def newRecord (record : Record Value) : Eval Ref := fun m =>
  .ok m.heap.records.size
    { m with heap := { m.heap with records := m.heap.records.push record } }

/-- A new frame inside `parent`. -/
def newFrame (region : Region) (parent : FrameId) (vars : Record Value) : Eval FrameId := fun m =>
  .ok m.frames.size (m.pushFrame region parent vars)

/-- A new identity. -/
def newIdentity : Eval Nat := fun m =>
  .ok m.nextIdentity { m with nextIdentity := m.nextIdentity + 1 }

/-- The value of a variable node. -/
def readVariable (id : NodeId) (name : Token) : Eval Value := do
  orRaise name (.undefinedVariable name.lexeme) (← inspect (·.lookup? id name.lexeme))

/-- Gives a value to the variable of a node, which must be there. -/
def writeVariable (id : NodeId) (name : Token) (value : Value) : Eval Unit := do
  let home ← inspect fun m =>
    match m.home? id with
    | some frame => if (m.vars frame).has name.lexeme then some frame else none
    | none => none
  let frame ← orRaise name (.undefinedVariable name.lexeme) home
  modify (·.setVariable frame name.lexeme value)

/-- Declares a variable in the current frame, which must not have it. -/
def declareVariable (name : Token) (value : Value) : Eval Unit := do
  if ← inspect fun m => (m.vars m.frame).has name.lexeme then
    raise name (.alreadyDeclared name.lexeme)
  modify fun m => m.setVariable m.frame name.lexeme value

/-- One write to the sink. -/
def write (site : Token) (text : String) : Eval Unit := fun m =>
  match m.sink.write text with
  | some sink => .ok () { m with sink := sink }
  | none => raise site .sinkFull m

end Eval

end ScopedScript
