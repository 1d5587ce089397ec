import ScopedScript.Error
import ScopedScript.Evaluation
import ScopedScript.Grammar.Program
import ScopedScript.Prelude
import ScopedScript.SourceMap

/-! # Sessions

A session runs sources one after another on the same machine, so that later sources see the
globals of earlier ones.  A source is scanned, parsed and analysed as a whole before any of it
runs; a source with an error at one of these stages changes the layout of lines, the numbers of
later nodes and the table of distances, but nothing that a program can see.

The prelude, if the session has one, goes in front of the first source that passes the analysis.
Its lines are laid out when the first source is run, before those of that source. -/

namespace ScopedScript

/-- Sources run one after another. -/
structure Session where
  machine : Machine := {}
  sources : SourceMap := {}
  /-- Does the prelude still have to run? -/
  preludePending : Bool := true
  /-- The tokens of the prelude without the end mark, once it has been laid out. -/
  preludeTokens : Option (List Token) := none
  /-- The number for the next variable node. -/
  nextId : NodeId := 0

/-- What running a source comes to. -/
inductive Outcome where
  /-- The value of the last expression statement at the top level. -/
  | value (value : Value)
  | failed (error : Error)
  /-- The bound on the depth of the evaluation was too small. -/
  | unfinished

/-- A value that the outside world hands to a session. -/
inductive Datum where
  | scalar (scalar : Scalar)
  | list (elements : List Datum)
  deriving Inhabited

mutual

/-- Puts a value from outside on the heap. -/
def Datum.load (h : Heap) : Datum → Value × Heap
  | .scalar s => (s.toValue, h)
  | .list elements =>
    let (values, h) := Datum.loadAll h elements
    (.list h.lists.size, { h with lists := h.lists.push values.toArray })

/-- Puts values from outside on the heap. -/
def Datum.loadAll (h : Heap) : List Datum → List Value × Heap
  | [] => ([], h)
  | d :: ds =>
    let (v, h) := Datum.load h d
    let (vs, h) := Datum.loadAll h ds
    (v :: vs, h)

end

/-- The machine with a native among its globals, in place of anything of that name. -/
def Machine.defineNative (m : Machine) (name : String) (arity : Nat) (action : NativeAction) :
    Machine :=
  let native := Native.mk m.nextIdentity name arity action
  { m.setVariable Machine.globalFrame name (.native native) with
    nextIdentity := m.nextIdentity + 1 }

/-- The machine with a function of the host among its globals, and on the heap what the function
holds. -/
def Machine.defineHost (m : Machine) (name : String) (arity : Nat) (f : HostFunction)
    (held : Datum) : Machine :=
  let (held, heap) := held.load m.heap
  { m with heap := heap, hosts := m.hosts.push f }.defineNative name arity (.host m.hosts.size held)

/-- The natives that every program can use. -/
def builtins : List (String × Nat × NativeAction) :=
  [("print", 1, .print), ("readLine", 0, .readLine), ("map", 2, .map), ("len", 1, .len),
   ("push", 2, .push), ("clock", 0, .clock)]

/-- A machine that nothing has run on. -/
def Machine.initial (input : List UInt8) (limit : Option Nat) (clock : Clock) : Machine :=
  let empty : Machine := { input := input, sink := { limit := limit }, clock := clock }
  builtins.foldl (fun m b => m.defineNative b.1 b.2.1 b.2.2) empty

namespace Session

/-- A session that nothing has run in. -/
def start (prelude : Bool) (input : List UInt8) (limit : Option Nat) (clock : Clock) : Session :=
  { machine := Machine.initial input limit clock, preludePending := prelude }

/-- The session with a function of the host among the globals, and on the heap what the function
holds. -/
def defineNative (s : Session) (name : String) (arity : Nat) (f : HostFunction) (held : Datum) :
    Session :=
  { s with machine := s.machine.defineHost name arity f held }

/-- Lays out a source that is to go in front of others, if that is still to be done: its tokens
without the end mark. -/
def layFirst (s : Session) (name source : String) : Except ScanError (List Token) × Session :=
  match s.preludeTokens with
  | some tokens => (.ok tokens, s)
  | none =>
    let (line, sources) := s.sources.add name source
    let s := { s with sources := sources }
    match tokenizeFrom line source with
    | .error e => (.error e, s)
    | .ok tokens => (.ok tokens.dropLast, { s with preludeTokens := some tokens.dropLast })

/-- Lays out the prelude, if that is still to be done: its tokens without the end mark. -/
def layPrelude (s : Session) : Except ScanError (List Token) × Session :=
  s.layFirst Prelude.name Prelude.source

/-- The tokens to go in front of the next source. -/
def leadingTokens (s : Session) : Except ScanError (List Token) × Session :=
  if s.preludePending then s.layPrelude else (.ok [], s)

/-- Lays out a source after the leading tokens, and scans it. -/
def scanSource (s : Session) (name source : String) : Except ScanError (List Token) × Session :=
  match s.leadingTokens with
  | (.error e, s) => (.error e, s)
  | (.ok leading, s) =>
    let (line, sources) := s.sources.add name source
    let tokens := (tokenizeFrom line source).map fun tokens =>
      leading ++ tokens.map (Token.shift leading.length)
    (tokens, { s with sources := sources })

/-- Runs a program that has passed the analysis. -/
def execute (s : Session) (fuel : Nat) (program : Program) : Outcome × Session :=
  match Evaluation.runProgram (Evaluation.run fuel) program .undefined s.machine with
  | .ok v m => (.value v, { s with machine := m })
  | .error (.raised e) m => (.failed (.runtime e), { s with machine := m })
  | .error .outOfFuel m => (.unfinished, { s with machine := m })

/-- Scans, parses and analyses a source under a name: the program, or what the run comes to
without one. -/
def load (s : Session) (name source : String) : Except Outcome Program × Session :=
  match s.scanSource name source with
  | (.error e, s) => (.error (.failed (.scan e)), s)
  | (.ok tokens, s) =>
    match parseFrom s.nextId tokens with
    | .error (.rejected e) => (.error (.failed (.parse e)), s)
    -- a scanned row has an end mark, so neither arises (`parseFrom_decides`)
    | .error .outOfRange | .error .outOfFuel => (.error .unfinished, s)
    | .ok (program, nextId) =>
      let (resolved, distances) := resolve s.machine.distances program
      let s := { s with
        nextId := nextId
        machine := { s.machine with distances := distances } }
      match resolved with
      | .error e => (.error (.failed (.scope e)), s)
      | .ok () => (.ok program, { s with preludePending := false })

/-- Runs a source under a name.  `fuel` bounds the depth of the evaluation. -/
def run (s : Session) (fuel : Nat) (name source : String) : Outcome × Session :=
  match s.load name source with
  | (.error outcome, s) => (outcome, s)
  | (.ok program, s) => s.execute fuel program

/-- What has been written since the output was last taken, and the session without it. -/
def takeOutput (s : Session) : String × Session :=
  (s.machine.sink.text,
    { s with machine := { s.machine with sink := { s.machine.sink with written := [] } } })

/-- An error with the name of its source and the line within it. -/
def report (s : Session) (e : Error) : String :=
  let (name, line) := s.sources.locate e.line
  name ++ ":" ++ toString line ++ ":" ++ toString e.column ++ ": " ++ e.message

end Session

end ScopedScript
