import ScopedScript.Session

/-! # The command line

The program takes one argument, the file to run, or none, and then runs what it reads from its
standard input.  What it answers depends on the arguments, the bytes it reads and the bytes of the
file alone:

* exit code `64` and a usage text for any other arguments;
* `66` if the source cannot be read;
* `65` for an error found before the program runs, `70` for one while it runs;
* `0` otherwise. -/

namespace ScopedScript.CommandLine

/-- What the arguments ask for. -/
inductive Command where
  | usage
  | runFile (path : String)
  | runInput
  deriving DecidableEq, Repr

/-- The command that arguments spell. -/
def Command.ofArgs (args : List String) : Command :=
  if args.any fun a => a == "-h" || a == "--help" then .usage
  else
    match args with
    | [] => .runInput
    | [path] => .runFile path
    | _ => .usage

/-- What the program leaves behind. -/
structure Answer where
  exitCode : Nat
  output : String
  errors : String
  deriving DecidableEq, Repr

/-- How the program is used. -/
def usage : String :=
  "Usage: astrum [file.astr]\n\n" ++
  "Runs the given file, or the program read from stdin when no file is given.\n" ++
  "Set ASTRUM_LOG (e.g. ASTRUM_LOG=astrum=debug) to trace the interpreter.\n"

/-- The answer to arguments that ask for nothing that can be done. -/
def usageAnswer : Answer := ⟨64, "", usage⟩

/-- The answer when the source cannot be read. -/
def unreadable (what why : String) : Answer :=
  ⟨66, "", "error: could not read " ++ what ++ ": " ++ why ++ "\n"⟩

/-- How a reader is told of a file. -/
def quotePath (path : String) : String := "'" ++ path ++ "'"

/-- Runs a source that has been read, or says that it is no text.  `what` tells a reader where the
source came from, and `input` is what the program may read. -/
def runBytes (fuel : Nat) (clock : Clock) (what name : String) (source input : List UInt8) :
    Answer :=
  match decodeText? source with
  | none => unreadable what "stream did not contain valid UTF-8"
  | some text =>
    let (outcome, s) := (Session.start true input none clock).run fuel name text
    let (output, s) := s.takeOutput
    match outcome with
    | .value _ | .unfinished => ⟨0, output, ""⟩
    | .failed e => ⟨if e.isStatic then 65 else 70, output, s.report e ++ "\n"⟩

/-- Runs a file, or says why it could not be read. -/
def runFile (fuel : Nat) (clock : Clock) (path : String) (content : Except String (List UInt8))
    (input : List UInt8) : Answer :=
  match content with
  | .error why => unreadable (quotePath path) why
  | .ok source => runBytes fuel clock (quotePath path) path source input

/-- Runs the input as a source; nothing of it is left for the program to read. -/
def runInput (fuel : Nat) (clock : Clock) (input : List UInt8) : Answer :=
  runBytes fuel clock "stdin" "<stdin>" input []

/-- The answer to arguments, with the contents of files and the standard input at hand. -/
def answer (fuel : Nat) (clock : Clock) (args : List String)
    (read : String → Except String (List UInt8)) (input : List UInt8) : Answer :=
  match Command.ofArgs args with
  | .usage => usageAnswer
  | .runFile path => runFile fuel clock path (read path) input
  | .runInput => runInput fuel clock input

end ScopedScript.CommandLine
