import ScopedScript.CommandLine

/-! # The executable

Reads the arguments, the file and the standard input, and leaves the rest to
`ScopedScript.CommandLine`. -/

namespace ScopedScript.Main

/-- All the bytes of a stream, after those read so far. -/
partial def readAll (stream : IO.FS.Stream) (bytes : ByteArray) : IO ByteArray := do
  let more ← stream.read 65536
  if more.isEmpty then return bytes else readAll stream (bytes ++ more)

/-- Why a file cannot be read. -/
def reason : IO.Error → String
  | .noFileOrDirectory .. => "No such file or directory (os error 2)"
  | .inappropriateType .. => "Is a directory (os error 21)"
  | e => e.toString

/-- The bytes of a file, or why it cannot be read. -/
def readFile (path : String) : IO (Except String (List UInt8)) := do
  try return .ok (← IO.FS.readBinFile path).toList
  catch e => return .error (reason e)

/-- A bound on the depth of the evaluation that no run reaches. -/
def fuel : Nat := 1000000000000000000

/-- The answer to the arguments. -/
def answer (args : List String) : IO CommandLine.Answer := do
  let clock := Clock.still ((← IO.monoMsNow).toFloat / 1000.0)
  match CommandLine.Command.ofArgs args with
  | .usage => return CommandLine.usageAnswer
  | .runFile path =>
    let content ← readFile path
    let input ← readAll (← IO.getStdin) ByteArray.empty
    return CommandLine.runFile fuel clock path content input.toList
  | .runInput =>
    let input ← readAll (← IO.getStdin) ByteArray.empty
    return CommandLine.runInput fuel clock input.toList

end ScopedScript.Main

/-- Runs the file named by the arguments, or the standard input. -/
def main (args : List String) : IO UInt32 := do
  let answer ← ScopedScript.Main.answer args
  (← IO.getStdout).putStr answer.output
  (← IO.getStderr).putStr answer.errors
  return answer.exitCode.toUInt32
