import ScopedScript.Fault
import ScopedScript.Grammar.Cursor
import ScopedScript.Scope
import ScopedScript.Token.Scan

/-! # Errors

The errors that a source can have, from the stage at which it has them.  The first three kinds are
found before anything runs. -/

namespace ScopedScript

/-- An error of a source. -/
inductive Error where
  | scan (error : ScanError)
  | parse (error : ParseError)
  | scope (error : ScopeError)
  | runtime (error : RuntimeError)

namespace Error

/-- The token that has the error, if the source got as far as tokens. -/
def token? : Error → Option Token
  | .scan _ => none
  | .parse e => some e.token
  | .scope e => some e.token
  | .runtime e => some e.token

/-- The line of the error. -/
def line : Error → Nat
  | .scan e => e.position.line
  | .parse e => e.token.line
  | .scope e => e.token.line
  | .runtime e => e.token.line

/-- The column of the error. -/
def column : Error → Nat
  | .scan e => e.position.column
  | .parse e => e.token.column
  | .scope e => e.token.column
  | .runtime e => e.token.column

/-- The message without the place. -/
def message : Error → String
  | .scan e => e.fault.message
  | .parse e => e.fault.message
  | .scope e => e.fault.message
  | .runtime e => e.fault.message

/-- The stage, as messages name it. -/
def stage : Error → String
  | .scan _ => "scanner"
  | .parse _ => "parser"
  | .scope _ => "resolver"
  | .runtime _ => "runtime"

/-- Was the error found before anything ran? -/
def isStatic : Error → Bool
  | .runtime _ => false
  | _ => true

/-- The message with its place and stage. -/
def text (e : Error) : String :=
  "[line " ++ toString e.line ++ ":" ++ toString e.column ++ "] " ++ e.stage ++ " error: " ++
    e.message

end Error

end ScopedScript
