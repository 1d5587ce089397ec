import ScopedScript.Tree

/-! # Reading a row of tokens

A `Cursor` is a place in a row of tokens: the token last taken and the tokens still to come.  The
end mark is never taken, so a row that has one is never read past it.  A row without one ends at
its last token, which then stays in view; taking a token where none is left looks at a place of the row
that does not exist, and reading breaks off there.

`Parse` is the monad of productions: it moves a cursor, hands out the numbers of variable nodes,
and stops at the first fault. -/

namespace ScopedScript

namespace Grammar

/-- What a production looked for. -/
inductive Expectation where
  | className | classOpen | memberName | fieldAssign | classClose
  | functionName | functionParen | parameterName | parametersClose
  | blockOpen | blockClose
  | ifParen | ifClose | whileParen | whileClose | forParen | loopSemicolon | forClose
  | variableName | variableAssign | initializer
  | indexOpen | indexClose | indexAssign | statementEnd
  | propertyName | argumentsClose | groupClose | expression | anonymousParen | listClose
  | entryName | entryColon | objectClose
  | typeArgumentsClose | arrow | tupleClose | type | typeEntryName | typeEntryColon
  | objectTypeClose
  deriving DecidableEq, Repr

/-- The words for what was looked for. -/
def Expectation.text : Expectation → String
  | .className => "class name"
  | .classOpen => "'\x7b' before class body"
  | .memberName => "method or field name in class body"
  | .fieldAssign => "'=' after field name"
  | .classClose => "'\x7d' after class body"
  | .functionName => "function name"
  | .functionParen => "'(' after function name"
  | .parameterName => "parameter name"
  | .parametersClose => "')' after parameters"
  | .blockOpen => "'\x7b' before block"
  | .blockClose => "'\x7d' after block"
  | .ifParen => "'(' after 'if'"
  | .ifClose => "')' after if condition"
  | .whileParen => "'(' after 'while'"
  | .whileClose => "')' after while condition"
  | .forParen => "'(' after 'for'"
  | .loopSemicolon => "';' after loop condition"
  | .forClose => "')' after for clauses"
  | .variableName => "variable name"
  | .variableAssign => "'=' after variable name"
  | .initializer => "expression after '='"
  | .indexOpen => "'[' after name"
  | .indexClose => "']' after index"
  | .indexAssign => "'=' after index"
  | .statementEnd => "';', newline or '\x7d' after statement"
  | .propertyName => "property name after '.'"
  | .argumentsClose => "')' after arguments"
  | .groupClose => "')' after expression"
  | .expression => "expression"
  | .anonymousParen => "'(' after 'function'"
  | .listClose => "']' after list elements"
  | .entryName => "property name in object literal"
  | .entryColon => "':' after property name"
  | .objectClose => "'\x7d' after object literal"
  | .typeArgumentsClose => "'>' after type arguments"
  | .arrow => "'=>' after function type parameters"
  | .tupleClose => "']' after tuple type"
  | .type => "type"
  | .typeEntryName => "property name in object type"
  | .typeEntryColon => "':' after property name"
  | .objectTypeClose => "'\x7d' after object type"

/-- Why a row of tokens is no program. -/
inductive Fault where
  | expected (what : Expectation)
  | tooManyParameters
  | tooManyArguments
  | invalidTarget
  | malformedNumber
  deriving DecidableEq, Repr

/-- The most parameters a function, and the most arguments a call, may have. -/
def maxArguments : Nat := 255

/-- The message of a fault. -/
def Fault.message : Fault → String
  | .expected what => "Expect " ++ what.text ++ "."
  | .tooManyParameters => "Can't have more than 255 parameters."
  | .tooManyArguments => "Can't have more than 255 arguments."
  | .invalidTarget => "Invalid assignment target."
  | .malformedNumber => "Malformed number literal."

end Grammar

/-- A fault at the token that has it. -/
structure ParseError where
  fault : Grammar.Fault
  token : Token

namespace Grammar

/-- How reading stops short of a tree. -/
inductive Failure where
  /-- The row is no program. -/
  | rejected (error : ParseError)
  /-- A token was taken past the end of a row without an end mark: the place that was looked at does
  not exist, and reading breaks off without a verdict. -/
  | outOfRange
  /-- The bound on the depth of the productions, which is the model's own, was too small. -/
  | outOfFuel

/-- A place in a row of tokens, and the number for the next variable node. -/
structure Cursor where
  /-- The token last taken; before any is taken, the first of the row. -/
  last : Token
  rest : List Token
  nextId : NodeId

namespace Cursor

/-- The token in view. -/
def peek (c : Cursor) : Token := c.rest.head?.getD c.last

/-- Is the end mark in view? -/
def atEnd (c : Cursor) : Bool := c.peek.kind == .endMark

/-- Is a token of this kind in view?  The end mark counts as no kind. -/
def check (c : Cursor) (kind : Token.Kind) : Bool := !c.atEnd && c.peek.kind == kind

/-- Is the token after the one in view of this kind? -/
def checkNext (c : Cursor) (kind : Token.Kind) : Bool :=
  match c.rest.tail.head? with
  | some t => t.kind == kind
  | none => false

end Cursor

/-- A production: it reads from a cursor and leaves it where it stopped. -/
abbrev Parse := StateT Cursor (Except Failure)

/-- Reports a fault at a token. -/
def failAt {α : Type} (token : Token) (fault : Fault) : Parse α :=
  throw (.rejected ⟨fault, token⟩)

/-- The token in view. -/
def peek : Parse Token := return (← get).peek

/-- Reports that something else was looked for at the token in view. -/
def failExpecting {α : Type} (what : Expectation) : Parse α := do failAt (← peek) (.expected what)

/-- Takes the token in view; the end mark stays. -/
def advance : Parse Token := do
  let c ← get
  match c.rest with
  | [] => throw .outOfRange
  | t :: rest =>
    if t.kind = .endMark then return c.last
    set { c with last := t, rest := rest }
    return t

/-- Takes the token in view if it is of one of the kinds. -/
def acceptAny (kinds : List Token.Kind) : Parse (Option Token) := do
  let c ← get
  if kinds.any c.check then return some (← advance) else return none

/-- Takes the token in view if it is of the kind, and tells whether it was. -/
def accept (kind : Token.Kind) : Parse Bool := do
  if (← get).check kind then
    let _ ← advance
    return true
  else return false

/-- Takes a token of the kind, or reports what was looked for. -/
def expect (kind : Token.Kind) (what : Expectation) : Parse Token := do
  if (← get).check kind then advance else failExpecting what

/-- Moves a cursor past line feeds. -/
def dropNewlines : Token → List Token → Except Failure (Token × List Token)
  | last, [] => if last.kind = .newline then .error .outOfRange else .ok (last, [])
  | last, t :: rest => if t.kind = .newline then dropNewlines t rest else .ok (last, t :: rest)

/-- Takes the line feeds in view. -/
def skipNewlines : Parse Unit := do
  let c ← get
  let (last, rest) ← (dropNewlines c.last c.rest : Except Failure _)
  set { c with last := last, rest := rest }

/-- The number for a new variable node. -/
def freshId : Parse NodeId := do
  let c ← get
  set { c with nextId := c.nextId + 1 }
  return c.nextId

end Grammar

end ScopedScript
