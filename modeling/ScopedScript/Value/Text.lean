import ScopedScript.Heap
import ScopedScript.Text.Quoted

/-! # The text of a value

A list is written in brackets and an object in braces, with their parts written the same way.  A
list or object may contain itself; where it comes up again inside its own text it is written
`[...]` or `{...}`.  The containers that are being written are kept in a row, the innermost first.

Each container that is entered was not in the row before, so there are never more of them open than
the heap holds: that bounds the depth of the recursion. -/

namespace ScopedScript

/-- A list or an object, by its reference. -/
inductive Container where
  | list (ref : Ref)
  | object (ref : Ref)
  deriving DecidableEq, Repr

namespace Value

/-- The text of a value that is not entered: anything but a list or object, or a list or object
that is already being written. -/
def closedText : Value → String
  | .num x => Number.text x
  | .str s => s
  | .bool b => if b then "true" else "false"
  | .null => "null"
  | .undefined => "undefined"
  | .list _ => "[...]"
  | .object _ => "\x7b...\x7d"
  | .function f =>
    if f.anonymous then "<anonymous function>"
    else "<function " ++ f.declaration.name.lexeme ++ ">"
  | .method m => "<function " ++ m.declaration.name.lexeme ++ ">"
  | .native n => "<native fn " ++ n.name ++ ">"
  | .cls c => "<class " ++ c.declaration.name.lexeme ++ ">"
  | .instance i => "<" ++ i.cls.declaration.name.lexeme ++ " instance>"

/-- The text of a value inside the containers of `chain`, entering at most `budget` more. -/
def textWithin (h : Heap) : Nat → List Container → Value → String
  | budget + 1, chain, .list ref =>
    if chain.contains (.list ref) then closedText (.list ref)
    else
      let parts := (h.elements ref).toList.map (textWithin h budget (.list ref :: chain))
      "[" ++ String.intercalate ", " parts ++ "]"
  | budget + 1, chain, .object ref =>
    if chain.contains (.object ref) then closedText (.object ref)
    else
      let parts := (h.record ref).map fun p =>
        p.1 ++ ": " ++ textWithin h budget (.object ref :: chain) p.2
      "\x7b" ++ String.intercalate ", " parts ++ "\x7d"
  | _, _, v => v.closedText

/-- A number of containers that no chain of different ones exceeds. -/
def depthBound (h : Heap) : Nat := h.lists.size + h.records.size + 1

/-- The text of a value. -/
def text (h : Heap) (v : Value) : String := v.textWithin h (depthBound h) []

/-- The text of a value with a string in quotes. -/
def debugText (h : Heap) : Value → String
  | .str s => Text.quote s
  | v => v.text h

end Value

end ScopedScript
