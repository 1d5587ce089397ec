/-! # Sources and their lines

The sources of a session are laid out one after another, with line numbers that run through all of
them.  `add` puts a source at the end and tells the number of its first line; `locate` finds the
source and the line within it that a number stands for. -/

namespace ScopedScript

/-- A source in the layout. -/
structure Segment where
  name : String
  firstLine : Nat
  deriving DecidableEq, Repr

/-- The layout of sources. -/
structure SourceMap where
  /-- The sources, the last one first. -/
  segments : List Segment := []
  /-- The number that the next source starts with. -/
  nextLine : Nat := 1
  deriving DecidableEq, Repr

namespace SourceMap

/-- The number of lines of a source.  Text after the last line feed is a line, and so is the end of
a source that is empty. -/
def lineCount (source : String) : Nat :=
  let cs := source.toList
  cs.count '\n' + if cs.getLast? = some '\n' then 0 else 1

/-- Adds a source at the end; its first line and the new layout. -/
def add (m : SourceMap) (name source : String) : Nat × SourceMap :=
  (m.nextLine, ⟨⟨name, m.nextLine⟩ :: m.segments, m.nextLine + lineCount source⟩)

/-- The name of the source that a line belongs to, and the line within it. -/
def locate (m : SourceMap) (line : Nat) : String × Nat :=
  match m.segments.find? (·.firstLine ≤ line) with
  | some s => (s.name, line - s.firstLine + 1)
  | none => ("<unknown>", line)

end SourceMap

end ScopedScript
