import ScopedScript.Value

/-! # The heap

The heap holds the contents of lists and of records; an object and the fields of an instance are
records.  References are handed out in order and never taken back, so a new list or record is
different from all earlier ones. -/

namespace ScopedScript

/-- The contents of all lists and records. -/
structure Heap where
  lists : Array (Array Value) := #[]
  records : Array (Record Value) := #[]

namespace Heap

/-- The elements of a list. -/
def elements (h : Heap) (ref : Ref) : Array Value := h.lists.getD ref #[]

/-- The properties of an object, or the fields of an instance. -/
def record (h : Heap) (ref : Ref) : Record Value := h.records.getD ref []

/-- The heap with the elements of a list changed. -/
def modifyList (h : Heap) (ref : Ref) (f : Array Value → Array Value) : Heap :=
  { h with lists := h.lists.modify ref f }

/-- The heap with a record changed. -/
def modifyRecord (h : Heap) (ref : Ref) (f : Record Value → Record Value) : Heap :=
  { h with records := h.records.modify ref f }

end Heap

end ScopedScript
