import ScopedScript.Value.Text

/-! # Equality of values

Two lists are equal if their elements are, in order; two objects if their keys and values are, in
order.  Because lists and objects may contain themselves, the pairs under comparison are kept in a
row, and a pair that comes up again inside its own comparison counts as equal.  Numbers, strings
and truth values compare by value, where no number equals `NaN`; functions and instances compare
by identity.

A pair that is entered was not in the row before, so the number of pairs of containers on the heap
bounds the depth of the recursion. -/

namespace ScopedScript.Value

/-- Equality of values that are not entered. -/
def sameClosed : Value → Value → Bool
  | .num x, .num y => x == y
  | .str s, .str t => s == t
  | .bool a, .bool b => a == b
  | .null, .null => true
  | .undefined, .undefined => true
  | .list r, .list s => r == s
  | .object r, .object s => r == s
  | .function f, .function g => f.identity == g.identity
  | .method m, .method n => m.identity == n.identity
  | .native m, .native n => m.identity == n.identity
  | .cls c, .cls d => c.identity == d.identity
  | .instance i, .instance j => i.fields == j.fields
  | _, _ => false

/-- Equality of values inside the pairs of `chain`, entering at most `budget` more pairs. -/
def equalWithin (h : Heap) : Nat → List (Container × Container) → Value → Value → Bool
  | budget + 1, chain, .list r, .list s =>
    r == s || chain.contains (.list r, .list s) ||
      let xs := (h.elements r).toList
      let ys := (h.elements s).toList
      xs.length == ys.length &&
        (xs.zip ys).all fun p =>
          equalWithin h budget ((.list r, .list s) :: chain) p.1 p.2
  | budget + 1, chain, .object r, .object s =>
    r == s || chain.contains (.object r, .object s) ||
      let ps := h.record r
      let qs := h.record s
      ps.length == qs.length &&
        (ps.zip qs).all fun p =>
          p.1.1 == p.2.1 && equalWithin h budget ((.object r, .object s) :: chain) p.1.2 p.2.2
  | _, _, v, w => sameClosed v w

/-- A number of pairs that no chain of different pairs exceeds. -/
def pairBound (h : Heap) : Nat := h.lists.size * h.lists.size + h.records.size * h.records.size + 1

/-- Equality of values. -/
def equal (h : Heap) (v w : Value) : Bool := v.equalWithin h (pairBound h) [] w

end ScopedScript.Value
