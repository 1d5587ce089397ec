import ScopedScript.Text.Alphabetic
import ScopedScript.Text.Numeric
import ScopedScript.Text.Extending
import ScopedScript.Text.Hidden

/-! # Character classes

The classes of characters that the scanner and the quoted forms distinguish.  Each is a lookup in
a table of closed ranges of code points; the ASCII part of each class is decided first, because
nearly every character of a source is ASCII.

* `isDigit`: the ten ASCII digits, the only ones a number literal is made of;
* `isNameStart`, `isNamePart`: the first and the later characters of a name;
* `isPlain`: the characters a quoted form shows as themselves. -/

namespace ScopedScript.Text

/-- Membership of a code point in a table of closed ranges. -/
def inRanges (ranges : List (Nat × Nat)) (n : Nat) : Bool :=
  ranges.any fun r => r.1 ≤ n && n ≤ r.2

/-- The ASCII digits. -/
def isDigit (c : Char) : Bool := '0' ≤ c && c ≤ '9'

/-- The ASCII letters. -/
def isAsciiLetter (c : Char) : Bool := ('a' ≤ c && c ≤ 'z') || ('A' ≤ c && c ≤ 'Z')

/-- Letters: the characters with the property Alphabetic. -/
def isNameStart (c : Char) : Bool :=
  if c.toNat < 128 then isAsciiLetter c else inRanges alphabeticRanges c.toNat

/-- Letters, numerals of any script, and the underscore. -/
def isNamePart (c : Char) : Bool :=
  if c.toNat < 128 then isAsciiLetter c || isDigit c || c == '_'
  else inRanges alphabeticRanges c.toNat || inRanges numericRanges c.toNat

/-- Characters that have a visible form of their own. -/
def isPlain (c : Char) : Bool :=
  if c.toNat < 128 then ' ' ≤ c && c ≤ '~'
  else !inRanges extendingRanges c.toNat && !inRanges hiddenRanges c.toNat

theorem isNamePart_of_isNameStart {c : Char} (h : isNameStart c = true) : isNamePart c = true := by
  unfold isNameStart at h
  unfold isNamePart
  split <;> simp_all

theorem isNameStart_eq_false_of_isDigit {c : Char} (h : isDigit c = true) :
    isNameStart c = false := by
  simp only [isDigit, Bool.and_eq_true, decide_eq_true_eq] at h
  obtain ⟨hlo, hhi⟩ := h
  have hlo' : 48 ≤ c.toNat := hlo
  have hhi' : c.toNat ≤ 57 := hhi
  have hsmall : c.toNat < 128 := by omega
  have hnot : ∀ d : Char, 58 ≤ d.toNat → ¬ d ≤ c := fun d hd hle => by
    have : d.toNat ≤ c.toNat := hle
    omega
  simp [isNameStart, hsmall, isAsciiLetter, hnot 'a' (by decide), hnot 'A' (by decide)]

end ScopedScript.Text
