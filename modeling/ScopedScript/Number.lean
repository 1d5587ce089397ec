/-! # Numbers and their decimal text

A number is a 64-bit binary float.  This module reads the bits of one as an exact dyadic fraction
`±m · 2^q` (`Parts`), and derives from that fraction alone

* `wholeValue?`: the natural number a float stands for, if it is one;
* `shortest`: the decimal with the fewest places that reads back as the float, the nearer of the
  two when there are two of them, the larger when they are equally near;
* `text`: the written form.  A whole number has all its digits and `.0`, any other finite number
  its shortest decimal in positional form, and the rest are `inf`, `-inf` and `NaN`.

`ofDigits` goes the other way, from the digits of a literal to the nearest float. -/

namespace ScopedScript.Number

/-- A float taken apart: not a number, infinite, or the exact value `±mantissa · 2^exponent`. -/
inductive Parts where
  | nan
  | infinite (negative : Bool)
  | finite (negative : Bool) (mantissa : Nat) (exponent : Int)
  deriving DecidableEq, Repr

/-- The parts that the 64 bits of a float spell. -/
def Parts.ofBits (bits : Nat) : Parts :=
  let negative := bits / Nat.pow 2 63 % 2 == 1
  let biased : Nat := bits / Nat.pow 2 52 % Nat.pow 2 11
  let fraction := bits % Nat.pow 2 52
  if biased = 2047 then
    if fraction = 0 then .infinite negative else .nan
  else if biased = 0 then .finite negative fraction (-1074)
  else .finite negative (Nat.pow 2 52 + fraction) ((biased : Int) - 1075)

/-- The parts of a float. -/
def parts (x : Float) : Parts := Parts.ofBits x.toBits.toNat

/-! ### Whole numbers -/

/-- The natural number `mantissa · 2^exponent`, if it is one. -/
def wholeMagnitude? (mantissa : Nat) (exponent : Int) : Option Nat :=
  if 0 ≤ exponent then some (mantissa * Nat.pow 2 exponent.toNat)
  else
    let unit := Nat.pow 2 (-exponent).toNat
    if mantissa % unit = 0 then some (mantissa / unit) else none

/-- What a number says as a position in a list: nothing if it is not whole, no position if it is
negative, else a position.  Both zeros are position `0`. -/
def position? (x : Float) : Option (Option Nat) :=
  match parts x with
  | .finite negative m q =>
    (wholeMagnitude? m q).map fun n => if negative && n != 0 then none else some n
  | _ => none

/-! ### Shortest decimals -/

/-- A positive real `value / unit` with the interval `low / unit … high / unit` of the reals that
round to it; `closed` tells whether the ends belong to the interval. -/
structure Rounding where
  low : Nat
  value : Nat
  high : Nat
  unit : Nat
  closed : Bool
  deriving DecidableEq, Repr

/-- The reals that round to `mantissa / 2^places`.  The gap below is half as wide at a power of
two, except at the lowest exponent; the ends round to the even mantissa. -/
def Rounding.ofDyadic (mantissa places : Nat) : Rounding where
  low := if mantissa = Nat.pow 2 52 ∧ places ≠ 1074 then 4 * mantissa - 1 else 4 * mantissa - 2
  value := 4 * mantissa
  high := 4 * mantissa + 2
  unit := 4 * Nat.pow 2 places
  closed := mantissa % 2 == 0

/-- Is `a` before `b`, or at `b` when the interval is closed? -/
def Rounding.within (r : Rounding) (a b : Nat) : Bool := if r.closed then a ≤ b else a < b

/-- The decimal `digits / scale` that the interval holds, if it holds one of the two neighbours of
the value on the grid of multiples of `1 / scale`. -/
def Rounding.onGrid? (r : Rounding) (scale : Nat) : Option Nat :=
  let below := r.value * scale / r.unit
  let above := below + 1
  let fitsBelow := r.within (r.low * scale) (below * r.unit)
  let fitsAbove := r.within (above * r.unit) (r.high * scale)
  if fitsBelow && fitsAbove then
    if r.value * scale - below * r.unit < above * r.unit - r.value * scale then some below
    else some above
  else if fitsBelow then some below
  else if fitsAbove then some above
  else none

/-- The first grid, from `places` decimal places on, with a hit: its digits and its places. -/
def Rounding.search (r : Rounding) : Nat → Nat → Nat × Nat
  | 0, places => (r.value * Nat.pow 10 places / r.unit, places)
  | steps + 1, places =>
    match r.onGrid? (Nat.pow 10 places) with
    | some digits => (digits, places)
    | none => r.search steps (places + 1)

/-- The shortest decimal of `mantissa / 2^places`, as digits and decimal places.  At `places`
decimal places the value itself lies on the grid, so the search ends there at the latest. -/
def shortest (mantissa places : Nat) : Nat × Nat :=
  (Rounding.ofDyadic mantissa places).search places 1

/-! ### Written forms -/

/-- The decimal digits of a natural number. -/
def digits (n : Nat) : List Char := Nat.toDigits 10 n

/-- `n / 10^places` in positional form. -/
def positional (n places : Nat) : String :=
  let all := digits n
  let padded := List.replicate (places + 1 - all.length) '0' ++ all
  let whole := padded.length - places
  String.ofList (padded.take whole ++ '.' :: padded.drop whole)

/-- The text of a magnitude `mantissa · 2^exponent`. -/
def magnitudeText (mantissa : Nat) (exponent : Int) : String :=
  match wholeMagnitude? mantissa exponent with
  | some n => positional (10 * n) 1
  | none =>
    let d := shortest mantissa (-exponent).toNat
    positional d.1 d.2

/-- The text of a number. -/
def text (x : Float) : String :=
  match parts x with
  | .nan => "NaN"
  | .infinite negative => if negative then "-inf" else "inf"
  | .finite negative m q => if negative then "-" ++ magnitudeText m q else magnitudeText m q

/-! ### Reading -/

/-- The number that a row of decimal digits stands for. -/
def natOfDigits (cs : List Char) : Nat :=
  cs.foldl (fun n c => 10 * n + (c.toNat - '0'.toNat)) 0

/-- The float nearest to `whole.fraction`, both given by their digits. -/
def ofDigits (whole fraction : List Char) : Float :=
  Float.ofScientific (natOfDigits (whole ++ fraction)) true fraction.length

end ScopedScript.Number
