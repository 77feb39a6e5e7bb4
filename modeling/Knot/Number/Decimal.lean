import Knot.Number.Binary

/-!
# Decimal text of binary floating point

Two renderings of a finite pattern:

* `shortest`: the decimal with the fewest digits that reads back as the pattern, and of those
  the one nearest to it (ties to even). On each grid of `10 ^ k` it is enough to test the two
  neighbours of the exact value, so `shortest` tries one digit, two digits, … and stops at the
  first grid with a hit.
* `fixed`: the exact value rounded to a number of decimal places, ties to even.

How the digits are laid out is `ShortestStyle`.
-/

namespace Knot

/-! ## The shortest decimal -/

/-- The numbers that round to a pattern, in units of `2 ^ exponent`: an interval around
`value`, ends included when `closed`. -/
structure RoundingInterval where
  low : Nat
  value : Nat
  high : Nat
  exponent : Int
  closed : Bool

/-- The decimal `coefficient * 10 ^ exponent`. -/
structure Decimal where
  coefficient : Nat
  exponent : Int
deriving DecidableEq, Repr

namespace RoundingInterval

/-- The interval of the pattern with magnitude `significand * 2 ^ exponent`. Just above a power
of two the patterns below are twice as dense, so the lower half is half as wide. -/
def of (p : Precision) (significand : Nat) (exponent : Int) : RoundingInterval :=
  let narrow := significand = p.unit ∧ p.leastExponent < exponent
  { low := 4 * significand - (if narrow then 1 else 2)
    value := 4 * significand
    high := 4 * significand + 2
    exponent := exponent - 2
    closed := significand % 2 = 0 }

/-- Whether `coefficient * 10 ^ k` lies in the interval. -/
def contains (i : RoundingInterval) (coefficient : Nat) (k : Int) : Bool :=
  let (c, one) := scaledTen coefficient 1 k
  let (n, d) := scaled c one (-i.exponent)
  if i.closed then i.low * d ≤ n && n ≤ i.high * d else i.low * d < n && n < i.high * d

/-- The hit on the grid of `10 ^ k`: of the value's two neighbours the nearer one that lies in
the interval. -/
def hit? (i : RoundingInterval) (k : Int) : Option Nat :=
  let (v, one) := scaled i.value 1 i.exponent
  let (n, d) := scaledTen v one (-k)
  let below := n / d
  let first := nearest n d
  let second := if first = below then below + 1 else below
  if i.contains first k then some first
  else if i.contains second k then some second
  else none

end RoundingInterval

/-- The place of the leading decimal digit of `num / den`: the greatest `k` with
`10 ^ k ≤ num / den`. -/
def leadingPlace (num den : Nat) : Int :=
  if den ≤ num then (digitCount (num / den) : Int) - 1
  else -(digitCount ((den + num - 1) / num - 1) : Int)

/-- The first grid with a hit, from the one with `digits` digits on. -/
def firstHit (i : RoundingInterval) (place : Int) : Nat → Nat → Decimal
  | 0, _ => ⟨0, 0⟩
  | more + 1, digits =>
    let k := place - (digits : Int) + 1
    match i.hit? k with
    | some c => ⟨c, k⟩
    | none => firstHit i place more (digits + 1)

/-- The shortest decimal that reads back as `significand * 2 ^ exponent`. Seventeen digits
always do. -/
def shortest (p : Precision) (significand : Nat) (exponent : Int) : Decimal :=
  let (n, d) := scaled significand 1 exponent
  firstHit (RoundingInterval.of p significand exponent) (leadingPlace n d) 18 1

/-! ## Layout -/

/-- How shortest decimals are laid out: a number from `10 ^ positionalFrom` up to but not
including `10 ^ positionalBelow` is written out, any other number has an exponent of at least
`exponentDigits` digits. It is the number that counts, not the decimal chosen for it. A positional
text always has a digit after the point. -/
structure ShortestStyle where
  positionalFrom : Int
  positionalBelow : Int
  exponentDigits : Nat

/-- Numbers are written out from `0.0001` up to `1e16`; exponents have a sign and two digits. -/
def ShortestStyle.standard : ShortestStyle := ⟨-4, 16, 2⟩

/-- The same, but only up to a million. -/
def ShortestStyle.compact : ShortestStyle := ⟨-4, 6, 2⟩

/-- `n` with zeros in front up to `width` characters. -/
def padded (width n : Nat) : String :=
  let digits := toString n
  String.ofList (List.replicate (width - digits.length) '0') ++ digits

/-- A decimal with its digits on both sides of the point. -/
def Decimal.positional (d : Decimal) : String :=
  let digits := toString d.coefficient
  if 0 ≤ d.exponent then
    digits ++ String.ofList (List.replicate d.exponent.toNat '0') ++ ".0"
  else
    let places := (-d.exponent).toNat
    let text := (padded (places + 1) d.coefficient).toList
    let whole := text.take (text.length - places)
    let fraction := text.drop (text.length - places)
    String.ofList whole ++ "." ++ String.ofList fraction

/-- A decimal with one digit before the point and an exponent. -/
def Decimal.scientific (style : ShortestStyle) (d : Decimal) : String :=
  let digits := (toString d.coefficient).toList
  let place := d.exponent + (digits.length : Int) - 1
  let mantissa := match digits with
    | [] => "0"
    | [c] => String.singleton c
    | c :: rest => String.singleton c ++ "." ++ String.ofList rest
  mantissa ++ "e" ++ (if place < 0 then "-" else "+") ++ padded style.exponentDigits place.natAbs

/-- Trailing zeros of the coefficient move into the exponent. -/
def Decimal.trimmed (d : Decimal) : Decimal :=
  let digits := (toString d.coefficient).toList
  let zeros := (digits.reverse.takeWhile (· = '0')).length
  if d.coefficient = 0 then d else ⟨d.coefficient / 10 ^ zeros, d.exponent + zeros⟩

/-- The layout of a decimal for a number with the given leading place. -/
def Decimal.text (style : ShortestStyle) (place : Int) (d : Decimal) : String :=
  if style.positionalFrom ≤ place ∧ place < style.positionalBelow then d.trimmed.positional
  else d.trimmed.scientific style

namespace Floating

variable {p : Precision}

/-- The shortest text that reads back as the pattern, in a layout. -/
def shortestIn (style : ShortestStyle) (x : Floating p) : String :=
  match x.shape with
  | .nan => "nan"
  | .infinite s => if s then "-inf" else "inf"
  | .finite s m e =>
    let (n, d) := scaled m 1 e
    let body := if m = 0 then "0.0" else (shortest p m e).text style (leadingPlace n d)
    if s then "-" ++ body else body

/-- The shortest text that reads back as the pattern, in the usual layout. -/
def shortestText (x : Floating p) : String := x.shortestIn .standard

/-- The exact value rounded to `places` decimal places. -/
def fixedText (places : Nat) (x : Floating p) : String :=
  match x.shape with
  | .nan => "nan"
  | .infinite s => if s then "-inf" else "inf"
  | .finite s m e =>
    let (n, d) := scaled (m * 10 ^ places) 1 e
    let text := (padded (places + 1) (nearest n d)).toList
    let whole := String.ofList (text.take (text.length - places))
    let fraction := String.ofList (text.drop (text.length - places))
    let body := if places = 0 then whole else whole ++ "." ++ fraction
    if s then "-" ++ body else body

end Floating

end Knot
