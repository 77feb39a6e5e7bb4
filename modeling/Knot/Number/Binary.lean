import Knot.Number.Rounding

/-!
# Binary floating point

A `Floating p` is a bit pattern of one of the two interchange formats. Below the sign bit the
pattern is a magnitude, ordered as the absolute values are: an exponent field above a fraction
field. A finite pattern denotes `± significand * 2 ^ exponent`.

Arithmetic is exact arithmetic followed by one rounding: `round` takes the pattern nearest to
a fraction (ties to even), a result past the largest finite pattern is an infinity, and an
operation without a value is `nan`.
-/

namespace Knot

/-- The two formats. -/
inductive Precision where
  | single | double
deriving DecidableEq, Repr

namespace Precision

/-- The number of significant binary digits, the leading one included. -/
def digits : Precision → Nat
  | single => 24
  | double => 53

/-- The number of bits of the exponent field. -/
def exponentBits : Precision → Nat
  | single => 8
  | double => 11

/-- The number of bits of a pattern. -/
def width (p : Precision) : Nat := p.exponentBits + p.digits

/-- The weight of the leading digit: fraction fields lie below it. -/
def unit (p : Precision) : Nat := 2 ^ (p.digits - 1)

/-- The exponent of the last place of the smallest patterns. -/
def leastExponent (p : Precision) : Int := 3 - 2 ^ (p.exponentBits - 1) - p.digits

/-- The magnitude of the infinities: every finite magnitude lies below it. -/
def infinity (p : Precision) : Nat := (2 ^ p.exponentBits - 1) * p.unit

/-- The written name of a format. -/
def name : Precision → String
  | single => "float32"
  | double => "float64"

end Precision

/-- A bit pattern of a format. -/
structure Floating (p : Precision) where
  bits : BitVec p.width
deriving DecidableEq

/-- What a pattern denotes. -/
inductive Floating.Shape where
  | nan
  | infinite (negative : Bool)
  | finite (negative : Bool) (significand : Nat) (exponent : Int)
deriving DecidableEq, Repr

namespace Floating

variable {p : Precision}

/-! ## Reading a pattern -/

/-- The sign bit. -/
def negative (x : Floating p) : Bool := x.bits.msb

/-- The pattern without its sign bit. -/
def magnitude (x : Floating p) : Nat := x.bits.toNat % 2 ^ (p.width - 1)

/-- The value that a pattern denotes. -/
def shape (x : Floating p) : Shape :=
  let m := x.magnitude
  if p.infinity < m then .nan
  else if m = p.infinity then .infinite x.negative
  else if m < p.unit then .finite x.negative m p.leastExponent
  else .finite x.negative (m % p.unit + p.unit) (p.leastExponent + (m / p.unit - 1 : Nat))

def isNaN (x : Floating p) : Bool := p.infinity < x.magnitude

def isZero (x : Floating p) : Bool := x.magnitude = 0

/-- An order key: two patterns that are no `nan` compare as their keys do, and the two zeros
share one. -/
def orderKey (x : Floating p) : Int := if x.negative then -x.magnitude else x.magnitude

/-! ## Writing a pattern -/

/-- The pattern of a sign and a magnitude. -/
def ofMagnitude (negative : Bool) (magnitude : Nat) : Floating p :=
  ⟨BitVec.ofNat _ (magnitude + if negative then 2 ^ (p.width - 1) else 0)⟩

def nan : Floating p := ofMagnitude false (p.infinity + p.unit / 2)

def infinite (negative : Bool) : Floating p := ofMagnitude negative p.infinity

def zero (negative : Bool) : Floating p := ofMagnitude negative 0

/-- The exponent of the last place in which `num / den` is rounded: the fraction has `digits`
digits above that place, or the place is the least of the format. -/
def roundingExponent (p : Precision) (num den : Nat) : Int :=
  let guess : Int := (num.log2 : Int) - den.log2 - p.digits
  let (n, d) := scaled num den (-guess)
  max (if n / d < 2 ^ p.digits then guess else guess + 1) p.leastExponent

/-- The pattern nearest to `± num / den`. -/
def round (negative : Bool) (num den : Nat) : Floating p :=
  if num = 0 then zero negative
  else
    let e := roundingExponent p num den
    let (n, d) := scaled num den (-e)
    let magnitude := (e - p.leastExponent).toNat * p.unit + nearest n d
    ofMagnitude negative (min magnitude p.infinity)

/-- The pattern nearest to `v * 2 ^ e`. -/
def ofDyadic (v : Int) (e : Int) : Floating p :=
  let (n, d) := scaled v.natAbs 1 e
  round (v < 0) n d

/-- The pattern nearest to an integer. -/
def ofInt (v : Int) : Floating p := ofDyadic v 0

/-- The pattern of another format nearest to `x`. -/
def cast {q : Precision} (x : Floating p) : Floating q :=
  match x.shape with
  | .nan => nan
  | .infinite s => infinite s
  | .finite s m e => let (n, d) := scaled m 1 e; round s n d

/-! ## Reading back an integer -/

/-- The integer part of a finite pattern: the fraction is dropped. -/
def truncate? (x : Floating p) : Option Int :=
  match x.shape with
  | .finite s m e =>
    let (n, d) := scaled m 1 e
    let whole : Int := (n / d : Nat)
    some (if s then -whole else whole)
  | _ => none

/-! ## Arithmetic -/

/-- A significand with its sign, at an exponent not above its own. -/
def aligned (negative : Bool) (significand : Nat) (exponent target : Int) : Int :=
  let v : Int := (significand * 2 ^ (exponent - target).toNat : Nat)
  if negative then -v else v

def neg (x : Floating p) : Floating p := ofMagnitude (!x.negative) x.magnitude

/-- The sum. A sum that cancels is the positive zero. -/
def add (x y : Floating p) : Floating p :=
  match x.shape, y.shape with
  | .nan, _ => nan
  | _, .nan => nan
  | .infinite s, .infinite t => if s = t then infinite s else nan
  | .infinite s, _ => infinite s
  | _, .infinite t => infinite t
  | .finite s m e, .finite t n f =>
    let low := min e f
    let v := aligned s m e low + aligned t n f low
    if v = 0 then zero (s && t) else ofDyadic v low

def sub (x y : Floating p) : Floating p := x.add y.neg

def mul (x y : Floating p) : Floating p :=
  match x.shape, y.shape with
  | .nan, _ => nan
  | _, .nan => nan
  | .infinite s, .infinite t => infinite (s != t)
  | .infinite s, .finite t n _ => if n = 0 then nan else infinite (s != t)
  | .finite s m _, .infinite t => if m = 0 then nan else infinite (s != t)
  | .finite s m e, .finite t n f =>
    let (a, b) := scaled (m * n) 1 (e + f)
    round (s != t) a b

def div (x y : Floating p) : Floating p :=
  match x.shape, y.shape with
  | .nan, _ => nan
  | _, .nan => nan
  | .infinite _, .infinite _ => nan
  | .infinite s, .finite t _ _ => infinite (s != t)
  | .finite s _ _, .infinite t => zero (s != t)
  | .finite s m e, .finite t n f =>
    if n = 0 then (if m = 0 then nan else infinite (s != t))
    else
      let (a, b) := scaled m n (e - f)
      round (s != t) a b

/-- The exact remainder of the truncated division. It has the sign of `x`. -/
def rem (x y : Floating p) : Floating p :=
  match x.shape, y.shape with
  | .nan, _ => nan
  | _, .nan => nan
  | .infinite _, _ => nan
  | .finite _ _ _, .infinite _ => x
  | .finite s m e, .finite _ n f =>
    if n = 0 then nan
    else
      let low := min e f
      let r := (m * 2 ^ (e - low).toNat) % (n * 2 ^ (f - low).toNat)
      if r = 0 then zero s else let (a, b) := scaled r 1 low; round s a b

/-- The exact remainder of the floored division. It has the sign of `y`. -/
def floorRem (x y : Floating p) : Floating p :=
  let r := x.rem y
  if r.isNaN then r
  else if r.isZero then zero y.negative
  else if r.negative = y.negative then r
  else r.add y

/-- The square root, nothing below zero. The root of `m * 2 ^ e` is taken with more digits
than the format has, and a last digit says whether it is exact. -/
def sqrt? (x : Floating p) : Option (Floating p) :=
  match x.shape with
  | .nan => some nan
  | .infinite s => if s then none else some x
  | .finite s m e =>
    if m = 0 then some x
    else if s then none
    else
      let shift := 2 * p.digits + (if e % 2 = 0 then 2 else 3)
      let radicand := m * 2 ^ shift
      let root := integerRoot radicand
      let inexact : Nat := if root * root = radicand then 0 else 1
      some (ofDyadic (2 * root + inexact : Nat) ((e - shift) / 2 - 1))

/-! ## Comparison -/

def eq (x y : Floating p) : Bool := !x.isNaN && !y.isNaN && x.orderKey = y.orderKey

def lt (x y : Floating p) : Bool := !x.isNaN && !y.isNaN && x.orderKey < y.orderKey

def le (x y : Floating p) : Bool := !x.isNaN && !y.isNaN && x.orderKey ≤ y.orderKey

end Floating

end Knot
