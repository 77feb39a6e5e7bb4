import Knot.Number.Binary

/-!
# Exact numbers

What a number of any kind is when nothing is rounded: a fraction `numerator / 2 ^ halvings`, an
infinity, or no number at all. `compare?` orders exact numbers. `residue` takes a fraction modulo
a prime, so that equal numbers have equal residues however they were given.
-/

namespace Knot

/-- An exact number. -/
inductive Exact where
  | nan
  | infinite (negative : Bool)
  /-- The fraction `numerator / 2 ^ halvings`, not always in lowest terms. -/
  | fraction (numerator : Int) (halvings : Nat)
deriving DecidableEq, Repr

namespace Exact

/-- An integer as a fraction. -/
def ofInt (v : Int) : Exact := fraction v 0

/-- The number that a float denotes. -/
def ofFloating {p : Precision} (x : Floating p) : Exact :=
  match x.shape with
  | .nan => nan
  | .infinite s => infinite s
  | .finite s m e =>
    let v : Int := if s then -(m : Int) else m
    if 0 ≤ e then fraction (v * 2 ^ e.toNat) 0 else fraction v (-e).toNat

/-- The order of two numbers. A `nan` is in no order to anything. -/
def compare? : Exact → Exact → Option Ordering
  | nan, _ => none
  | _, nan => none
  | infinite s, infinite t => some (compare t.toNat s.toNat)
  | infinite s, fraction _ _ => some (if s then .lt else .gt)
  | fraction _ _, infinite t => some (if t then .gt else .lt)
  | fraction v j, fraction w k => some (compare (v * 2 ^ k) (w * 2 ^ j))

/-- Integers are ordered as integers. -/
@[simp] theorem compare?_ofInt (v w : Int) : (ofInt v).compare? (ofInt w) = some (compare v w) := by
  simp [ofInt, compare?]

/-! ## Residues -/

/-- The modulus of residues. It is a prime. -/
def modulus : Nat := 2 ^ (61 : Nat) - 1

/-- What `1 / 2 ^ k` is modulo the modulus, for which `2 ^ 61` is one. -/
def halving (k : Nat) : Nat := 2 ^ ((61 - k % 61) % 61)

/-- The residue of a number, with its sign. Minus one is taken for minus two, and the infinities
have residues of their own. -/
def residue : Exact → Int
  | nan => 0
  | infinite s => if s then -314159 else 314159
  | fraction v k =>
    let r : Int := (v.natAbs * halving k % modulus : Nat)
    if v < 0 then (if r = 1 then -2 else -r) else r

end Exact

end Knot
