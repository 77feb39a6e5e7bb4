/-!
# Rounding a quotient

`nearest num den` is the integer next to the fraction `num / den`; half a unit goes to the
even neighbour. Every rounding of the library (to a binary format, to decimal places) is this
one function on a suitably scaled fraction.
-/

namespace Knot

-- Powers are those of the core library, also in modules that import the algebra of monoids.
attribute [scoped instance (high)] instPowNat

/-- The integer nearest to `num / den`, ties to even. -/
def nearest (num den : Nat) : Nat :=
  let q := num / den
  let r := num % den
  if 2 * r < den then q
  else if den < 2 * r then q + 1
  else if q % 2 = 0 then q else q + 1

/-- A whole quotient is not rounded. -/
theorem nearest_mul (q den : Nat) (h : 0 < den) : nearest (q * den) den = q := by
  have quotient : q * den / den = q := Nat.mul_div_cancel q h
  have remainder : q * den % den = 0 := Nat.mul_mod_left q den
  simp [nearest, quotient, remainder, h]

/-- The fraction `num / den * 2 ^ k` as a numerator and a denominator. -/
def scaled (num den : Nat) (k : Int) : Nat × Nat :=
  if 0 ≤ k then (num * 2 ^ k.toNat, den) else (num, den * 2 ^ (-k).toNat)

/-- The same with powers of ten. -/
def scaledTen (num den : Nat) (k : Int) : Nat × Nat :=
  if 0 ≤ k then (num * 10 ^ k.toNat, den) else (num, den * 10 ^ (-k).toNat)

/-- The number of decimal digits of `n`, none for zero. -/
def digitCount (n : Nat) : Nat := if n = 0 then 0 else (Nat.toDigits 10 n).length

/-- The integer part of a square root, found digit by digit from the top. -/
def integerRoot (n : Nat) : Nat := descend (n.log2 / 2 + 1) 0
where
  descend : Nat → Nat → Nat
    | 0, root => root
    | k + 1, root =>
      let next := root + 2 ^ k
      descend k (if next * next ≤ n then next else root)

end Knot
