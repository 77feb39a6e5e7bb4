import Knot.Proofs.Range
import Mathlib.Data.BitVec
import Mathlib.Tactic.Linarith

/-!
# Two's complement

The words of an integer type of `w` bits are the vectors of `w` bits, read as signed or as unsigned
integers (`Word.bits`, `Word.ofBits`), and to wrap an integer is to read the vector that it is
congruent to (`Word.wrap_eq_ofBits`). So the unchecked operators, computed on unbounded integers and
brought back into the type, are the operations on vectors:

* sums, differences, products and negations, since taking an integer to its vector is a
  homomorphism;
* the bitwise operations, since their results fit the type as they are;
* a shift to the left, which multiplies by a power of two and wraps. One to the right divides by it
  and rounds down. The count is taken modulo the width, or modulo 32 for a narrow type.
-/

namespace Knot

/-! ## Words as vectors of bits -/

namespace IntType

variable (t : IntType)

/-- A vector of bits as an integer of the type. -/
def ofVector (x : BitVec t.bits) : Int := if t.signed then x.toInt else x.toNat

/-- It lies in the range of the type. -/
theorem ofVector_fits (x : BitVec t.bits) : t.Fits (t.ofVector x) := by
  unfold ofVector
  cases sign : t.signed with
  | true =>
    rw [if_pos rfl, fits_signed_iff sign]
    exact ⟨BitVec.le_toInt x, BitVec.toInt_lt⟩
  | false =>
    rw [if_neg Bool.false_ne_true, fits_unsigned_iff sign]
    have below : ((x.toNat : Nat) : Int) < ((2 ^ t.bits : Nat) : Int) := Int.ofNat_lt.2 x.isLt
    exact ⟨Int.natCast_nonneg _, by simpa using below⟩

/-- The vector is that of the integer. -/
theorem ofInt_ofVector (x : BitVec t.bits) : BitVec.ofInt t.bits (t.ofVector x) = x := by
  unfold ofVector
  split
  · exact BitVec.ofInt_toInt
  · rw [BitVec.ofInt_natCast, BitVec.ofNat_toNat, BitVec.setWidth_eq]

/-- Two integers of the range that have the same vector are the same. -/
theorem eq_of_ofInt_eq {a b : Int} (left : t.Fits a) (right : t.Fits b)
    (same : BitVec.ofInt t.bits a = BitVec.ofInt t.bits b) : a = b := by
  have congruent : a % t.span = b % t.span := by
    have modulus : t.span = ((2 ^ t.bits : Nat) : Int) := by simp [IntType.span]
    have bits := congrArg BitVec.toInt same
    rw [BitVec.toInt_ofInt, BitVec.toInt_ofInt] at bits
    rw [modulus, ← Int.bmod_emod, bits, Int.bmod_emod]
  calc a = t.wrap a := (wrap_of_fits left).symm
    _ = t.wrap b := by unfold wrap; rw [Int.sub_emod a, Int.sub_emod b, congruent]
    _ = b := wrap_of_fits right

/-- An integer and what it is wrapped to have the same vector. -/
theorem ofInt_wrap (v : Int) : BitVec.ofInt t.bits (t.wrap v) = BitVec.ofInt t.bits v := by
  have wraps : t.wrap v = v + t.span * -((v - t.lo) / t.span) := by
    have division := Int.emod_add_mul_ediv (v - t.lo) t.span
    unfold wrap
    rw [Int.mul_neg]
    omega
  have vanishes : BitVec.ofInt t.bits t.span = 0#t.bits := by
    apply BitVec.eq_of_toNat_eq
    rw [BitVec.toNat_ofInt]
    simp [span]
  rw [wraps, BitVec.ofInt_add, BitVec.ofInt_mul, vanishes, BitVec.zero_mul, BitVec.add_zero]

end IntType

namespace Word

variable {t : IntType}

theorem eq_of_toInt_eq {a b : Word t} (same : a.toInt = b.toInt) : a = b := by
  cases a
  cases b
  cases same
  rfl

/-- The bits of a word. -/
def bits (a : Word t) : BitVec t.bits := BitVec.ofInt t.bits a.toInt

/-- The word of a vector of bits. -/
def ofBits (x : BitVec t.bits) : Word t := ⟨t.ofVector x, t.ofVector_fits x⟩

@[simp] theorem bits_ofBits (x : BitVec t.bits) : (ofBits x).bits = x := t.ofInt_ofVector x

/-- To wrap an integer is to read its vector. -/
theorem wrap_eq_ofBits (v : Int) : wrap t v = ofBits (BitVec.ofInt t.bits v) := by
  refine eq_of_toInt_eq (t.eq_of_ofInt_eq (wrap t v).fits (ofBits _).fits ?_)
  exact (t.ofInt_wrap v).trans (t.ofInt_ofVector _).symm

@[simp] theorem ofBits_bits (a : Word t) : ofBits a.bits = a := by
  rw [bits, ← wrap_eq_ofBits, wrap_toInt]

/-! ## Sums, products and negations -/

variable (a b : Word t)

theorem wrap_add : wrap t (a.toInt + b.toInt) = ofBits (a.bits + b.bits) := by
  rw [wrap_eq_ofBits, BitVec.ofInt_add]
  rfl

theorem wrap_neg : wrap t (-a.toInt) = ofBits (-a.bits) := by
  rw [wrap_eq_ofBits, BitVec.ofInt_neg]
  rfl

theorem wrap_sub : wrap t (a.toInt - b.toInt) = ofBits (a.bits - b.bits) := by
  rw [wrap_eq_ofBits, Int.sub_eq_add_neg, BitVec.ofInt_add, BitVec.ofInt_neg, BitVec.sub_eq_add_neg]
  rfl

theorem wrap_mul : wrap t (a.toInt * b.toInt) = ofBits (a.bits * b.bits) := by
  rw [wrap_eq_ofBits, BitVec.ofInt_mul]
  rfl

/-- The complement of the bits of `a` is that of `-a - 1`. -/
theorem wrap_complement : wrap t (-a.toInt - 1) = ofBits (~~~a.bits) := by
  have one : BitVec.ofInt t.bits 1 = 1#t.bits := rfl
  rw [wrap_eq_ofBits, Int.sub_eq_add_neg, BitVec.ofInt_add, BitVec.ofInt_neg, BitVec.ofInt_neg, one,
    BitVec.not_eq_neg_add, BitVec.sub_eq_add_neg]
  rfl

/-! ## Bitwise operations -/

/-- A bitwise operation on unbounded integers is the operation on their vectors of any width. -/
theorem ofInt_onInts (f : Bitwise) (w : Nat) (v u : Int) :
    BitVec.ofInt w (f.onInts v u) = f.onVectors (BitVec.ofInt w v) (BitVec.ofInt w u) := by
  -- the width in which the operation is done may be the greater one or the smaller one
  have narrowed : ∀ n : Int, n = v ∨ n = u →
      (BitVec.ofInt (Bitwise.bitsFor v u) n).signExtend w = BitVec.ofInt w n := fun n either => by
    rw [BitVec.signExtend, Bitwise.bitsFor_holds either]
  calc BitVec.ofInt w (f.onInts v u)
      = (f.onVectors (BitVec.ofInt (Bitwise.bitsFor v u) v)
          (BitVec.ofInt (Bitwise.bitsFor v u) u)).signExtend w := rfl
    _ = f.onVectors (BitVec.ofInt w v) (BitVec.ofInt w u) := by
      rw [← f.onVectors_signExtend, narrowed v (.inl rfl), narrowed u (.inr rfl)]

/-- The result of two words fits their type, and is the word of the operation on their bits. -/
theorem ofInt?_onInts (f : Bitwise) :
    ofInt? t (f.onInts a.toInt b.toInt) = some (ofBits (f.onVectors a.bits b.bits)) := by
  have fits := f.onInts_fits a.fits b.fits
  rw [ofInt?_eq_some_iff]
  refine t.eq_of_ofInt_eq (ofBits _).fits fits ?_
  rw [ofInt_onInts]
  exact t.ofInt_ofVector _

/-! ## Shifts -/

/-- A product with a power of two is a shift of the bits. -/
theorem wrap_mul_two_pow (k : Nat) : wrap t (a.toInt * 2 ^ k) = ofBits (a.bits <<< k) := by
  have power : BitVec.ofInt t.bits (2 ^ k) = BitVec.twoPow t.bits k := by
    apply BitVec.eq_of_toNat_eq
    rw [BitVec.toNat_ofInt, BitVec.toNat_twoPow]
    norm_cast
  rw [wrap_eq_ofBits, BitVec.ofInt_mul, power, BitVec.shiftLeft_eq_mul_twoPow]
  rfl

/-- Wrapping changes an integer by a multiple of `2 ^ bits`. -/
theorem wrap_emod (v : Int) : (wrap t v).toInt % 2 ^ t.bits = v % 2 ^ t.bits := by
  show t.wrap v % t.span = v % t.span
  unfold IntType.wrap
  rw [Int.emod_add_emod, Int.sub_add_cancel]

/-- A word divided by a power of two and rounded down fits the type. -/
theorem div_two_pow_fits (k : Nat) : t.Fits (a.toInt / 2 ^ k) := by
  have positive : (0 : Int) < 2 ^ k := Int.pow_pos (by decide)
  have least : (1 : Int) ≤ 2 ^ k := positive
  cases sign : t.signed with
  | true =>
    obtain ⟨low, high⟩ := (IntType.fits_signed_iff sign _).1 a.fits
    rw [IntType.fits_signed_iff sign]
    have half : (0 : Int) < 2 ^ (t.bits - 1) := Int.pow_pos (by decide)
    constructor
    · rw [Int.le_ediv_iff_mul_le positive]
      nlinarith
    · rw [Int.ediv_lt_iff_lt_mul positive]
      nlinarith
  | false =>
    obtain ⟨low, high⟩ := (IntType.fits_unsigned_iff sign _).1 a.fits
    rw [IntType.fits_unsigned_iff sign]
    constructor
    · exact Int.ediv_nonneg low (Int.le_of_lt positive)
    · exact Int.lt_of_le_of_lt (Int.ediv_le_self _ low) high

end Word

/-! ## The operators -/

namespace Word

/-- By how many places a count moves the bits of a word. -/
def places (t : IntType) {s : IntType} (count : Word s) : Nat :=
  (count.toInt % (max t.bits 32 : Nat)).toNat

variable {t : IntType} (a b : Word t)

/-- What the operators that leave their results unchecked make of two words and of a count. -/
structure ComputesOnBits : Prop where
  add : BinaryOp.add.apply (.scalar (.int t a)) (.scalar (.int t b)) =
    .ok (.scalar (.int t (ofBits (a.bits + b.bits))))
  subtract : BinaryOp.subtract.apply (.scalar (.int t a)) (.scalar (.int t b)) =
    .ok (.scalar (.int t (ofBits (a.bits - b.bits))))
  multiply : BinaryOp.multiply.apply (.scalar (.int t a)) (.scalar (.int t b)) =
    .ok (.scalar (.int t (ofBits (a.bits * b.bits))))
  and : BinaryOp.and.apply (.scalar (.int t a)) (.scalar (.int t b)) =
    .ok (.scalar (.int t (ofBits (a.bits &&& b.bits))))
  or : BinaryOp.or.apply (.scalar (.int t a)) (.scalar (.int t b)) =
    .ok (.scalar (.int t (ofBits (a.bits ||| b.bits))))
  exclusiveOr : BinaryOp.exclusiveOr.apply (.scalar (.int t a)) (.scalar (.int t b)) =
    .ok (.scalar (.int t (ofBits (a.bits ^^^ b.bits))))
  /-- The static type of the node does not matter to a unary operator that is no conversion. -/
  negate : ∀ target, UnaryOp.negate.apply (.scalar (.int t a)) target =
    .ok (.scalar (.int t (ofBits (-a.bits))))
  not : ∀ target, UnaryOp.not.apply (.scalar (.int t a)) target =
    .ok (.scalar (.int t (ofBits (~~~a.bits))))
  /-- The product with a power of two is reduced into the range of the type. -/
  leftShift : ∀ {s : IntType} (count : Word s), ∃ r : Word t,
    BinaryOp.leftShift.apply (.scalar (.int t a)) (.scalar (.int s count)) =
      .ok (.scalar (.int t r)) ∧
    r = ofBits (a.bits <<< places t count) ∧
    r.toInt % 2 ^ t.bits = a.toInt * 2 ^ places t count % 2 ^ t.bits
  /-- The quotient by a power of two is in the range of the type as it is. -/
  rightShift : ∀ {s : IntType} (count : Word s), ∃ r : Word t,
    BinaryOp.rightShift.apply (.scalar (.int t a)) (.scalar (.int s count)) =
      .ok (.scalar (.int t r)) ∧
    r.toInt = a.toInt / 2 ^ places t count

/-- A bitwise operator computes its operation on the bits. -/
theorem apply_bitwise {op : BinaryOp} {f : Bitwise} (is_bitwise : op.bitwise? = some f)
    (no_comparison : op.comparison? = none) :
    op.apply (.scalar (.int t a)) (.scalar (.int t b)) =
      .ok (.scalar (.int t (ofBits (f.onVectors a.bits b.bits)))) := by
  have result : (Scalar.int t a).bitwise op f (.scalar (.int t b)) =
      .ok (.int t (ofBits (f.onVectors a.bits b.bits))) := by
    have fits := ofInt?_onInts a b f
    simp only [Scalar.bitwise, Value.toInt, Scalar.toInt, bind, Except.bind, pure, Except.pure,
      fits]
  simp only [BinaryOp.apply, Value.toScalar, Scalar.applyBinary, no_comparison, is_bitwise, result,
    bind, Except.bind, pure, Except.pure]

/-- The unchecked operators on words of a type are the arithmetic of its vectors of bits. -/
theorem computes_on_bits : a.ComputesOnBits b where
  add := congrArg (fun r => Except.ok (Value.scalar (.int t r))) (wrap_add a b)
  subtract := congrArg (fun r => Except.ok (Value.scalar (.int t r))) (wrap_sub a b)
  multiply := congrArg (fun r => Except.ok (Value.scalar (.int t r))) (wrap_mul a b)
  and := apply_bitwise a b (f := .and) rfl rfl
  or := apply_bitwise a b (f := .or) rfl rfl
  exclusiveOr := apply_bitwise a b (f := .xor) rfl rfl
  negate _ := congrArg (fun r => Except.ok (Value.scalar (.int t r))) (wrap_neg a)
  not _ := congrArg (fun r => Except.ok (Value.scalar (.int t r))) (wrap_complement a)
  leftShift count :=
    ⟨wrap t (a.toInt * 2 ^ places t count), rfl, wrap_mul_two_pow a _, wrap_emod _⟩
  rightShift count :=
    ⟨wrap t (a.toInt / 2 ^ places t count), rfl,
      IntType.wrap_of_fits (div_two_pow_fits a _)⟩

end Word

end Knot
