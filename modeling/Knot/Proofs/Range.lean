import Knot.Operator.Apply
import Mathlib.Algebra.Order.Ring.Int

/-!
# Results stay in range

Integer results of the operators, measured against the ranges of the integer types:

* words are shorter than `2 ^ 64`, so what arithmetic makes of two of them can be written out;
* so can the integer part of a float;
* a bitwise operation on two words of a type fits that type.
-/

namespace Knot

/-! ## Words -/

namespace IntType

/-- No integer type is wider than 64 bits. -/
theorem bits_le (t : IntType) : t.bits ≤ 64 := by
  rcases t with ⟨signed, width⟩
  cases width <;> simp [bits, Width.bits]

theorem bits_pos (t : IntType) : 0 < t.bits := t.width.bits_pos

/-- A signed type reaches from `-2 ^ (bits - 1)` to below `2 ^ (bits - 1)`. -/
theorem fits_signed_iff {t : IntType} (signed : t.signed = true) (v : Int) :
    t.Fits v ↔ -2 ^ (t.bits - 1) ≤ v ∧ v < 2 ^ (t.bits - 1) := by
  have half : (2 : Int) ^ t.bits = 2 ^ (t.bits - 1) * 2 := by
    rw [← Int.pow_succ, Nat.succ_eq_add_one, Nat.sub_add_cancel t.bits_pos]
  simp only [Fits, hi, lo, span, signed, if_true, half]
  omega

/-- An unsigned type reaches from zero to below `2 ^ bits`. -/
theorem fits_unsigned_iff {t : IntType} (unsigned : t.signed = false) (v : Int) :
    t.Fits v ↔ 0 ≤ v ∧ v < 2 ^ t.bits := by
  simp only [Fits, hi, lo, span, unsigned, Bool.false_eq_true, if_false]
  omega

end IntType

/-- A word is no longer than 64 bits. -/
theorem Word.natAbs_le {t : IntType} (w : Word t) : w.toInt.natAbs ≤ 2 ^ 64 := by
  have wide : (2 : Int) ^ t.bits ≤ 2 ^ 64 := pow_le_pow_right₀ (by decide) t.bits_le
  have half : (2 : Int) ^ (t.bits - 1) ≤ 2 ^ 64 :=
    pow_le_pow_right₀ (by decide) (Nat.le_trans (Nat.sub_le _ _) t.bits_le)
  cases sign : t.signed with
  | true =>
    have range := (IntType.fits_signed_iff sign _).1 w.fits
    omega
  | false =>
    have range := (IntType.fits_unsigned_iff sign _).1 w.fits
    omega

/-! ## What can be written out -/

namespace Numeral

/-- An integer of few binary digits can be written out. -/
theorem writable_of_le_two_pow {v : Int} (digits : Nat) (some_digits : digits ≠ 0)
    (short : digits ≤ maxDigits) (small : v.natAbs ≤ 2 ^ digits) : Writable v := by
  have grows : 2 ^ digits < 10 ^ digits := Nat.pow_lt_pow_left (by decide) some_digits
  exact writable_of_lt short (Nat.lt_of_le_of_lt small grows)

end Numeral

namespace Arithmetic

/-- What arithmetic makes of two words can be written out. -/
theorem onInts_writable (f : Arithmetic) {s t : IntType} (v : Word s) (w : Word t) {r : Int}
    (done : f.onInts v.toInt w.toInt = .ok r) : Numeral.Writable r := by
  have left := v.natAbs_le
  have right := w.natAbs_le
  apply Numeral.writable_of_le_two_pow 128 (by decide) (by decide)
  cases f with
  | sum => cases done; omega
  | difference => cases done; omega
  | product =>
    cases done
    have wide : (2 : Nat) ^ 64 * 2 ^ 64 = 2 ^ 128 := rfl
    rw [Int.natAbs_mul, ← wide]
    exact Nat.mul_le_mul left right
  | quotient =>
    simp only [onInts] at done
    split at done
    · cases done
    · cases done
      have shrinks := Nat.div_le_self v.toInt.natAbs w.toInt.natAbs
      rw [Int.natAbs_tdiv]
      exact Nat.le_trans (Nat.le_trans shrinks left) (by decide)
  | remainder =>
    simp only [onInts] at done
    split at done
    · cases done
    · cases done
      have shrinks := Nat.mod_le v.toInt.natAbs w.toInt.natAbs
      rw [Int.natAbs_tmod]
      omega

/-- The only fault of integer arithmetic is the division by zero. -/
theorem onInts_fault {f : Arithmetic} {a b : Int} {e : Fault} (failed : f.onInts a b = .error e) :
    e = .divisionByZero := by
  cases f <;> simp only [onInts] at failed
  case quotient => split at failed <;> cases failed; rfl
  case remainder => split at failed <;> cases failed; rfl
  all_goals cases failed

end Arithmetic

/-! ## Floats -/

namespace Precision

/-- A significand has at most 53 digits. -/
theorem unit_le (p : Precision) : 2 * p.unit ≤ 2 ^ 53 := by cases p <;> decide

/-- The exponent of the last place stays below 1024. -/
theorem exponent_le (p : Precision) :
    p.leastExponent + (2 ^ p.exponentBits - 1 : Nat) ≤ 1024 := by cases p <;> decide

end Precision

namespace Floating

variable {p : Precision}

/-- What a finite pattern denotes has a short significand and a small exponent. -/
theorem shape_finite {x : Floating p} {negative : Bool} {m : Nat} {e : Int}
    (finite : x.shape = .finite negative m e) : m ≤ 2 ^ 53 ∧ e ≤ 1024 := by
  have short := p.unit_le
  have low := p.exponent_le
  have positive : 0 < p.unit := Nat.pow_pos (by decide)
  simp only [shape] at finite
  split at finite
  · cases finite
  split at finite
  · cases finite
  rename_i numeric ordinary
  have below : x.magnitude < (2 ^ p.exponentBits - 1) * p.unit :=
    Nat.lt_of_le_of_ne (Nat.le_of_not_lt numeric) ordinary
  split at finite
  · cases finite
    omega
  · cases finite
    have digits := Nat.mod_lt x.magnitude positive
    have field : x.magnitude / p.unit < 2 ^ p.exponentBits - 1 := Nat.div_lt_of_lt_mul (by
      rw [Nat.mul_comm]; exact below)
    constructor <;> omega

/-- The integer part of a float can be written out. -/
theorem truncate?_writable {x : Floating p} {v : Int} (whole : x.truncate? = some v) :
    Numeral.Writable v := by
  unfold truncate? at whole
  split at whole
  case h_2 => cases whole
  case h_1 s m e finite =>
    obtain ⟨short, small⟩ := shape_finite finite
    have bound : (scaled m 1 e).1 / (scaled m 1 e).2 ≤ 2 ^ (53 + e.toNat) := by
      have scale : m * 2 ^ e.toNat ≤ 2 ^ (53 + e.toNat) := by
        rw [Nat.pow_add]
        exact Nat.mul_le_mul_right _ short
      unfold scaled
      split
      · simpa using scale
      · have shrinks := Nat.div_le_self m (1 * 2 ^ (-e).toNat)
        have grows : m * 1 ≤ m * 2 ^ e.toNat := Nat.mul_le_mul_left m Nat.one_le_two_pow
        simp only
        omega
    apply Numeral.writable_of_le_two_pow (53 + e.toNat) (by omega)
      (by unfold Numeral.maxDigits; omega)
    simp only [Option.some.injEq] at whole
    subst whole
    split
    · rwa [Int.natAbs_neg, Int.natAbs_natCast]
    · rwa [Int.natAbs_natCast]

end Floating

/-! ## Bitwise operations -/

namespace Bitwise

/-- A bitwise operation on wider vectors is the same operation. -/
theorem onVectors_signExtend (f : Bitwise) {w : Nat} (x y : BitVec w) (v : Nat) :
    f.onVectors (x.signExtend v) (y.signExtend v) = (f.onVectors x y).signExtend v := by
  cases f
  · exact BitVec.signExtend_and.symm
  · exact BitVec.signExtend_or.symm
  · exact BitVec.signExtend_xor.symm

/-- The sign of the result is the result of the signs. -/
theorem msb_onVectors (f : Bitwise) {w : Nat} (x y : BitVec w) :
    (f.onVectors x y).msb = f.onBools x.msb y.msb := by
  cases f
  · exact BitVec.msb_and
  · exact BitVec.msb_or
  · exact BitVec.msb_xor

/-- Two integers of a width have a bitwise result in any width that holds them both. -/
theorem onVectors_toInt (f : Bitwise) {w v : Nat} {a b : Int} (narrower : w ≤ v)
    (left : (BitVec.ofInt w a).toInt = a) (right : (BitVec.ofInt w b).toInt = b) :
    (f.onVectors (BitVec.ofInt v a) (BitVec.ofInt v b)).toInt =
      (f.onVectors (BitVec.ofInt w a) (BitVec.ofInt w b)).toInt := by
  have a_wide : BitVec.ofInt v a = (BitVec.ofInt w a).signExtend v := by
    rw [BitVec.signExtend, left]
  have b_wide : BitVec.ofInt v b = (BitVec.ofInt w b).signExtend v := by
    rw [BitVec.signExtend, right]
  rw [a_wide, b_wide, onVectors_signExtend, BitVec.toInt_signExtend_of_le narrower]

/-- The width in which an operation on integers is done holds them both. -/
theorem bitsFor_holds {a b v : Int} (either : v = a ∨ v = b) :
    (BitVec.ofInt (bitsFor a b) v).toInt = v := by
  have low : v.natAbs < 2 ^ (v.natAbs.log2 + 1) := Nat.lt_log2_self
  have grows : 2 ^ (v.natAbs.log2 + 1) ≤ 2 ^ (bitsFor a b - 1) := by
    apply Nat.pow_le_pow_right (by decide)
    unfold bitsFor
    rcases either with rfl | rfl <;> omega
  have cast : ((2 ^ (bitsFor a b - 1) : Nat) : Int) = 2 ^ (bitsFor a b - 1) := by simp
  apply BitVec.toInt_ofInt_eq_self (by unfold bitsFor; omega) <;> omega

/-- The operation on integers is the operation in any width that holds both of them. -/
theorem onInts_eq (f : Bitwise) {w : Nat} {a b : Int} (left : (BitVec.ofInt w a).toInt = a)
    (right : (BitVec.ofInt w b).toInt = b) :
    f.onInts a b = (f.onVectors (BitVec.ofInt w a) (BitVec.ofInt w b)).toInt := by
  have wide := f.onVectors_toInt (Nat.le_max_left w (bitsFor a b)) left right
  have done := f.onVectors_toInt (Nat.le_max_right w (bitsFor a b))
    (bitsFor_holds (.inl rfl)) (bitsFor_holds (.inr rfl))
  exact done.symm.trans wide

/-- A bitwise operation on two integers that fit a type fits the type. -/
theorem onInts_fits (f : Bitwise) {t : IntType} {a b : Int} (left : t.Fits a) (right : t.Fits b) :
    t.Fits (f.onInts a b) := by
  cases sign : t.signed with
  | true =>
    rw [IntType.fits_signed_iff sign] at left right ⊢
    have a_held := BitVec.toInt_ofInt_eq_self t.bits_pos left.1 left.2
    have b_held := BitVec.toInt_ofInt_eq_self t.bits_pos right.1 right.2
    rw [f.onInts_eq a_held b_held]
    exact ⟨BitVec.le_toInt _, BitVec.toInt_lt⟩
  | false =>
    -- one more bit makes the operands non-negative vectors, and the result is one too
    rw [IntType.fits_unsigned_iff sign] at left right ⊢
    have low : -2 ^ (t.bits + 1 - 1) ≤ (0 : Int) := Int.neg_nonpos_of_nonneg (Int.pow_nonneg (by decide))
    have a_held := BitVec.toInt_ofInt_eq_self (w := t.bits + 1) (by omega)
      (Int.le_trans low left.1) left.2
    have b_held := BitVec.toInt_ofInt_eq_self (w := t.bits + 1) (by omega)
      (Int.le_trans low right.1) right.2
    rw [f.onInts_eq a_held b_held]
    refine ⟨BitVec.toInt_nonneg_of_msb_false ?_, BitVec.toInt_lt⟩
    have a_msb : (BitVec.ofInt (t.bits + 1) a).msb = false := by
      rw [BitVec.msb_eq_toInt, a_held]; simpa using left.1
    have b_msb : (BitVec.ofInt (t.bits + 1) b).msb = false := by
      rw [BitVec.msb_eq_toInt, b_held]; simpa using right.1
    rw [msb_onVectors, a_msb, b_msb]
    cases f <;> rfl

end Bitwise

end Knot
