import Knot.Proofs.Integers.Exact
import Mathlib.Data.Rat.Floor

/-!
# Division of integers

Integers are divided as rational numbers are, and the fraction of the quotient is dropped
(`Rat.truncated`), whatever the signs; the remainder is what is left of the dividend. Only the division
by zero has no result, and only one quotient is out of range, that of the least integer of a signed type
and `-1`, which the checked division refuses. The remainder is not checked: it is always in range, so that
wrapping leaves it alone.

`Word.divides_truncating` says all of this of the two operators, for any two words of a type.
-/

namespace Knot

/-! ## Quotients without their fractions -/

/-- A rational number without its fraction. -/
def Rat.truncated (x : ℚ) : ℤ := if 0 ≤ x then ⌊x⌋ else ⌈x⌉

/-- Dropping the fraction is the same below zero and above. -/
theorem Rat.truncated_neg (x : ℚ) : truncated (-x) = -truncated x := by
  unfold truncated
  rcases lt_trichotomy x 0 with below | rfl | above
  · rw [if_pos (by linarith), if_neg (by linarith), Int.floor_neg]
  · simp
  · rw [if_neg (by linarith), if_pos (by linarith), Int.ceil_neg]

/-- The truncated quotient of natural numbers is their quotient. -/
theorem Rat.truncated_natCast_div (m n : ℕ) : truncated ((m : ℚ) / n) = ((m / n : ℕ) : ℤ) := by
  have positive : (0 : ℚ) ≤ (m : ℚ) / n := by positivity
  rw [truncated, if_pos positive, Rat.floor_natCast_div_natCast]
  norm_cast

/-- Integer division rounds to zero. -/
theorem Int.tdiv_eq_truncated (a b : ℤ) : a.tdiv b = Rat.truncated ((a : ℚ) / b) := by
  -- both sides are odd in either operand, so that natural numbers are enough
  obtain ⟨m, rfl | rfl⟩ := a.eq_nat_or_neg <;> obtain ⟨n, rfl | rfl⟩ := b.eq_nat_or_neg
  · rw [Int.cast_natCast, Int.cast_natCast, Rat.truncated_natCast_div]
    rfl
  · rw [Int.tdiv_neg, Int.cast_neg, div_neg, Rat.truncated_neg, Int.cast_natCast, Int.cast_natCast,
      Rat.truncated_natCast_div]
    rfl
  · rw [Int.neg_tdiv, Int.cast_neg, neg_div, Rat.truncated_neg, Int.cast_natCast, Int.cast_natCast,
      Rat.truncated_natCast_div]
    rfl
  · rw [Int.neg_tdiv_neg, Int.cast_neg, Int.cast_neg, neg_div_neg_eq, Int.cast_natCast,
      Int.cast_natCast, Rat.truncated_natCast_div]
    rfl

/-! ## Ranges -/

namespace IntType

variable {t : IntType} {a b : Int}

/-- A remainder stays in the range of the dividend and of the divisor. -/
theorem tmod_fits (left : t.Fits a) (right : t.Fits b) (nonzero : b ≠ 0) : t.Fits (a.tmod b) := by
  have size := Int.natAbs_tmod a b
  have below : a.natAbs % b.natAbs < b.natAbs := Nat.mod_lt _ (by omega)
  have shrinks : a.natAbs % b.natAbs ≤ a.natAbs := Nat.mod_le _ _
  have above : 0 ≤ a → 0 ≤ a.tmod b := fun h => Int.tmod_nonneg b h
  cases sign : t.signed with
  | true =>
    rw [fits_signed_iff sign] at left right ⊢
    omega
  | false =>
    rw [fits_unsigned_iff sign] at left right ⊢
    omega

/-- The least integer of a signed type. -/
theorem lo_of_signed (signed : t.signed = true) : t.lo = -2 ^ (t.bits - 1) := by
  rw [lo, if_pos signed]

/-- The divisors but `-1` make no integer of the range longer, and do not change the sign of a longest
one. -/
theorem tdiv_fits (left : t.Fits a) (right : t.Fits b) (nonzero : b ≠ 0) (other : b ≠ -1) :
    t.Fits (a.tdiv b) := by
  have shrinks := Int.natAbs_tdiv_le_natAbs a b
  have above : 0 ≤ a → 0 < b → 0 ≤ a.tdiv b := fun h h' => Int.tdiv_nonneg h (by omega)
  cases sign : t.signed with
  | false =>
    rw [fits_unsigned_iff sign] at left right ⊢
    omega
  | true =>
    rw [fits_signed_iff sign] at left right ⊢
    rcases Int.lt_or_gt_of_ne nonzero with negative | positive
    · -- the divisor is `-2` or less, which leaves half of the dividend at most
      have halves : (a.tdiv b).natAbs ≤ a.natAbs / 2 := by
        rw [Int.natAbs_tdiv]
        exact Nat.div_le_div_left (by omega) (by decide)
      have half : (0 : Int) < 2 ^ (t.bits - 1) := Int.pow_pos (by decide)
      omega
    · have below : a ≤ 0 → a.tdiv b ≤ 0 := by
        intro h
        have := Int.tdiv_nonneg (Int.neg_nonneg_of_nonpos h) (Int.le_of_lt positive)
        rw [Int.neg_tdiv] at this
        omega
      omega

/-- A quotient is out of range only if it is the negation of the least integer. -/
theorem tdiv_fits_iff (left : t.Fits a) (right : t.Fits b) (nonzero : b ≠ 0) :
    t.Fits (a.tdiv b) ↔ ¬ (t.signed = true ∧ a = t.lo ∧ b = -1) := by
  by_cases last : b = -1
  · subst last
    have negation : a.tdiv (-1) = -a := by rw [Int.tdiv_neg, Int.tdiv_one]
    rw [negation]
    cases sign : t.signed with
    | false =>
      -- there is no `-1` in an unsigned type
      rw [fits_unsigned_iff sign] at right
      omega
    | true =>
      have low := lo_of_signed sign
      rw [fits_signed_iff sign] at left ⊢
      simp only [true_and, and_true]
      omega
  · have fits := tdiv_fits left right nonzero last
    simp [fits, last]

end IntType

/-! ## The operators -/

namespace Word

variable {t : IntType} (a b : Word t)

/-- What the two operators of division make of two words of a type. -/
structure DividesTruncating : Prop where
  /-- There is no quotient exactly if the divisor is zero, -/
  divide_zero : BinaryOp.divide.apply a.value b.value = .error .divisionByZero ↔ b.toInt = 0
  /-- and the quotient is out of range exactly if the least integer of a signed type is divided by `-1`. -/
  divide_overflow : (∃ f, BinaryOp.divide.apply a.value b.value = .error f ∧ f.isOverflow = true) ↔
    t.signed = true ∧ a.toInt = t.lo ∧ b.toInt = -1
  /-- The fault tells the integer that the type does not have. -/
  overflow : t.signed = true → a.toInt = t.lo → b.toInt = -1 →
    BinaryOp.divide.apply a.value b.value = .error (.outOfRange (-t.lo) t)
  /-- In all other cases the quotient loses its fraction only. -/
  quotient : b.toInt ≠ 0 → ¬ (t.signed = true ∧ a.toInt = t.lo ∧ b.toInt = -1) →
    ∃ q : Word t, BinaryOp.divide.apply a.value b.value = .ok q.value ∧
      q.toInt = Rat.truncated ((a.toInt : ℚ) / b.toInt)
  /-- The remainder of a division by zero is the only one that there is not. -/
  modulo_fails : (∃ f, BinaryOp.modulo.apply a.value b.value = .error f) ↔ b.toInt = 0
  modulo_zero : b.toInt = 0 → BinaryOp.modulo.apply a.value b.value = .error .divisionByZero
  /-- A remainder is what the quotient leaves, and not what that is wrapped to. It is less than the divisor
  and has the sign of the dividend. -/
  remainder : b.toInt ≠ 0 → ∃ r : Word t, BinaryOp.modulo.apply a.value b.value = .ok r.value ∧
    r.toInt = a.toInt - b.toInt * Rat.truncated ((a.toInt : ℚ) / b.toInt) ∧
    |r.toInt| < |b.toInt| ∧ (r.toInt = 0 ∨ r.toInt.sign = a.toInt.sign)
  /-- A quotient and a remainder make up the dividend. -/
  law : ∀ v w, BinaryOp.divide.apply a.value b.value = .ok v →
    BinaryOp.modulo.apply a.value b.value = .ok w → ∃ q r : Word t, v = q.value ∧ w = r.value ∧
      a.toInt = b.toInt * q.toInt + r.toInt

section

variable {a b}

/-- The quotient is brought into the type of the words with a check, and the remainder without one. -/
theorem divide_eq (a b : Word t) : BinaryOp.divide.apply a.value b.value =
    (Arithmetic.quotient.onInts a.toInt b.toInt >>= t.bring true).map .scalar :=
  BinaryOp.apply_words a b rfl

theorem modulo_eq (a b : Word t) : BinaryOp.modulo.apply a.value b.value =
    (Arithmetic.remainder.onInts a.toInt b.toInt >>= t.bring false).map .scalar :=
  BinaryOp.apply_words a b rfl

/-- A quotient is checked. -/
theorem apply_divide (nonzero : b.toInt ≠ 0) :
    BinaryOp.divide.apply a.value b.value = (t.check (a.toInt.tdiv b.toInt)).map .scalar := by
  have computed : Arithmetic.quotient.onInts a.toInt b.toInt = .ok (a.toInt.tdiv b.toInt) := if_neg nonzero
  rw [divide_eq, computed]
  rfl

theorem apply_divide_of_fits (nonzero : b.toInt ≠ 0) (fits : t.Fits (a.toInt.tdiv b.toInt)) :
    BinaryOp.divide.apply a.value b.value = .ok (value ⟨_, fits⟩) := by
  rw [apply_divide nonzero, IntType.check_of_fits fits]
  rfl

theorem apply_divide_of_not_fits (nonzero : b.toInt ≠ 0) (apart : ¬ t.Fits (a.toInt.tdiv b.toInt)) :
    BinaryOp.divide.apply a.value b.value = .error (.outOfRange (a.toInt.tdiv b.toInt) t) := by
  have computed : Arithmetic.quotient.onInts a.toInt b.toInt = .ok (a.toInt.tdiv b.toInt) := if_neg nonzero
  have writable := Arithmetic.quotient.onInts_writable a b computed
  rw [apply_divide nonzero, IntType.check_of_not_fits apart, IntType.rangeFault_of_writable writable]
  rfl

/-- A remainder is wrapped, which leaves it alone. -/
theorem apply_modulo (nonzero : b.toInt ≠ 0) :
    BinaryOp.modulo.apply a.value b.value =
      .ok (value ⟨_, IntType.tmod_fits a.fits b.fits nonzero⟩) := by
  have computed : Arithmetic.remainder.onInts a.toInt b.toInt = .ok (a.toInt.tmod b.toInt) := if_neg nonzero
  have itself : wrap t (a.toInt.tmod b.toInt) = ⟨_, IntType.tmod_fits a.fits b.fits nonzero⟩ :=
    eq_of_toInt_eq (IntType.wrap_of_fits (IntType.tmod_fits a.fits b.fits nonzero))
  rw [modulo_eq, computed, ← itself]
  rfl

/-- There is neither by zero. -/
theorem apply_divide_zero (zero : b.toInt = 0) :
    BinaryOp.divide.apply a.value b.value = .error .divisionByZero ∧
      BinaryOp.modulo.apply a.value b.value = .error .divisionByZero := by
  have quotient : Arithmetic.quotient.onInts a.toInt b.toInt = .error .divisionByZero := if_pos zero
  have remainder : Arithmetic.remainder.onInts a.toInt b.toInt = .error .divisionByZero := if_pos zero
  rw [divide_eq, quotient, modulo_eq, remainder]
  exact ⟨rfl, rfl⟩

/-- A division by zero, a quotient in the range of the type, or one out of it. -/
theorem divide_cases (a b : Word t) :
    (b.toInt = 0 ∧ BinaryOp.divide.apply a.value b.value = .error .divisionByZero) ∨
    (b.toInt ≠ 0 ∧ ∃ fits : t.Fits (a.toInt.tdiv b.toInt),
      BinaryOp.divide.apply a.value b.value = .ok (value ⟨_, fits⟩)) ∨
    (b.toInt ≠ 0 ∧ ¬ t.Fits (a.toInt.tdiv b.toInt) ∧
      BinaryOp.divide.apply a.value b.value = .error (.outOfRange (a.toInt.tdiv b.toInt) t)) := by
  by_cases zero : b.toInt = 0
  · exact .inl ⟨zero, (apply_divide_zero zero).1⟩
  · by_cases fits : t.Fits (a.toInt.tdiv b.toInt)
    · exact .inr (.inl ⟨zero, fits, apply_divide_of_fits zero fits⟩)
    · exact .inr (.inr ⟨zero, fits, apply_divide_of_not_fits zero fits⟩)

/-- The one quotient that is out of range. -/
theorem apply_divide_lo (signed : t.signed = true) (least : a.toInt = t.lo) (last : b.toInt = -1) :
    BinaryOp.divide.apply a.value b.value = .error (.outOfRange (-t.lo) t) := by
  have nonzero : b.toInt ≠ 0 := by omega
  have apart : ¬ t.Fits (a.toInt.tdiv b.toInt) := by
    rw [IntType.tdiv_fits_iff a.fits b.fits nonzero]
    exact not_not_intro ⟨signed, least, last⟩
  have negation : a.toInt.tdiv b.toInt = -t.lo := by
    rw [least, last, Int.tdiv_neg, Int.tdiv_one]
  rw [apply_divide_of_not_fits nonzero apart, negation]

/-- What is left of the dividend is less than the divisor, and has the sign of the dividend. -/
theorem remainder_bounds (nonzero : b.toInt ≠ 0) :
    |a.toInt.tmod b.toInt| < |b.toInt| ∧
      (a.toInt.tmod b.toInt = 0 ∨ (a.toInt.tmod b.toInt).sign = a.toInt.sign) := by
  constructor
  · have size := Int.natAbs_tmod a.toInt b.toInt
    have below : a.toInt.natAbs % b.toInt.natAbs < b.toInt.natAbs := Nat.mod_lt _ (by omega)
    rw [Int.abs_eq_natAbs, Int.abs_eq_natAbs]
    omega
  · have sign := Int.sign_tmod a.toInt b.toInt
    split at sign
    next => exact .inl (Int.sign_eq_zero_iff_zero.1 sign)
    next => exact .inr sign

end

/-- Division drops the fraction of the quotient, and the remainder is what it leaves. -/
theorem divides_truncating : a.DividesTruncating b where
  divide_zero := by
    constructor
    · intro failed
      rcases divide_cases a b with ⟨zero, -⟩ | ⟨-, fits, returned⟩ | ⟨-, -, refused⟩
      · exact zero
      · rw [returned] at failed
        cases failed
      · rw [refused] at failed
        cases failed
    · intro zero
      exact (apply_divide_zero zero).1
  divide_overflow := by
    constructor
    · intro ⟨f, failed, overflow⟩
      rcases divide_cases a b with ⟨-, missing⟩ | ⟨-, fits, returned⟩ | ⟨nonzero, apart, -⟩
      · -- the fault of a division by zero is another one
        rw [missing] at failed
        cases failed
        cases overflow
      · rw [returned] at failed
        cases failed
      · by_contra other
        exact apart ((IntType.tdiv_fits_iff a.fits b.fits nonzero).2 other)
    · intro ⟨signed, least, last⟩
      exact ⟨_, apply_divide_lo signed least last, rfl⟩
  overflow := apply_divide_lo
  quotient := by
    intro nonzero other
    have fits := (IntType.tdiv_fits_iff a.fits b.fits nonzero).2 other
    exact ⟨⟨_, fits⟩, apply_divide_of_fits nonzero fits, Int.tdiv_eq_truncated _ _⟩
  modulo_fails := by
    constructor
    · intro ⟨f, failed⟩
      by_contra nonzero
      rw [apply_modulo nonzero] at failed
      cases failed
    · intro zero
      exact ⟨_, (apply_divide_zero zero).2⟩
  modulo_zero := fun zero => (apply_divide_zero zero).2
  remainder := by
    intro nonzero
    refine ⟨_, apply_modulo nonzero, ?_, remainder_bounds nonzero⟩
    rw [← Int.tdiv_eq_truncated]
    exact Int.tmod_def _ _
  law := by
    intro v w divided left
    rcases divide_cases a b with ⟨-, missing⟩ | ⟨nonzero, fits, returned⟩ | ⟨-, -, refused⟩
    · rw [missing] at divided
      cases divided
    · rw [returned] at divided
      rw [apply_modulo nonzero] at left
      cases divided
      cases left
      exact ⟨_, _, rfl, rfl, (Int.mul_tdiv_add_tmod _ _).symm⟩
    · rw [refused] at divided
      cases divided

/-- A negative dividend: the quotient is rounded up, and the remainder is negative. -/
example : BinaryOp.divide.apply (wrap ⟨true, .w8⟩ (-7)).value (wrap ⟨true, .w8⟩ 2).value =
      .ok (wrap ⟨true, .w8⟩ (-3)).value ∧
    BinaryOp.modulo.apply (wrap ⟨true, .w8⟩ (-7)).value (wrap ⟨true, .w8⟩ 2).value =
      .ok (wrap ⟨true, .w8⟩ (-1)).value := ⟨rfl, rfl⟩

end Word

end Knot
