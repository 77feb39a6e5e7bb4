import Knot.Proofs.Operators
import Knot.Proofs.TwosComplement
import Mathlib.Data.Int.ModEq

/-!
# Checked and unchecked integers

Every integer operator computes an exact integer first and then brings it into the type of its result,
either with a check or without one (`IntType.bring`). So there is one statement about all pairs of a
checked and an unchecked operator, which is about the exact result only (`IntType.Agrees`): the checked
one returns the exact result where the type has it and overflows everywhere else, the unchecked one
returns the word that is congruent to it, and the two agree exactly where the checked one returns.

`Word.checks_agree` is the list of these pairs: the sums, the differences, the products, the negations,
and the conversions into any integer type.
-/

namespace Knot

/-! ## What operators make of words -/

/-- A word as a value. -/
def Word.value {t : IntType} (a : Word t) : Value := .scalar (.int t a)

/-- A scalar result as a value. -/
theorem Except.bind_pure_scalar (x : Except Fault Scalar) :
    (x >>= fun s => pure (Value.scalar s)) = x.map .scalar := by
  cases x <;> rfl

section

variable {t : IntType} (a b : Word t)

/-- An arithmetic operator brings the exact result of its operation into the type of the words. -/
theorem BinaryOp.apply_words {op : BinaryOp} {f : Arithmetic} {checked : Bool}
    (computes : op.arithmetic? = some (f, checked)) :
    op.apply a.value b.value =
      (f.onInts a.toInt b.toInt >>= t.bring checked).map .scalar := by
  have arithmetic : (Scalar.int t a).applyBinary op b.value =
      f.onInts a.toInt b.toInt >>= t.bring checked := by
    -- an operator of arithmetic is none of the comparisons and of the bitwise ones
    have no_comparison : op.comparison? = none := by cases op <;> first | rfl | cases computes
    have no_bitwise : op.bitwise? = none := by cases op <;> first | rfl | cases computes
    simp only [Scalar.applyBinary, no_comparison, no_bitwise, computes]
    rfl
  rw [← Except.bind_pure_scalar, ← arithmetic]
  rfl

/-- A negation brings the exact negation into the type of the word. -/
theorem UnaryOp.apply_negate (target : StaticType) :
    UnaryOp.negate.apply a.value target = (t.bring false (-a.toInt)).map .scalar := rfl

/-- So does the checked one. -/
theorem UnaryOp.apply_negateChecked (target : StaticType) :
    UnaryOp.negateChecked.apply a.value target = (t.bring true (-a.toInt)).map .scalar := by
  rw [← Except.bind_pure_scalar]
  rfl

/-- A conversion of a word to its own type leaves it alone. -/
theorem Word.convert_self (checked : Bool) :
    a.value.convert (.value (.int t)) checked = .ok a.value := by
  have own : a.value.hasType (.int t) = true := by simp [value, Value.hasType, Scalar.type]
  rw [Value.convert, if_pos own]

/-- A conversion brings the integer of the word into the other type. -/
theorem Word.convert_value (s : IntType) (checked : Bool) :
    a.value.convert (.value (.int s)) checked = (s.bring checked a.toInt).map .scalar := by
  by_cases own : t = s
  · subst own
    rw [convert_self]
    -- the integer is brought into a range that it lies in
    cases checked with
    | false =>
      show _ = Except.ok (Word.wrap t a.toInt).value
      rw [wrap_toInt]
    | true =>
      show _ = (t.check a.toInt).map Value.scalar
      rw [IntType.check_of_fits a.fits]
      rfl
  · have other : a.value.hasType (.int s) = false := by simp [value, Value.hasType, Scalar.type, own]
    rw [← Except.bind_pure_scalar]
    simp only [Value.convert, other, Bool.false_eq_true, if_false]
    rfl

end

/-! ## Results with and without a check -/

/-- How an unchecked and a checked result of a type come from one exact integer. -/
structure IntType.Agrees (t : IntType) (result : Int) (unchecked checked : Except Fault Value) : Prop where
  /-- The check lets an integer pass exactly if the type has it. -/
  returns_iff : (∃ v, checked = .ok v) ↔ t.Fits result
  /-- What passes is the integer itself. -/
  returns : ∀ fits : t.Fits result, checked = .ok (Word.value ⟨result, fits⟩)
  /-- What does not pass is out of the range of the type, and the fault tells which integer it was. -/
  overflows : ¬ t.Fits result → checked = .error (.outOfRange result t)
  /-- Without a check there is always a word, and it is congruent to the integer. -/
  wraps : ∃ r : Word t, unchecked = .ok r.value ∧ r.toInt ≡ result [ZMOD 2 ^ t.bits]
  /-- The two results are the same exactly if the check lets the integer pass. -/
  agree_iff : unchecked = checked ↔ ∃ v, checked = .ok v

/-- Bringing an integer into a type with and without a check. -/
theorem IntType.bring_agrees (t : IntType) {v : Int} (writable : Numeral.Writable v) :
    t.Agrees v ((t.bring false v).map .scalar) ((t.bring true v).map .scalar) := by
  have unchecked : (t.bring false v).map Value.scalar = .ok (Word.wrap t v).value := rfl
  have inside (fits : t.Fits v) : (t.bring true v).map Value.scalar = .ok (Word.value ⟨v, fits⟩) := by
    show (t.check v).map Value.scalar = _
    rw [check_of_fits fits]
    rfl
  have outside (apart : ¬ t.Fits v) : (t.bring true v).map Value.scalar = .error (.outOfRange v t) := by
    show (t.check v).map Value.scalar = _
    rw [check_of_not_fits apart, rangeFault_of_writable writable]
    rfl
  have returns_iff : (∃ w, (t.bring true v).map Value.scalar = .ok w) ↔ t.Fits v := by
    constructor
    · intro ⟨w, returned⟩
      by_contra apart
      rw [outside apart] at returned
      cases returned
    · intro fits
      exact ⟨_, inside fits⟩
  refine ⟨returns_iff, inside, outside, ⟨Word.wrap t v, unchecked, Word.wrap_emod v⟩, ?_⟩
  constructor
  · intro same
    exact ⟨_, same.symm.trans unchecked⟩
  · intro returned
    -- an integer of the range wraps to itself
    have fits := returns_iff.1 returned
    have itself : Word.wrap t v = ⟨v, fits⟩ := Word.eq_of_toInt_eq (wrap_of_fits fits)
    rw [unchecked, inside fits, itself]

/-- An arithmetic operation that is defined on all integers, with and without a check. -/
theorem BinaryOp.agrees_words {t : IntType} (a b : Word t) {plain checking : BinaryOp} {f : Arithmetic}
    {v : Int} (unchecked : plain.arithmetic? = some (f, false))
    (checked : checking.arithmetic? = some (f, true)) (computed : f.onInts a.toInt b.toInt = .ok v) :
    t.Agrees v (plain.apply a.value b.value) (checking.apply a.value b.value) := by
  rw [apply_words a b unchecked, apply_words a b checked, computed]
  exact t.bring_agrees (f.onInts_writable a b computed)

namespace Word

variable {t : IntType} (a b : Word t)

/-- The operators that come with and without a check, on two words. -/
structure ChecksAgree : Prop where
  add : t.Agrees (a.toInt + b.toInt) (BinaryOp.add.apply a.value b.value)
    (BinaryOp.addChecked.apply a.value b.value)
  subtract : t.Agrees (a.toInt - b.toInt) (BinaryOp.subtract.apply a.value b.value)
    (BinaryOp.subtractChecked.apply a.value b.value)
  multiply : t.Agrees (a.toInt * b.toInt) (BinaryOp.multiply.apply a.value b.value)
    (BinaryOp.multiplyChecked.apply a.value b.value)
  /-- The static type of the node does not matter to a negation. -/
  negate : ∀ target, t.Agrees (-a.toInt) (UnaryOp.negate.apply a.value target)
    (UnaryOp.negateChecked.apply a.value target)
  /-- A conversion may go to any integer type. -/
  convert : ∀ s : IntType, s.Agrees a.toInt (UnaryOp.convert.apply a.value (.value (.int s)))
    (UnaryOp.convertChecked.apply a.value (.value (.int s)))

/-- With a check and without one, the operators make of the exact results what the type has of them. -/
theorem checks_agree : a.ChecksAgree b where
  add := BinaryOp.agrees_words a b (f := .sum) rfl rfl rfl
  subtract := BinaryOp.agrees_words a b (f := .difference) rfl rfl rfl
  multiply := BinaryOp.agrees_words a b (f := .product) rfl rfl rfl
  negate target := by
    rw [UnaryOp.apply_negate, UnaryOp.apply_negateChecked]
    exact t.bring_agrees a.writable.2
  convert s := by
    have unchecked : UnaryOp.convert.apply a.value (.value (.int s)) = _ := convert_value a s false
    have checked : UnaryOp.convertChecked.apply a.value (.value (.int s)) = _ := convert_value a s true
    rw [unchecked, checked]
    exact s.bring_agrees a.writable.1

end Word

end Knot
