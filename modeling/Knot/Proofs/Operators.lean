import Knot.Proofs.Builders
import Knot.Proofs.Range

/-!
# What operators make of typed scalars

The builder admits an operator on operands of certain static types. On scalars of these types the
operator gives a scalar of the type that the node gets, or fails by a fault of arithmetic: a
division by zero, or a result out of range.

* `BinaryOp.apply_yields`: the binary operators other than the assignment;
* `UnaryOp.apply_yields`: the unary operators that are no conversions;
* `UnaryOp.apply_yields_of_conversion`: the conversions between value types.
-/

namespace Knot

/-! ## Faults of arithmetic -/

/-- A number out of the range of a type. -/
def Fault.isOverflow : Fault → Bool
  | outOfRange _ _ | floatOutOfRange _ _ | notFinite _ _ => true
  | _ => false

/-- A division by zero, or a number out of the range of a type. -/
def Fault.isArithmetic : Fault → Bool
  | divisionByZero => true
  | f => f.isOverflow

/-- The result is a scalar of the type, or a fault of arithmetic. -/
def Yields (t : ValueType) : Except Fault Scalar → Prop
  | .ok s => s.type = t
  | .error f => f.isArithmetic = true

/-- The result is a value of the type, or a fault of arithmetic. -/
def YieldsValue (t : ValueType) : Except Fault Value → Prop
  | .ok v => v.hasType t = true
  | .error f => f.isArithmetic = true

/-- A value of a value type is a scalar of that type. -/
theorem Value.hasType_iff {v : Value} {t : ValueType} :
    v.hasType t = true ↔ ∃ s, v = .scalar s ∧ s.type = t := by
  cases v <;> simp [hasType]

/-- A scalar result as a value. -/
theorem YieldsValue.of_scalar {t : ValueType} {x : Except Fault Scalar} (h : Yields t x) :
    YieldsValue t (x >>= fun s => pure (.scalar s)) := by
  cases x with
  | ok s => exact Value.hasType_iff.2 ⟨s, rfl, h⟩
  | error f => exact h

/-! ## Integers -/

/-- An integer that can be written out is brought into a type, or it is out of its range. -/
theorem IntType.bring_yields (t : IntType) (checked : Bool) {v : Int} (h : Numeral.Writable v) :
    Yields (.int t) (t.bring checked v) := by
  unfold bring
  split
  · by_cases fits : t.Fits v
    · rw [check_of_fits fits]
      rfl
    · rw [check_of_not_fits fits, rangeFault_of_writable h]
      rfl
  · exact Scalar.type_wrapped t v

/-- A word and its negation can be written out. -/
theorem Word.writable {t : IntType} (w : Word t) :
    Numeral.Writable w.toInt ∧ Numeral.Writable (-w.toInt) := by
  have short := w.natAbs_le
  constructor
  · exact Numeral.writable_of_le_two_pow 64 (by decide) (by decide) short
  · refine Numeral.writable_of_le_two_pow 64 (by decide) (by decide) ?_
    rwa [Int.natAbs_neg]

/-- Arithmetic on two words gives a word of the left type, or it has no result. -/
theorem Arithmetic.onInts_yields (f : Arithmetic) (checked : Bool) {s t : IntType} (v : Word s)
    (w : Word t) : Yields (.int s) (f.onInts v.toInt w.toInt >>= s.bring checked) := by
  cases done : f.onInts v.toInt w.toInt with
  | ok exact_ => exact s.bring_yields checked (f.onInts_writable v w done)
  | error e =>
    rw [Arithmetic.onInts_fault done]
    rfl

/-! ## Comparisons -/

/-- Two floats of a format can be compared. -/
theorem Comparison.onNumbers_floating (c : Comparison) {p : Precision} (x y : Floating p) :
    ∃ b, c.onNumbers (.scalar (.float p x)) (.scalar (.float p y)) = .ok b := ⟨_, rfl⟩

/-- Two scalars of a type can be compared. -/
theorem Scalar.compare_same (c : Comparison) {a b : Scalar} (same : a.type = b.type) :
    ∃ r, a.compare c (.scalar b) = .ok r := by
  cases a with
  | bool x =>
    cases b with
    | bool y => exact ⟨_, rfl⟩
    | int t w => cases same
    | float p y => cases same
  | int s v =>
    cases b with
    | bool y => cases same
    | int t w => exact ⟨_, rfl⟩
    | float p y => cases same
  | float p x =>
    cases b with
    | bool y => cases same
    | int t w => cases same
    | float q y =>
      cases same
      exact c.onNumbers_floating x y

/-! ## Binary operators -/

namespace Scalar

/-- A bitwise operation on two scalars of a type, no floats, stays in the type. -/
theorem bitwise_yields (op : BinaryOp) (f : Bitwise) {a b : Scalar} (same : a.type = b.type)
    (whole : a.type.isFloat = false) : Yields a.type (a.bitwise op f (.scalar b)) := by
  cases a with
  | bool x => rfl
  | int t v =>
    cases b with
    | bool y => cases same
    | float p y => cases same
    | int u w =>
      cases same
      have fits := f.onInts_fits v.fits w.fits
      have found : Word.ofInt? t (f.onInts v.toInt w.toInt) = some ⟨_, fits⟩ :=
        Word.ofInt?_eq_some_iff.2 rfl
      have done : (int t v).bitwise op f (.scalar (int t w)) = .ok (int t ⟨_, fits⟩) := by
        simp only [bitwise, Value.toInt, Scalar.toInt, bind, Except.bind, found, pure, Except.pure]
      rw [done]
      rfl
  | float p x => cases whole

/-- Arithmetic on two scalars of a type, no truth values, stays in the type. -/
theorem arithmetic_yields (op : BinaryOp) (f : Arithmetic) (checked : Bool) {a b : Scalar}
    (same : a.type = b.type) (number : a.type.isBool = false) :
    Yields a.type (a.arithmetic op f checked (.scalar b)) := by
  cases a with
  | bool x => cases number
  | int t v =>
    cases b with
    | bool y => cases same
    | float p y => cases same
    | int u w => exact f.onInts_yields checked v w
  | float p x =>
    cases b with
    | bool y => cases same
    | int t w => cases same
    | float q y =>
      cases same
      rfl

/-- A shift of an integer by an integer stays in the type of the left one. -/
theorem shift_yields (toLeft : Bool) {a b : Scalar} (left : a.type.isInt = true)
    (right : b.type.isInt = true) : Yields a.type (a.shift toLeft (.scalar b)) := by
  cases a with
  | bool x => cases left
  | float p x => cases left
  | int t v =>
    cases b with
    | bool y => cases right
    | float p y => cases right
    | int u w => rfl

end Scalar

namespace Build

/-- An operator that the builder admits on two types gives a scalar of the type of the node, or a
fault of arithmetic, on all scalars of these types. -/
theorem binaryType_yields {op : BinaryOp} {a b : Scalar} {t : ValueType} (other : op ≠ .assign)
    (admitted : binaryType op a.type b.type = .ok t) : Yields t (a.applyBinary op (.scalar b)) := by
  rcases binaryType_ok admitted with ⟨shift, left, right, rfl⟩ | ⟨same, comparison, rfl⟩ |
    ⟨same, connective, truth, rfl⟩ | ⟨same, bitwise, whole, rfl⟩ |
    ⟨same, shift, comparison, connective, bitwise, number, rfl⟩
  · cases op <;> try cases shift
    · exact Scalar.shift_yields true left right
    · exact Scalar.shift_yields false left right
  · have compared : ∀ c, op.comparison? = some c → Yields .bool (a.applyBinary op (.scalar b)) := by
      intro c asked
      obtain ⟨r, done⟩ := Scalar.compare_same c same
      simp only [Scalar.applyBinary, asked, done]
      rfl
    cases op <;> try cases comparison
    all_goals exact compared _ rfl
  · cases op <;> try cases connective
    all_goals rfl
  · cases op <;> try cases bitwise
    all_goals exact Scalar.bitwise_yields _ _ same whole
  · have computed : ∀ f checked, op.comparison? = none → op.bitwise? = none →
        op.arithmetic? = some (f, checked) → Yields a.type (a.applyBinary op (.scalar b)) := by
      intro f checked no_comparison no_bitwise asked
      simp only [Scalar.applyBinary, no_comparison, no_bitwise, asked]
      exact Scalar.arithmetic_yields op f checked same number
    cases op <;> first | exact computed _ _ rfl rfl rfl | contradiction

end Build

/-- The same for values. -/
theorem BinaryOp.apply_yields {op : BinaryOp} {v w : Value} {s t r : ValueType}
    (other : op ≠ .assign) (left : v.hasType s = true) (right : w.hasType t = true)
    (admitted : Build.binaryType op s t = .ok r) : YieldsValue r (op.apply v w) := by
  obtain ⟨a, rfl, rfl⟩ := Value.hasType_iff.1 left
  obtain ⟨b, rfl, rfl⟩ := Value.hasType_iff.1 right
  exact .of_scalar (Build.binaryType_yields other admitted)

/-! ## Unary operators -/

namespace Scalar

/-- The negation of a number stays in its type. -/
theorem negate_yields (checked : Bool) {s : Scalar} (number : s.type.isBool = false) :
    Yields s.type (s.negate checked) := by
  cases s with
  | bool b => cases number
  | int t w => exact t.bring_yields checked w.writable.2
  | float p x => rfl

/-- The complement of a truth value or an integer stays in its type. -/
theorem complement_yields {s : Scalar} (whole : s.type.isFloat = false) :
    Yields s.type s.complement := by
  cases s with
  | bool b => rfl
  | int t w => rfl
  | float p x => cases whole

/-- A scalar converted to an integer type is of that type, or it is out of its range. -/
theorem convertInt_yields (s : Scalar) (t : IntType) (checked : Bool) :
    Yields (.int t) (s.convertInt t checked) := by
  cases s with
  | bool b =>
    refine t.bring_yields checked
      (Numeral.writable_of_le_two_pow 1 (by decide) (by decide) ?_)
    cases b <;> decide
  | int u w => exact t.bring_yields checked w.writable.1
  | float p x =>
    unfold convertInt
    split
    next => contradiction
    next => contradiction
    next whole =>
      cases whole
      split
      next v found => exact t.bring_yields checked (Floating.truncate?_writable found)
      next =>
        split
        · rfl
        · rfl

end Scalar

/-- A scalar converted to a value type is of that type, or it is out of its range. -/
theorem Value.convert_yields {v : Value} {s : ValueType} (h : v.hasType s = true) (t : ValueType)
    (checked : Bool) : YieldsValue t (v.convert (.value t) checked) := by
  obtain ⟨a, rfl, -⟩ := Value.hasType_iff.1 h
  unfold convert
  simp only
  split
  next already => exact already
  next =>
    cases t with
    | bool => rfl
    | float p => exact Value.hasType_iff.2 ⟨_, rfl, rfl⟩
    | int r => exact .of_scalar (a.convertInt_yields r checked)

/-- A conversion gives a value of the type that it converts to, or it has no result. -/
theorem UnaryOp.apply_yields_of_conversion {op : UnaryOp} {v : Value} {s : ValueType}
    (conversion : op.isConversion = true) (typed : v.hasType s = true) (t : ValueType) :
    YieldsValue t (op.apply v (.value t)) := by
  cases op with
  | convert => exact Value.convert_yields typed t false
  | convertChecked => exact Value.convert_yields typed t true
  | negate => cases conversion
  | negateChecked => cases conversion
  | not => cases conversion

/-- An operator that is no conversion keeps the type of its operand, or it has no result. -/
theorem UnaryOp.apply_yields {op : UnaryOp} {v : Value} {t : ValueType}
    (other : op.isConversion = false) (typed : v.hasType t = true)
    (whole : op = .not → t.isFloat = false) (number : op ≠ .not → t.isBool = false) :
    YieldsValue t (op.apply v (.value t)) := by
  obtain ⟨a, rfl, rfl⟩ := Value.hasType_iff.1 typed
  cases op with
  | negate => exact .of_scalar (a.negate_yields false (number (by decide)))
  | negateChecked => exact .of_scalar (a.negate_yields true (number (by decide)))
  | not => exact .of_scalar (a.complement_yields (whole rfl))
  | convert => cases other
  | convertChecked => cases other

/-! ## Coercion -/

/-- What a value type coerces a value to is of that type. -/
theorem ValueType.coerce_hasType {t : ValueType} {v w : Value} (done : t.coerce v = .ok w) :
    w.hasType t = true := by
  unfold coerce at done
  split at done
  next already =>
    cases done
    exact already
  next =>
    split at done
    next => cases done; rfl
    next r =>
      obtain ⟨n, -, done⟩ := Except.bind_eq_ok.1 done
      obtain ⟨s, checked, done⟩ := Except.bind_eq_ok.1 done
      cases done
      unfold IntType.check at checked
      split at checked
      next => cases checked; exact Value.hasType_iff.2 ⟨_, rfl, rfl⟩
      next => cases checked
    next p =>
      obtain ⟨x, -, done⟩ := Except.bind_eq_ok.1 done
      cases done
      exact Value.hasType_iff.2 ⟨_, rfl, rfl⟩

end Knot
