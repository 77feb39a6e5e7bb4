import Knot.Value.Number

/-!
# Numbers and the ranges of integer types

`ValueType.wrap` brings a number of any kind into the range of an integer type, modulo the size of
the range, and `ValueType.check` refuses a number outside. A fraction is dropped last of all.

The bounds of the type take part in the arithmetic as plain integers do: a scalar integer computes
in its own type, in which they have to fit, a scalar float in its own format, to which they are
rounded.
-/

namespace Knot

namespace IntType

/-- A float brought into the range of a type by float arithmetic. -/
def wrapFloating {p : Precision} (t : IntType) (x : Floating p) : Floating p :=
  ((x.sub (.ofInt t.lo)).floorRem (.ofInt t.span)).add (.ofInt t.lo)

/-- The word that a machine makes of a float: its integer part, wrapped. What has none becomes the
word of the highest bit alone in types of the machine's own widths, and zero in the others. -/
def machineWord {p : Precision} (t : IntType) (x : Floating p) : Scalar :=
  match x.truncate? with
  | some v => .wrapped t v
  | none =>
    if t.width = .w64 ∨ (t.width = .w32 ∧ t.signed = true) then .wrapped t (2 ^ (t.bits - 1))
    else .wrapped t 0

/-- The word that a plain float makes. It needs an integer part, which may leave a narrow type but
not one of the widest. -/
def wordOf {p : Precision} (t : IntType) (x : Floating p) : Except Fault Scalar :=
  match x.truncate? with
  | none => .error .badValue
  | some v => if t.width = .w64 ∧ ¬ t.Fits v then .error .tooLarge else .ok (.wrapped t v)

/-- A number wrapped into a type. -/
def wrapNumber (t : IntType) : Number → Except Fault Scalar
  | .int v => .ok (.wrapped t v)
  | .float x => t.wordOf (t.wrapFloating x)
  | .scalar (.bool b) =>
    if Fits ⟨true, .w64⟩ t.span then .ok (.wrapped t (bitOf b)) else .error .tooLarge
  | .scalar (.int s w) =>
    if s.Fits t.lo ∧ s.Fits t.span then .ok (.wrapped t w.toInt) else .error .tooLarge
  | .scalar (.float _ x) => .ok (t.machineWord (t.wrapFloating x))

/-- Whether a float lies outside the range of a type, where the bounds are taken exactly. -/
def excludes {p : Precision} (t : IntType) (x : Floating p) : Bool :=
  let exact := Exact.ofFloating x
  exact.compare? (.ofInt t.lo) = some .lt || exact.compare? (.ofInt t.hi) = some .gt

/-- The same, where the bounds are rounded to the format of the float. -/
def excludesRounded {p : Precision} (t : IntType) (x : Floating p) : Bool :=
  x.lt (.ofInt t.lo) || (Floating.ofInt t.hi).lt x

/-- A number as a scalar of a type, refused when it is out of range. -/
def checkNumber (t : IntType) : Number → Except Fault Scalar
  | .int v => t.check v
  | .float x =>
    if t.excludes x then .error (.floatOutOfRange x.shortestText t) else t.wordOf x
  | .scalar (.bool b) =>
    if Fits ⟨true, .w64⟩ t.hi then t.check (bitOf b) else .error .tooLarge
  | .scalar (.int _ w) => t.check w.toInt
  | .scalar (.float _ x) =>
    if t.excludesRounded x then
      .error (.floatOutOfRange (x.cast : Floating .double).shortestText t)
    else .ok (t.machineWord x)

end IntType

namespace ValueType

/-- The integer type of a value type. The others have no range. -/
def ranged : ValueType → Except Fault IntType
  | int t => .ok t
  | _ => .error .badValue

/-- The least and the greatest integer of a type. -/
def bounds (t : ValueType) : Except Fault (Int × Int) := do
  let r ← t.ranged
  pure (r.lo, r.hi)

/-- A number wrapped into a type. -/
def wrap (t : ValueType) (v : Value) : Except Fault Scalar := do
  let r ← t.ranged
  match v.number? with
  | some n => r.wrapNumber n
  | none => throw .wrongKind

/-- A number as a scalar of a type, if it is in range. -/
def check (t : ValueType) (v : Value) : Except Fault Scalar := do
  let r ← t.ranged
  match v.number? with
  | some n => r.checkNumber n
  | none => throw .wrongKind

end ValueType

end Knot
