import Knot.StaticType

/-!
# Scalars

A scalar is a value of a value type: a boolean, a machine integer, or a float. It carries its
type, so that `1` as an `int8` and `1` as a `uint64` are two scalars.
-/

namespace Knot

/-- A value of fixed width together with its type. -/
inductive Scalar where
  | bool (b : Bool)
  | int (t : IntType) (w : Word t)
  | float (p : Precision) (x : Floating p)
deriving DecidableEq

namespace Scalar

/-- The type of a scalar. -/
def type : Scalar → ValueType
  | bool _ => .bool
  | int t _ => .int t
  | float p _ => .float p

/-- The integer `v` wrapped into a type. -/
def wrapped (t : IntType) (v : Int) : Scalar := int t (Word.wrap t v)

@[simp] theorem type_wrapped (t : IntType) (v : Int) : (wrapped t v).type = .int t := rfl

/-- Whether a scalar counts as true: it is not zero. -/
def truthy : Scalar → Bool
  | bool b => b
  | int _ w => w.toInt ≠ 0
  | float _ x => !x.isZero

end Scalar

end Knot
