import Knot.Expr

/-!
# Threadability

Which operands may be evaluated side by side. The test looks at shapes and static types only: an
operator that can be split at all (`BinaryOp.splittable`), and on each side a call, a function
or another such operation, with values of fixed width going in and coming out.
-/

namespace Knot.Expr

/-- Whether all of several expressions have value types. -/
def allValues (es : List Expr) : Bool := es.all fun e => e.type.isValue

/-- Whether a call takes and returns values of fixed width. -/
def callThreadable (arguments : List Expr) (type : StaticType) : Bool :=
  allValues arguments && type.isValue

/-- Whether a function takes and returns values of fixed width. -/
def functionThreadable (parameters : List Expr) (type : StaticType) : Bool :=
  match type with
  | .func _ result | .pureFunc _ result => allValues parameters && result.isValue
  | _ => false

/-- Whether an expression may be one side of a split. -/
def sideThreadable : Expr → Bool
  | binary op a b _ => op.splittable && a.sideThreadable && b.sideThreadable
  | lambda ps _ t => functionThreadable ps t
  | invoke _ args t => callThreadable args t
  | _ => false

/-- Whether the two operands of an operator may be evaluated side by side. -/
def splitThreadable (op : BinaryOp) (left right : Expr) : Bool :=
  op.splittable && left.sideThreadable && right.sideThreadable

/-- An operation is a side exactly when its operands may be split. -/
theorem sideThreadable_binary (op : BinaryOp) (a b : Expr) (t : StaticType) :
    (binary op a b t).sideThreadable = splitThreadable op a b := by
  simp [sideThreadable, splitThreadable]

end Knot.Expr
