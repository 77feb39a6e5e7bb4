import Knot.Operator
import Knot.Value.Number

/-!
# Comparisons

The six orders that the comparison operators test, on integers, on floats and on any two numbers.
Nothing compares with a `nan`, but that it differs.
-/

namespace Knot

/-- The orders that the comparison operators test. -/
inductive Comparison where
  | lt | le | gt | ge | eq | ne
deriving DecidableEq, Repr

/-- The order that a comparison operator tests. -/
def BinaryOp.comparison? : BinaryOp → Option Comparison
  | .lessThan => some .lt
  | .lessThanOrEqual => some .le
  | .greaterThan => some .gt
  | .greaterThanOrEqual => some .ge
  | .equal => some .eq
  | .notEqual => some .ne
  | _ => none

namespace Comparison

def onInts : Comparison → Int → Int → Bool
  | lt, a, b => a < b
  | le, a, b => a ≤ b
  | gt, a, b => b < a
  | ge, a, b => b ≤ a
  | eq, a, b => a = b
  | ne, a, b => a ≠ b

def onFloats {p : Precision} : Comparison → Floating p → Floating p → Bool
  | lt, x, y => x.lt y
  | le, x, y => x.le y
  | gt, x, y => y.lt x
  | ge, x, y => y.le x
  | eq, x, y => x.eq y
  | ne, x, y => !x.eq y

/-- Whether an order is the one that is tested. -/
def holds : Comparison → Option Ordering → Bool
  | lt, o => o = some .lt
  | le, o => o = some .lt || o = some .eq
  | gt, o => o = some .gt
  | ge, o => o = some .gt || o = some .eq
  | eq, o => o = some .eq
  | ne, o => o ≠ some .eq

/-- A comparison of two numbers that have met. -/
def onMeeting (c : Comparison) : Meeting → Bool
  | .exact a b => c.holds (a.compare? b)
  | .floats _ x y => c.onFloats x y

/-- A comparison of two numbers. -/
def onNumbers (c : Comparison) (a b : Number) : Except Fault Bool :=
  (a.meet b).map c.onMeeting

/-- Exact integers are compared as integers. -/
@[simp] theorem onMeeting_ofInt (c : Comparison) (v w : Int) :
    c.onMeeting (.exact (.ofInt v) (.ofInt w)) = c.onInts v w := by
  simp only [onMeeting, Exact.compare?_ofInt]
  rcases Int.lt_trichotomy v w with h | h | h
  · have order : compare v w = .lt := Int.compare_eq_lt.2 h
    cases c <;> simp [holds, onInts, order] <;> omega
  · have order : compare v w = .eq := Int.compare_eq_eq.2 h
    cases c <;> simp [holds, onInts, order] <;> omega
  · have order : compare v w = .gt := Int.compare_eq_gt.2 h
    cases c <;> simp [holds, onInts, order] <;> omega

/-- Values without an order are different. Asking for their order is a fault, and a text has one of
its own. -/
def onStrangers (c : Comparison) (right : Value) : Except Fault Bool :=
  match c, right with
  | _, .list _ => .error .wrongKind
  | eq, _ => .ok false
  | ne, _ => .ok true
  | _, .text _ => .error .textOperand
  | _, _ => .error .wrongKind

/-- A comparison of a scalar with any value. -/
def onScalar (c : Comparison) (left : Scalar) (right : Value) : Except Fault Bool :=
  match right.number? with
  | some n => c.onNumbers (.scalar left) n
  | none => c.onStrangers right

/-- A comparison of two values that have to be numbers. -/
def onPlain (c : Comparison) (a b : Value) : Except Fault Bool := do
  let m ← a.toNumber
  let n ← b.toNumber
  c.onNumbers m n

@[simp] theorem onPlain_int (c : Comparison) (v w : Int) :
    c.onPlain (.int v) (.int w) = .ok (c.onInts v w) :=
  congrArg Except.ok (onMeeting_ofInt c v w)

end Comparison

end Knot
