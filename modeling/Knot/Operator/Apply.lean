import Knot.Operator.Comparison

/-!
# What operators compute

The meaning of every operator on values, in one place for all ways of evaluating.

* Integer arithmetic is exact and then brought into the type of the left operand: an unchecked
  operator wraps, a checked one refuses a result out of range. Division drops the fraction and
  is checked; the remainder has the sign of the dividend.
* A shift moves by the count modulo the width of the type, at least 32, and wraps.
* Comparisons and connectives give booleans. `BinaryOp.apply` never short-circuits: both
  operands are values already.
* Floats are computed in the wider of the two operand types and rounded to the left one's.
-/

namespace Knot

/-! ## Integer arithmetic -/

/-- The operations behind the arithmetic operators. -/
inductive Arithmetic where
  | sum | difference | product | quotient | remainder
deriving DecidableEq, Repr

namespace Arithmetic

/-- The exact integer result. -/
def onInts : Arithmetic → Int → Int → Except Fault Int
  | sum, a, b => .ok (a + b)
  | difference, a, b => .ok (a - b)
  | product, a, b => .ok (a * b)
  | quotient, a, b => if b = 0 then .error .divisionByZero else .ok (a.tdiv b)
  | remainder, a, b => if b = 0 then .error .divisionByZero else .ok (a.tmod b)

/-- The rounded result on floats. -/
def onFloats {p : Precision} : Arithmetic → Floating p → Floating p → Floating p
  | sum, x, y => x.add y
  | difference, x, y => x.sub y
  | product, x, y => x.mul y
  | quotient, x, y => x.div y
  | remainder, x, y => x.rem y

end Arithmetic

/-- The operation of an arithmetic operator, and whether its integer result is checked. -/
def BinaryOp.arithmetic? : BinaryOp → Option (Arithmetic × Bool)
  | .add => some (.sum, false)
  | .addChecked => some (.sum, true)
  | .subtract => some (.difference, false)
  | .subtractChecked => some (.difference, true)
  | .multiply => some (.product, false)
  | .multiplyChecked => some (.product, true)
  | .divide => some (.quotient, true)
  | .modulo => some (.remainder, false)
  | _ => none

/-! ## Bitwise operations -/

/-- The operations behind the bitwise operators. -/
inductive Bitwise where
  | and | or | xor
deriving DecidableEq, Repr

namespace Bitwise

def onBools : Bitwise → Bool → Bool → Bool
  | and, a, b => a && b
  | or, a, b => a || b
  | xor, a, b => a != b

def onVectors {w : Nat} : Bitwise → BitVec w → BitVec w → BitVec w
  | and, a, b => a &&& b
  | or, a, b => a ||| b
  | xor, a, b => a ^^^ b

/-- A number of bits in which both integers have a two's-complement form. -/
def bitsFor (a b : Int) : Nat := max a.natAbs.log2 b.natAbs.log2 + 2

/-- The operation on unbounded two's-complement integers. -/
def onInts (op : Bitwise) (a b : Int) : Int :=
  let w := bitsFor a b
  (op.onVectors (BitVec.ofInt w a) (BitVec.ofInt w b)).toInt

end Bitwise

/-- The operation of a bitwise operator. -/
def BinaryOp.bitwise? : BinaryOp → Option Bitwise
  | .and => some .and
  | .or => some .or
  | .exclusiveOr => some .xor
  | _ => none

/-! ## Shifts -/

/-- By how many places a shift moves: the count modulo the width of the type, at least 32. -/
def IntType.shiftCount (t : IntType) (count : Int) : Nat := (count % (max t.bits 32 : Nat)).toNat

/-- A shifted integer, wrapped into its type. -/
def IntType.shift (t : IntType) (left : Bool) (v count : Int) : Scalar :=
  let k := t.shiftCount count
  .wrapped t (if left then v * 2 ^ k else v / 2 ^ k)

/-! ## Float arithmetic -/

/-- Why an operation of a float has no result on an operand that is no number. -/
def Arithmetic.refuse (f : Arithmetic) (right : Value) : Fault :=
  match f, right with
  | .sum, .text _ | .difference, .text _ => .textOperand
  | .remainder, .none | .remainder, .host _ | .remainder, .closure _ | .remainder, .compiled _
  | .remainder, .object _ _ | .remainder, .method _ _ _ _ => .noMember
  | _, _ => .wrongKind

/-- An operation of a float with any value, in the format in which the two meet and rounded to that
of the float. -/
def Arithmetic.onFloating {p : Precision} (f : Arithmetic) (x : Floating p) (right : Value) :
    Except Fault (Floating p) :=
  match right.number? with
  | some n => (n.toFloating (p.meet n)).map fun y => (f.onFloats x.cast y).cast
  | none => .error (f.refuse right)

/-! ## The operators -/

namespace Scalar

/-- A comparison of a scalar with a value. -/
def compare (c : Comparison) (left : Scalar) (right : Value) : Except Fault Bool :=
  match left with
  | .int _ w => do
    let v ← right.toInt
    pure (c.onInts w.toInt v)
  | s => c.onScalar s right

/-- A bitwise operation of a scalar with a value. -/
def bitwise (op : BinaryOp) (f : Bitwise) (left : Scalar) (right : Value) : Except Fault Scalar :=
  match left with
  | .bool b => .ok (.bool (f.onBools b right.truthy))
  | .int t w => do
    let v ← right.toInt
    match Word.ofInt? t (f.onInts w.toInt v) with
    | some r => pure (.int t r)
    | none => throw .tooLarge
  | .float p _ => .error (.operator (.bitwise op (.float p)))

/-- A shift of a scalar by a value. -/
def shift (toLeft : Bool) (left : Scalar) (right : Value) : Except Fault Scalar := do
  let v ← left.toInt
  let count ← right.toInt
  match left with
  | .int t _ => pure (t.shift toLeft v count)
  | _ => throw .badValue

/-- An arithmetic operation of a scalar with a value. -/
def arithmetic (op : BinaryOp) (f : Arithmetic) (checked : Bool) (left : Scalar) (right : Value) :
    Except Fault Scalar :=
  match left with
  | .int t w => do
    let v ← right.toInt
    let exact ← f.onInts w.toInt v
    t.bring checked exact
  | .float p x => (f.onFloating x right).map (.float p)
  | .bool _ => .error (.operator (.operands op .bool))

/-- A binary operator on a scalar and a value. -/
def applyBinary (op : BinaryOp) (left : Scalar) (right : Value) : Except Fault Scalar :=
  match op.comparison?, op.bitwise?, op.arithmetic? with
  | some c, _, _ => (left.compare c right).map .bool
  | _, some f, _ => left.bitwise op f right
  | _, _, some (f, checked) => left.arithmetic op f checked right
  | none, none, none =>
    match op with
    | .andAlso => .ok (.bool (left.truthy && right.truthy))
    | .orElse => .ok (.bool (left.truthy || right.truthy))
    | .leftShift => left.shift true right
    | .rightShift => left.shift false right
    | _ => .error (.operator (.operands op left.type))

/-- Negation of a scalar. -/
def negate (checked : Bool) : Scalar → Except Fault Scalar
  | .int t w => t.bring checked (-w.toInt)
  | .float p x => .ok (.float p x.neg)
  | .bool _ => .error .badValue

/-- The complement of a scalar: of each bit of an integer, or of a truth value. -/
def complement : Scalar → Except Fault Scalar
  | .bool b => .ok (.bool !b)
  | .int t w => .ok (.wrapped t (-w.toInt - 1))
  | .float _ x => do
    let _ ← x.toInt
    throw .badValue

end Scalar

/-- A binary operator on two values. The left one has to be a scalar. -/
def BinaryOp.apply (op : BinaryOp) (left right : Value) : Except Fault Value := do
  let s ← left.toScalar
  let r ← s.applyBinary op right
  pure (.scalar r)

/-- A unary operator on a value; a conversion goes to the type `target`. -/
def UnaryOp.apply (op : UnaryOp) (operand : Value) (target : StaticType) : Except Fault Value :=
  match op with
  | .convert => operand.convert target false
  | .convertChecked => operand.convert target true
  | .not => do
    let s ← operand.toScalar
    let r ← s.complement
    pure (.scalar r)
  | .negate => do
    let s ← operand.toScalar
    let r ← s.negate false
    pure (.scalar r)
  | .negateChecked => do
    let s ← operand.toScalar
    let r ← s.negate true
    pure (.scalar r)

/-- A binary operator where a unary one is expected. -/
def BinaryOp.refuseUnary (op : BinaryOp) (operand : Value) : Except Fault Value := do
  let _ ← operand.toScalar
  throw (.operator (.unary op.name))

end Knot
