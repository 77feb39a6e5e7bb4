import Knot.Conversion
import Knot.Number.Exact

/-!
# Numbers of all kinds

A `Number` is a plain integer or float of the host, or a scalar. Two numbers that are to be
compared or to be combined `meet` first:

* a scalar float meets another number in a float format, its own one or the double;
* another scalar meets a plain float in the double;
* all other pairs meet exactly, but that a boolean scalar meets no plain integer outside the range
  of `int64`.

A plain integer that is too large for a float does not meet one. Plain arithmetic, for counts that
need not be integers, is `Value.plus` and `Value.minus`.
-/

namespace Knot

/-- A number of any kind. -/
inductive Number where
  | int (v : Int)
  | float (x : Floating .double)
  | scalar (s : Scalar)

/-- The number that a value is. A plain truth value is zero or one. -/
def Value.number? : Value → Option Number
  | bool b => some (.int (bitOf b))
  | int v => some (.int v)
  | float x => some (.float x)
  | scalar s => some (.scalar s)
  | _ => Option.none

/-! ## Formats -/

/-- The wider of two formats. -/
def Precision.wider : Precision → Precision → Precision
  | .single, .single => .single
  | _, _ => .double

/-- The format in which a float meets integers of a type. -/
def Precision.meetInt (p : Precision) (t : IntType) : Precision :=
  if t.bits ≤ 16 then p else .double

/-- The format in which a scalar float meets a number. -/
def Precision.meet (p : Precision) : Number → Precision
  | .int _ | .float _ | .scalar (.bool _) => p
  | .scalar (.int t _) => p.meetInt t
  | .scalar (.float q _) => p.wider q

/-- A number in the form in which it is compared with another. -/
inductive Meeting where
  | exact (a b : Exact)
  | floats (p : Precision) (x y : Floating p)

namespace Number

/-- What a number is when nothing is rounded. -/
def exact : Number → Exact
  | int v => .ofInt v
  | float x => .ofFloating x
  | scalar (.bool b) => .ofInt (bitOf b)
  | scalar (.int _ w) => .ofInt w.toInt
  | scalar (.float _ x) => .ofFloating x

/-- The float of a format next to a number. A plain integer goes by way of the double. -/
def toFloating (p : Precision) : Number → Except Fault (Floating p)
  | int v => Floating.ofUnbounded v
  | float x => .ok x.cast
  | scalar s => .ok (s.toFloating p)

/-- Two numbers in a float format. -/
def meetIn (p : Precision) (a b : Number) : Except Fault Meeting := do
  let x ← a.toFloating p
  let y ← b.toFloating p
  pure (.floats p x y)

/-- Two numbers exactly, provided that the integer among them is no longer than an `int64`. -/
def meetShort (v : Int) (a b : Number) : Except Fault Meeting :=
  if IntType.Fits ⟨true, .w64⟩ v then .ok (.exact a.exact b.exact) else .error .tooLarge

/-- The form in which two numbers meet. -/
def meet (a b : Number) : Except Fault Meeting :=
  match a, b with
  | scalar (.float p _), _ => a.meetIn (p.meet b) b
  | _, scalar (.float p _) => a.meetIn (p.meet a) b
  | scalar _, float _ | float _, scalar _ => a.meetIn .double b
  | scalar (.bool _), int v => a.meetShort v b
  | int v, scalar (.bool _) => a.meetShort v b
  | _, _ => .ok (.exact a.exact b.exact)

/-- Two scalar integers meet exactly. -/
@[simp] theorem meet_scalar_int {s t : IntType} (v : Word s) (w : Word t) :
    (scalar (.int s v)).meet (scalar (.int t w)) =
      .ok (.exact (.ofInt v.toInt) (.ofInt w.toInt)) := rfl

/-- Two scalar truth values meet exactly. -/
@[simp] theorem meet_scalar_bool (b c : Bool) :
    (scalar (.bool b)).meet (scalar (.bool c)) =
      .ok (.exact (.ofInt (bitOf b)) (.ofInt (bitOf c))) := rfl

/-! ## Plain arithmetic -/

/-- A number as a plain one. -/
def plain : Number → Number
  | scalar (.bool b) => int (bitOf b)
  | scalar (.int _ w) => int w.toInt
  | scalar (.float _ x) => float x.cast
  | n => n

/-- A number as a value. -/
def value : Number → Value
  | int v => .int v
  | float x => .float x
  | scalar s => .scalar s

/-- An operation on two plain numbers: exact on integers, rounded once a float is among them. -/
def combine (onInts : Int → Int → Int)
    (onFloats : Floating .double → Floating .double → Floating .double) (a b : Number) :
    Except Fault Number :=
  match a.plain, b.plain with
  | int v, int w => .ok (int (onInts v w))
  | a, b => do
    let x ← a.toFloating .double
    let y ← b.toFloating .double
    pure (float (onFloats x y))

end Number

namespace Value

/-- The number that a value has to be. -/
def toNumber (v : Value) : Except Fault Number :=
  match v.number? with
  | some n => .ok n
  | Option.none => .error .wrongKind

/-- The sum of two plain numbers. -/
def plus (a b : Value) : Except Fault Value := do
  let m ← a.toNumber
  let n ← b.toNumber
  let sum ← m.combine (· + ·) Floating.add n
  pure sum.value

/-- The difference of two plain numbers. -/
def minus (a b : Value) : Except Fault Value := do
  let m ← a.toNumber
  let n ← b.toNumber
  let difference ← m.combine (· - ·) Floating.sub n
  pure difference.value

@[simp] theorem plus_int (v w : Int) : (int v).plus (int w) = .ok (int (v + w)) := rfl

@[simp] theorem minus_int (v w : Int) : (int v).minus (int w) = .ok (int (v - w)) := rfl

end Value

end Knot
