import Knot.Fault
import Knot.Number.Decimal
import Knot.Text.Numeral
import Knot.Value

/-!
# Conversions

Three ways to make a value of another type:

* reading any value as an integer or as a float (`Value.toInt`, `Value.toFloating`);
* `ValueType.coerce`, which takes a host value to a scalar and refuses an integer out of range;
* `Value.convert`, the conversion operators on scalars: checked, or wrapping.
-/

namespace Knot

/-! ## Ranges -/

/-- The fault of an integer out of range: it is named, unless it is too long to be written. -/
def IntType.rangeFault (t : IntType) (v : Int) : Fault :=
  if Numeral.Writable v then .outOfRange v t else .badValue

/-- `v` as a word of `t`, refused when it is out of range. -/
def IntType.check (t : IntType) (v : Int) : Except Fault Scalar :=
  match Word.ofInt? t v with
  | some w => .ok (.int t w)
  | none => .error (t.rangeFault v)

/-- A checked integer keeps its value, and is refused exactly when it does not fit. -/
theorem IntType.check_of_fits {t : IntType} {v : Int} (h : t.Fits v) :
    t.check v = .ok (.int t ⟨v, h⟩) := by
  have found : Word.ofInt? t v = some ⟨v, h⟩ := Word.ofInt?_eq_some_iff.2 rfl
  simp only [check, found]

theorem IntType.check_of_not_fits {t : IntType} {v : Int} (h : ¬ t.Fits v) :
    t.check v = .error (t.rangeFault v) := by
  have absent : Word.ofInt? t v = none := Word.ofInt?_eq_none_iff.2 h
  simp only [check, absent]

theorem IntType.rangeFault_of_writable {t : IntType} {v : Int} (h : Numeral.Writable v) :
    t.rangeFault v = .outOfRange v t := if_pos h

/-! ## Reading values as numbers -/

/-- The integer part of a float. -/
def Floating.toInt {p : Precision} (x : Floating p) : Except Fault Int :=
  match x.truncate? with
  | some v => .ok v
  | none => .error (if x.isNaN then .badValue else .tooLarge)

/-- The float next to an unbounded integer, by way of the double. -/
def Floating.ofUnbounded {p : Precision} (v : Int) : Except Fault (Floating p) :=
  let wide : Floating .double := .ofInt v
  if wide.magnitude = Precision.double.infinity then .error .tooLarge else .ok wide.cast

/-- A truth value as a number. -/
def bitOf (b : Bool) : Int := if b then 1 else 0

namespace Scalar

/-- A scalar as an integer. -/
def toInt : Scalar → Except Fault Int
  | bool b => .ok (bitOf b)
  | int _ w => .ok w.toInt
  | float _ x => x.toInt

/-- The float nearest to a scalar. -/
def toFloating (p : Precision) : Scalar → Floating p
  | bool b => .ofInt (bitOf b)
  | int _ w => .ofInt w.toInt
  | float _ x => x.cast

end Scalar

namespace Value

/-- A value read as an integer: a fraction is dropped, a text has to be a numeral. -/
def toInt : Value → Except Fault Int
  | bool b => .ok (bitOf b)
  | int v => .ok v
  | float x => x.toInt
  | text s => match Numeral.integer? s with
    | some v => .ok v
    | Option.none => .error .badValue
  | scalar s => s.toInt
  | none | list _ | host _ | closure _ | compiled _ | object _ _ | method _ _ _ _ =>
    .error .wrongKind

/-- A value read as a double. -/
def toDouble : Value → Except Fault (Floating .double)
  | bool b => .ok (.ofInt (bitOf b))
  | int v => Floating.ofUnbounded v
  | float x => .ok x
  | text s => match Numeral.floating? s with
    | some x => .ok x
    | Option.none => .error .badValue
  | scalar s => .ok (s.toFloating .double)
  | none | list _ | host _ | closure _ | compiled _ | object _ _ | method _ _ _ _ =>
    .error .wrongKind

/-- A value read as a float. Only a scalar is rounded once; other values go by way of the
double. The absent value is no number, and a text may be padded with null characters. -/
def toFloating (p : Precision) : Value → Except Fault (Floating p)
  | scalar s => .ok (s.toFloating p)
  | none => .ok .nan
  | text s => (toDouble (text (Numeral.unpadded s))).map fun x => x.cast
  | v => (v.toDouble).map fun x => x.cast

/-- The scalar that a value is. -/
def toScalar : Value → Except Fault Scalar
  | scalar s => .ok s
  | v => .error (.operator (.notScalar v.kind))

end Value

/-! ## Coercion and conversion -/

/-- The scalar of type `t` that a host value stands for. -/
def ValueType.coerce (t : ValueType) (v : Value) : Except Fault Value :=
  if v.hasType t then .ok v
  else match t with
    | .bool => .ok (.scalar (.bool v.truthy))
    | .int r => do
      let n ← v.toInt
      let s ← r.check n
      pure (.scalar s)
    | .float p => do
      let x ← v.toFloating p
      pure (.scalar (.float p x))

/-- A value at a static type: coerced to a value type, and left alone at any other. -/
def StaticType.coerce (t : StaticType) (v : Value) : Except Fault Value :=
  match t with
  | .value t => t.coerce v
  | _ => .ok v

/-- Whether a value is left alone when it is coerced or converted to a static type. -/
def StaticType.keeps (t : StaticType) (v : Value) : Bool :=
  match t with
  | .value t => v.hasType t
  | _ => true

/-- An integer brought into a type, checked or wrapping. -/
def IntType.bring (t : IntType) (checked : Bool) (v : Int) : Except Fault Scalar :=
  if checked then t.check v else .ok (.wrapped t v)

/-- A scalar converted to an integer type. A float loses its fraction; an infinity or `nan` is
refused by the checked conversion and zero otherwise. -/
def Scalar.convertInt (s : Scalar) (t : IntType) (checked : Bool) : Except Fault Scalar :=
  match s with
  | .bool b => t.bring checked (bitOf b)
  | .int _ w => t.bring checked w.toInt
  | .float _ x => match x.truncate? with
    | some v => t.bring checked v
    | none =>
      if checked then .error (.notFinite x.shortestText (.int t)) else .ok (.wrapped t 0)

/-- A value converted to a static type. Types that are no value types, and the value's own type,
leave it alone. -/
def Value.convert (v : Value) (target : StaticType) (checked : Bool) : Except Fault Value :=
  match target with
  | .value t =>
    if v.hasType t then .ok v
    else match t with
      | .bool => .ok (.scalar (.bool v.truthy))
      | .float p => do
        let x ← v.toFloating p
        pure (.scalar (.float p x))
      | .int r => do
        let s ← v.toScalar
        let result ← s.convertInt r checked
        pure (.scalar result)
  | _ => .ok v

end Knot
