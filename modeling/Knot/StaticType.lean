import Knot.Number.Word
import Knot.Number.Binary

/-!
# Static types

Every expression carries a static type: a value type (a boolean, an integer of fixed width, a
float), the type of a function or of a compiled pure function, a reference to a host object
known by the name of its kind, or `void` for expressions without a value.

`assignable target source` says when a value of type `source` may stand where `target` is
expected.
-/

namespace Knot

/-- The types whose values have a fixed width. -/
inductive ValueType where
  | bool
  | int (t : IntType)
  | float (p : Precision)
deriving DecidableEq, Repr

namespace ValueType

def int8 : ValueType := .int ⟨true, .w8⟩
def int16 : ValueType := .int ⟨true, .w16⟩
def int32 : ValueType := .int ⟨true, .w32⟩
def int64 : ValueType := .int ⟨true, .w64⟩
def uint8 : ValueType := .int ⟨false, .w8⟩
def uint16 : ValueType := .int ⟨false, .w16⟩
def uint32 : ValueType := .int ⟨false, .w32⟩
def uint64 : ValueType := .int ⟨false, .w64⟩
def float32 : ValueType := .float .single
def float64 : ValueType := .float .double

/-- The written name of a value type. -/
def name : ValueType → String
  | bool => "bool"
  | int t => t.name
  | float p => p.name

/-- The value types, in their usual order. -/
def all : List ValueType :=
  [bool, int8, int16, int32, int64, uint8, uint16, uint32, uint64, float32, float64]

/-- The value type of a written name. -/
def ofName? (s : String) : Option ValueType := all.find? fun t => t.name = s

def isBool (t : ValueType) : Bool := t = bool

def isInt : ValueType → Bool
  | int _ => true
  | _ => false

def isFloat : ValueType → Bool
  | float _ => true
  | _ => false

def isSigned : ValueType → Bool
  | int t => t.signed
  | _ => false

end ValueType

/-- A static type. -/
inductive StaticType where
  /-- Values of fixed width. -/
  | value (t : ValueType)
  /-- Functions of the parameters to the result. -/
  | func (params : List StaticType) (result : StaticType)
  /-- Compiled pure functions of the parameters to the result. -/
  | pureFunc (params : List StaticType) (result : StaticType)
  /-- Host objects of a kind. -/
  | reference (name : String)
  /-- No value. -/
  | void
deriving Repr

namespace StaticType

mutual

/-- Equality of types is decided part by part. -/
def decEq : (a b : StaticType) → Decidable (a = b)
  | value s, value t =>
    if h : s = t then isTrue (by rw [h]) else isFalse (by simp [h])
  | func ps r, func qs s =>
    match decEqs ps qs, decEq r s with
    | isTrue h, isTrue k => isTrue (by rw [h, k])
    | isFalse h, _ => isFalse (by simp [h])
    | _, isFalse k => isFalse (by simp [k])
  | pureFunc ps r, pureFunc qs s =>
    match decEqs ps qs, decEq r s with
    | isTrue h, isTrue k => isTrue (by rw [h, k])
    | isFalse h, _ => isFalse (by simp [h])
    | _, isFalse k => isFalse (by simp [k])
  | reference m, reference n =>
    if h : m = n then isTrue (by rw [h]) else isFalse (by simp [h])
  | void, void => isTrue rfl
  | value _, func _ _ | value _, pureFunc _ _ | value _, reference _ | value _, void
  | func _ _, value _ | func _ _, pureFunc _ _ | func _ _, reference _ | func _ _, void
  | pureFunc _ _, value _ | pureFunc _ _, func _ _ | pureFunc _ _, reference _
  | pureFunc _ _, void
  | reference _, value _ | reference _, func _ _ | reference _, pureFunc _ _ | reference _, void
  | void, value _ | void, func _ _ | void, pureFunc _ _ | void, reference _ =>
    isFalse (by simp)

/-- The same for lists of types. -/
def decEqs : (as bs : List StaticType) → Decidable (as = bs)
  | [], [] => isTrue rfl
  | a :: as, b :: bs =>
    match decEq a b, decEqs as bs with
    | isTrue h, isTrue k => isTrue (by rw [h, k])
    | isFalse h, _ => isFalse (by simp [h])
    | _, isFalse k => isFalse (by simp [k])
  | [], _ :: _ | _ :: _, [] => isFalse (by simp)

end

instance : DecidableEq StaticType := decEq

/-- The type of any host object. -/
def object : StaticType := reference "object"

/-- The type of booleans. -/
def bool : StaticType := value .bool

def int64 : StaticType := value .int64

def float64 : StaticType := value .float64

/-- The value type, if it is one. -/
def valueType? : StaticType → Option ValueType
  | value t => some t
  | _ => none

def isValue (t : StaticType) : Bool := t.valueType?.isSome

/-- Whether values of the type can be called. -/
def isCallable : StaticType → Bool
  | func _ _ | pureFunc _ _ => true
  | _ => false

mutual

/-- The written form of a type. -/
def text : StaticType → String
  | value t => t.name
  | func ps r => "Func[(" ++ ", ".intercalate (texts ps) ++ ") -> " ++ r.text ++ "]"
  | pureFunc ps r => "PureFunc[(" ++ ", ".intercalate (texts ps) ++ ") -> " ++ r.text ++ "]"
  | reference n => "Ref[" ++ n ++ "]"
  | void => "void"

/-- The written forms of several types. -/
def texts : List StaticType → List String
  | [] => []
  | t :: ts => t.text :: texts ts

end

/-- Whether a value of type `source` may stand where `target` is expected: the types are the
same, or `target` is any object and `source` has values at all, or `target` is a function and
`source` a pure function of the same shape. -/
def assignable (target source : StaticType) : Bool :=
  target = source ||
  (if target = object then source ≠ void
  else match target, source with
    | func ps r, pureFunc qs s => ps = qs && r = s
    | _, _ => false)

theorem assignable_refl (t : StaticType) : assignable t t = true := by simp [assignable]

/-- A value type is the target of itself alone. -/
theorem assignable_value_iff {t : ValueType} {s : StaticType} :
    assignable (value t) s = true ↔ s = value t := by
  have apart : value t ≠ object := by simp [object]
  simp [assignable, apart, eq_comm]

/-! ## Forming function types from a list -/

/-- The last of several types is the result, the others are the parameters. -/
def unsnoc? : List StaticType → Option (List StaticType × StaticType)
  | [] => none
  | [r] => some ([], r)
  | p :: ts => (unsnoc? ts).map fun (ps, r) => (p :: ps, r)

/-- The type of a function from the parameters to the last type. -/
def func? (types : List StaticType) : Option StaticType :=
  (unsnoc? types).map fun (ps, r) => func ps r

/-- The same for a pure function. -/
def pureFunc? (types : List StaticType) : Option StaticType :=
  (unsnoc? types).map fun (ps, r) => pureFunc ps r

/-- A function of one parameter after the other; there is at least one. -/
def curried? (types : List StaticType) : Option StaticType :=
  match unsnoc? types with
  | some (p :: ps, r) => some ((p :: ps).foldr (fun p r => func [p] r) r)
  | _ => none

end StaticType

end Knot
