import Knot.Scalar

/-!
# Values

What an expression evaluates to. Besides scalars there are the plain values of the host (the
absent value, booleans, unbounded integers, floats, texts, lists), the functions a program can
hold, and host objects.

Functions and objects are told apart by identity and so carry a number. A `Boxed` value gives
every other value an identity too: two results may be equal and still be two boxes. Only three
questions look at it: whether a stored result is the one just computed, whether two keys
without equality (`nan`) are one and the same, and equality of constants that hold such keys.
-/

namespace Knot

/-- What the functions of the listed host do. Another host may make anything of these names. -/
inductive HostAction where
  /-- Reports its arguments and returns nothing. -/
  | report
  /-- Reports its argument and returns it. -/
  | tap
  /-- The sum of its arguments as integers. -/
  | sum
  /-- The argument as an integer, modulo two. -/
  | parity
  /-- Always fails. -/
  | fail
  /-- The square root. -/
  | sqrt
  /-- Half of the argument. -/
  | half
  /-- The integer `2 ^ 70`. -/
  | big
  /-- A fixed text. -/
  | text
  /-- The absent value. -/
  | absent
  /-- The host's truth value, from no argument. -/
  | verum
  /-- The argument. -/
  | identity
  /-- The list of the arguments. -/
  | pack
  /-- The list of `n` arguments taken one after the other. -/
  | curriedPack (n : Nat)
  /-- The sum of a scalar with itself. -/
  | double
  /-- The argument as an unbounded integer. -/
  | integer
  /-- The argument times itself. -/
  | square
  /-- Cannot be called. -/
  | notCallable
deriving DecidableEq, Repr

/-- A function of the host: the name it goes by, if it has one, and what it does in the listed host. -/
structure HostFunction where
  name? : Option String
  action : HostAction
deriving DecidableEq, Repr

/-- The name of a host function in written forms. -/
def HostFunction.shownName (f : HostFunction) : String := f.name?.getD "host"

/-- A compiled pure function as a value: its identity, name and shape, and how its calls are
evaluated. -/
structure PureFunction where
  id : Nat
  name : String
  params : List StaticType
  result : StaticType
  caching : Bool
  threading : Bool
deriving DecidableEq, Repr

/-- The static type of a pure function. -/
def PureFunction.type (f : PureFunction) : StaticType := .pureFunc f.params f.result

/-- The sorts of members that can be called. -/
inductive MethodSort where
  /-- A method of a compiled function. -/
  | bound
  /-- A method of a number, a text or a list. -/
  | native
  /-- A method behind an operator or a conversion. -/
  | slot
  /-- A kind, which makes values of its own. -/
  | kind
deriving DecidableEq, Repr

/-- The name of a sort of methods. -/
def MethodSort.name : MethodSort → String
  | bound => "method"
  | native => "builtin_function_or_method"
  | slot => "method-wrapper"
  | kind => "type"

/-- A value. -/
inductive Value where
  | none
  | bool (b : Bool)
  | int (v : Int)
  | float (x : Floating .double)
  | text (s : String)
  | list (items : List Value)
  | scalar (s : Scalar)
  | host (f : HostFunction)
  | closure (id : Nat)
  | compiled (f : PureFunction)
  | object (id : Nat) (name : String)
  /-- A member of `owner` that can be called. The identity is that of the owner. -/
  | method (owner : Value) (identity : Nat) (sort : MethodSort) (name : String)

/-- A value with an identity. -/
structure Boxed where
  value : Value
  identity : Nat

namespace Value

/-- The name of the kind of a value. -/
def kind : Value → String
  | none => "NoneType"
  | bool _ => "bool"
  | int _ => "int"
  | float _ => "float"
  | text _ => "str"
  | list _ => "list"
  | scalar s => s.type.name
  | host f => if f.name?.isSome then "function" else "Nameless"
  | closure _ => "function"
  | compiled _ => "PureFunction"
  | object _ _ => "Obj"
  | method _ _ sort _ => sort.name

/-- Whether a value counts as true in a test. -/
def truthy : Value → Bool
  | none => false
  | bool b => b
  | int v => v ≠ 0
  | float x => !x.isZero
  | text s => s ≠ ""
  | list items => !items.isEmpty
  | scalar s => s.truthy
  | host _ | closure _ | compiled _ | object _ _ | method _ _ _ _ => true

/-- Whether a value can be called. -/
def isCallable : Value → Bool
  | host _ | closure _ | compiled _ | method _ _ _ _ => true
  | _ => false

/-- The type that a constant of this value has when none is given. -/
def inferredType : Value → StaticType
  | bool _ => .bool
  | int _ => .int64
  | float _ => .float64
  | scalar s => .value s.type
  | compiled f => f.type
  | v => .reference v.kind

/-- Whether a value is already of a value type. -/
def hasType (v : Value) (t : ValueType) : Bool :=
  match v with
  | scalar s => s.type = t
  | _ => false

end Value

namespace Boxed

/-- The box of the absent value. There is only one. -/
def none : Boxed := ⟨.none, 0⟩

/-- Whether two boxes are one. The absent value, truth values and integers from `-5` to `256`
have one box each, and so have the empty text and texts of one Latin character; functions and
objects are told apart by their own numbers. A method is read into a new box each time, and one
identity stands for one number only. -/
def same (a b : Boxed) : Bool :=
  match a.value, b.value with
  | .none, .none => true
  | .bool x, .bool y => x = y
  | .scalar (.bool x), .scalar (.bool y) => x = y
  | .int x, .int y => x = y && ((-5 ≤ x && x ≤ 256) || a.identity = b.identity)
  | .text s, .text t =>
    s = t && ((s.length ≤ 1 && s.toList.all (·.toNat < 256)) || a.identity = b.identity)
  | .host f, .host g => f = g
  | .closure i, .closure j => i = j
  | .compiled f, .compiled g => f.id = g.id
  | .object i _, .object j _ => i = j
  | .float x, .float y => x = y && a.identity = b.identity
  | .scalar s, .scalar t => s = t && a.identity = b.identity
  | .list _, .list _ | .method _ _ _ _, .method _ _ _ _ => a.identity = b.identity
  | _, _ => false

end Boxed

end Knot
