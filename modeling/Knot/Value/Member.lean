import Knot.Conversion

/-!
# Members of values

What a value offers under a name: itself, another value, or a method of one of four sorts. Numbers
have their parts and their sizes, texts and lists have methods, and every value has the methods
behind the operators. What functions and objects were given by assignment is kept elsewhere.

Some names stand for things that are no values, such as the layout of a scalar in memory. They are
there, but cannot be handed on.
-/

namespace Knot

/-- What is read under a name. -/
inductive Member where
  | itself
  | value (v : Value)
  | method (sort : MethodSort)
  /-- A thing that is no value. -/
  | foreign

namespace Member

/-! ## Names -/

/-- The methods behind operators that every value has. -/
def slots : List String := [
  "__delattr__", "__eq__", "__ge__", "__getattribute__", "__gt__", "__hash__", "__init__",
  "__le__", "__lt__", "__ne__", "__repr__", "__setattr__", "__str__"]

/-- The other methods that every value has. -/
def natives : List String := [
  "__dir__", "__format__", "__getstate__", "__init_subclass__", "__new__", "__reduce__",
  "__reduce_ex__", "__sizeof__", "__subclasshook__"]

/-- The arithmetic methods of all numbers. -/
def numberSlots : List String := [
  "__abs__", "__add__", "__bool__", "__divmod__", "__float__", "__floordiv__", "__int__",
  "__mod__", "__mul__", "__neg__", "__pos__", "__pow__", "__radd__", "__rdivmod__",
  "__rfloordiv__", "__rmod__", "__rmul__", "__rpow__", "__rsub__", "__rtruediv__", "__sub__",
  "__truediv__"]

/-- The methods behind the bitwise operators. -/
def bitSlots : List String := [
  "__and__", "__index__", "__invert__", "__lshift__", "__or__", "__rand__", "__rlshift__",
  "__ror__", "__rrshift__", "__rshift__", "__rxor__", "__xor__"]

/-- The rounding methods of plain numbers. -/
def roundings : List String := ["__ceil__", "__floor__", "__getnewargs__", "__round__", "__trunc__"]

/-- The methods of plain integers. -/
def integerMethods : List String :=
  ["as_integer_ratio", "bit_count", "bit_length", "conjugate", "from_bytes", "to_bytes"]

/-- The methods of plain floats. -/
def floatMethods : List String :=
  ["__getformat__", "as_integer_ratio", "conjugate", "fromhex", "hex", "is_integer"]

/-- The methods of scalars. -/
def scalarMethods : List String := [
  "__array__", "__array_namespace__", "__array_wrap__", "__class_getitem__", "__copy__",
  "__deepcopy__", "__setstate__", "all", "any", "argmax", "argmin", "argsort", "astype",
  "byteswap", "choose", "clip", "compress", "conj", "conjugate", "copy", "cumprod", "cumsum",
  "diagonal", "dump", "dumps", "fill", "flatten", "getfield", "item", "max", "mean", "min",
  "nonzero", "prod", "put", "ravel", "repeat", "reshape", "resize", "round", "searchsorted",
  "setfield", "setflags", "sort", "squeeze", "std", "sum", "swapaxes", "take", "to_device",
  "tobytes", "tofile", "tolist", "trace", "transpose", "var", "view"]

/-- The methods of texts. -/
def textMethods : List String := [
  "__getnewargs__", "capitalize", "casefold", "center", "count", "encode", "endswith",
  "expandtabs", "find", "format", "format_map", "index", "isalnum", "isalpha", "isascii",
  "isdecimal", "isdigit", "isidentifier", "islower", "isnumeric", "isprintable", "isspace",
  "istitle", "isupper", "join", "ljust", "lower", "lstrip", "maketrans", "partition",
  "removeprefix", "removesuffix", "replace", "rfind", "rindex", "rjust", "rpartition", "rsplit",
  "rstrip", "split", "splitlines", "startswith", "strip", "swapcase", "title", "translate",
  "upper", "zfill"]

/-- The methods of texts behind operators. -/
def textSlots : List String := [
  "__add__", "__contains__", "__getitem__", "__iter__", "__len__", "__mod__", "__mul__",
  "__rmod__", "__rmul__"]

/-- The methods of lists. -/
def listMethods : List String := [
  "__class_getitem__", "__getitem__", "__reversed__", "append", "clear", "copy", "count",
  "extend", "index", "insert", "pop", "remove", "reverse", "sort"]

/-- The methods of lists behind operators. -/
def listSlots : List String := [
  "__add__", "__contains__", "__delitem__", "__iadd__", "__imul__", "__iter__", "__len__",
  "__mul__", "__rmul__", "__setitem__"]

/-- What describes a scalar in memory. -/
def layouts : List String := [
  "__array_interface__", "__array_struct__", "data", "dtype", "flags", "flat", "shape", "strides"]

/-- What describes a function. -/
def descriptions : List String :=
  ["__annotations__", "__builtins__", "__code__", "__dict__", "__globals__"]

/-- The sort of the method of a name, in lists of methods and of methods behind operators. -/
def sortIn (methods operators : List String) (name : String) : Option Member :=
  if methods.contains name then some (method .native)
  else if operators.contains name then some (method .slot)
  else none

/-- What every value offers. -/
def ofAny (name : String) : Option Member :=
  if name = "__class__" then some (method .kind) else sortIn natives slots name

/-! ## Numbers -/

/-- What plain integers and truth values offer. -/
def ofInt (whole : Member) (name : String) : Option Member :=
  match name with
  | "real" | "numerator" => some whole
  | "imag" => some (value (.int 0))
  | "denominator" => some (value (.int 1))
  | _ => sortIn (integerMethods ++ roundings) (numberSlots ++ bitSlots) name

/-- What plain floats offer. -/
def ofFloat (name : String) : Option Member :=
  match name with
  | "real" => some itself
  | "imag" => some (value (.float (.zero false)))
  | _ => sortIn (floatMethods ++ roundings) numberSlots name

/-- The zero of a type. -/
def zero : ValueType → Scalar
  | .bool => .bool false
  | .int t => .wrapped t 0
  | .float p => .float p (.zero false)

/-- The number of bytes of a type. -/
def bytes : ValueType → Nat
  | .bool => 1
  | .int t => t.bits / 8
  | .float p => p.width / 8

/-- The methods that the scalars of a type have besides those of all scalars. -/
def ownMethods : ValueType → List String
  | .bool => []
  | .int _ => ["bit_count", "is_integer", "__round__"]
  | .float .single => ["as_integer_ratio", "is_integer", "__round__"]
  | .float .double => floatMethods ++ roundings

/-- What scalars offer. -/
def ofScalar (type : ValueType) (name : String) : Option Member :=
  match name with
  | "real" | "T" => some itself
  | "imag" => some (value (.scalar (zero type)))
  | "base" => some (value .none)
  | "size" => some (value (.int 1))
  | "ndim" => some (value (.int 0))
  | "itemsize" | "nbytes" => some (value (.int (bytes type)))
  | "device" => some (value (.text "cpu"))
  | "__array_priority__" => some (value (.float (Floating.ofInt 1000000).neg))
  | "numerator" => if type.isInt then some itself else none
  | "denominator" => if type.isInt then some (value (.int 1)) else none
  | _ =>
    if layouts.contains name then some foreign
    else sortIn (ownMethods type ++ scalarMethods) (numberSlots ++ bitSlots) name

/-- What plain functions offer besides a name. -/
def ofFunction (name : String) : Option Member :=
  if ["__doc__", "__defaults__", "__kwdefaults__"].contains name then some (value .none)
  else if descriptions.contains name then some foreign
  else sortIn [] ["__call__", "__get__"] name

end Member

/-- What a value offers under a name. -/
def Value.member? (v : Value) (name : String) : Option Member :=
  let own := match v with
    | .bool b => Member.ofInt (.value (.int (bitOf b))) name
    | .int _ => Member.ofInt .itself name
    | .float _ => Member.ofFloat name
    | .scalar s => Member.ofScalar s.type name
    | .text _ => Member.sortIn Member.textMethods Member.textSlots name
    | .list _ =>
      if name = "__hash__" then some (.value .none)
      else Member.sortIn Member.listMethods Member.listSlots name
    | .none =>
      if name = "__doc__" then some (.value .none)
      else if name = "__bool__" then some (.method .slot) else Option.none
    | .host f =>
      match f.name? with
      | some n =>
        if name = "__name__" then some (.value (.text n)) else Member.ofFunction name
      | Option.none => if name = "__call__" then some (.method .bound) else Option.none
    | .closure _ => Member.ofFunction name
    | .compiled f =>
      match name with
      | "name" => some (.value (.text f.name))
      | "caching" => some (.value (.bool f.caching))
      | "threading" => some (.value (.bool f.threading))
      | "fi" | "__call__" => some (.method .bound)
      | "__dict__" | "expression" | "expression_type" => some .foreign
      | _ => Option.none
    | .method _ _ _ n =>
      if name = "__name__" then some (.value (.text n)) else Member.sortIn [] ["__call__"] name
    | .object _ _ => if name = "__dict__" then some .foreign else Option.none
  own.or (Member.ofAny name)

end Knot
