import Knot.Text.Printable
import Knot.Text.Quoted
import Knot.Text.Words
import Knot.Value.Equality
import Knot.Value.Text

/-!
# Calling methods of values

The methods of numbers, texts and lists that the listed host offers, and what they give. A method
takes as many arguments as it is made for and refuses other numbers of them. Values do not change,
so a method that would change a list in place is not offered; nor is a method that asks for the
case of characters where a text has some whose case is not known (`Words.isCovered`). A method that
is not offered is refused.
-/

namespace Knot

/-- The result of a method, which may be the owner itself. -/
inductive MethodResult where
  | itself
  | value (v : Value)

namespace MethodResult

def int (v : Int) : Except Fault MethodResult := .ok (value (.int v))

def truth (b : Bool) : Except Fault MethodResult := .ok (value (.bool b))

def text (cs : List Char) : Except Fault MethodResult := .ok (value (.text (String.ofList cs)))

def texts (pieces : List (List Char)) : Except Fault MethodResult :=
  .ok (value (.list (pieces.map fun cs => .text (String.ofList cs))))

def refused : Except Fault MethodResult := .error .wrongKind

end MethodResult

open MethodResult

/-! ## Numbers -/

/-- The number of ones among the binary digits of a number. -/
def bitCount (n : Nat) : Nat := ((Nat.toDigits 2 n).filter (· = '1')).length

/-- The number of binary digits of a number, none for zero. -/
def bitLength (n : Nat) : Nat := if n = 0 then 0 else n.log2 + 1

namespace Floating

variable {p : Precision}

/-- Whether a float has no fraction. -/
def isWhole (x : Floating p) : Bool :=
  match x.shape with
  | .finite _ m e => 0 ≤ e || m % 2 ^ (-e).toNat = 0
  | _ => false

/-- The whole number next to a float, in the format of the float. -/
def toWhole (x : Floating p) : Floating p :=
  match x.shape with
  | .finite s m e => if 0 ≤ e then x else .round s (nearest m (2 ^ (-e).toNat)) 1
  | _ => x

/-- A double in hexadecimal, with a binary exponent. -/
def hexText (x : Floating .double) : String :=
  let sign := if x.negative then "-" else ""
  match x.shape with
  | .nan => "nan"
  | .infinite _ => sign ++ "inf"
  | .finite _ m e =>
    let unit := Precision.double.unit
    let exponent := e + 52
    let power := (if exponent < 0 then "-" else "+") ++ toString exponent.natAbs
    if m = 0 then sign ++ "0x0.0p+0"
    else sign ++ "0x" ++ toString (m / unit) ++ "." ++ hexadecimal 13 (m % unit) ++ "p" ++ power

end Floating

/-- A method of a plain integer. -/
def methodOfInt (v : Int) (name : String) (args : List Value) : Except Fault MethodResult :=
  match name, args with
  | "bit_length", [] => int (bitLength v.natAbs)
  | "bit_count", [] => int (bitCount v.natAbs)
  | "conjugate", [] | "__int__", [] | "__index__", [] | "__pos__", [] | "__trunc__", []
  | "__floor__", [] | "__ceil__", [] | "__round__", [] => int v
  | "__neg__", [] => int (-v)
  | "__abs__", [] => int v.natAbs
  | "__invert__", [] => int (-v - 1)
  | "__bool__", [] => truth (v ≠ 0)
  | "__float__", [] => (Floating.ofUnbounded v).map fun x => value (.float x)
  | "__hash__", [] => int (Exact.ofInt v).residue
  | _, _ => refused

/-- A method of a plain float. -/
def methodOfFloat (x : Floating .double) (name : String) (args : List Value) :
    Except Fault MethodResult :=
  match name, args with
  | "is_integer", [] => truth x.isWhole
  | "hex", [] => text x.hexText.toList
  | "conjugate", [] | "__float__", [] | "__pos__", [] => .ok itself
  | "__neg__", [] => .ok (value (.float x.neg))
  | "__abs__", [] => .ok (value (.float (.ofMagnitude false x.magnitude)))
  | "__bool__", [] => truth (!x.isZero)
  | "__int__", [] | "__trunc__", [] => x.toInt.map fun v => value (.int v)
  | "__round__", [] => x.toWhole.toInt.map fun v => value (.int v)
  | _, _ => refused

namespace Scalar

/-- The sum of a scalar alone: a truth value or an integer widens to the widest type. -/
def total : Scalar → Scalar
  | bool b => wrapped ⟨true, .w64⟩ (bitOf b)
  | int t w => wrapped ⟨t.signed, .w64⟩ w.toInt
  | float p x => float p x

/-- The mean of a scalar alone. -/
def mean : Scalar → Scalar
  | float p x => float p x
  | s => float .double (s.toFloating .double)

/-- The spread of a scalar alone. -/
def spread : Scalar → Scalar
  | float p x => float p (x.sub x)
  | _ => float .double (.zero false)

/-- A scalar as a plain value. -/
def toPlain : Scalar → Value
  | bool b => .bool b
  | int _ w => .int w.toInt
  | float _ x => .float x.cast

/-- A method of a scalar. -/
def callMethod (s : Scalar) (name : String) (args : List Value) : Except Fault MethodResult :=
  match args with
  | [] =>
    match name, s with
    | "item", _ | "tolist", _ => .ok (value s.toPlain)
    | "conj", _ | "conjugate", _ | "copy", _ | "__copy__", _ | "squeeze", _ | "transpose", _
    | "max", _ | "min", _ | "__pos__", .int _ _ | "__pos__", .float _ _ => .ok (value (.scalar s))
    | "round", .int _ _ => .ok (value (.scalar s))
    | "round", .float p x => .ok (value (.scalar (float p x.toWhole)))
    | "sum", _ | "prod", _ => .ok (value (.scalar s.total))
    | "mean", _ => .ok (value (.scalar s.mean))
    | "std", _ | "var", _ => .ok (value (.scalar s.spread))
    | "all", _ | "any", _ => .ok (value (.scalar (bool s.truthy)))
    | "argmax", _ | "argmin", _ => .ok (value (.scalar (wrapped ⟨true, .w64⟩ 0)))
    | "bit_count", .int _ w => MethodResult.int (bitCount w.toInt.natAbs)
    | "is_integer", .int _ _ => truth true
    | "is_integer", .float _ x => truth x.isWhole
    | "hex", .float .double x => MethodResult.text x.hexText.toList
    | "__bool__", _ => truth s.truthy
    | "__int__", _ => (s.toInt).map fun v => value (.int v)
    | "__index__", .int _ w => MethodResult.int w.toInt
    | "__float__", _ => .ok (value (.float (s.toFloating .double)))
    | "__neg__", .int t w => .ok (value (.scalar (wrapped t (-w.toInt))))
    | "__neg__", .float p x => .ok (value (.scalar (float p x.neg)))
    | "__abs__", .int t w => .ok (value (.scalar (wrapped t w.toInt.natAbs)))
    | "__abs__", .float p x => .ok (value (.scalar (float p (.ofMagnitude false x.magnitude))))
    | "nonzero", _ | "diagonal", _ | "trace", _ => .error .badValue
    | _, _ => refused
  | _ => refused

end Scalar

/-! ## Places -/

/-- The integer that a value is where a place or a width is asked for. -/
def Value.index? : Value → Option Int
  | .bool b => some (bitOf b)
  | .int v => some v
  | .scalar (.int _ w) => some w.toInt
  | _ => Option.none

/-- The item at a place, which is counted from the end if it is negative. -/
def itemAt {α : Type} (items : List α) (place : Int) : Except Fault α :=
  let n := if place < 0 then place + items.length else place
  match if n < 0 then none else items[n.toNat]? with
  | some a => .ok a
  | none => .error .noElement

/-! ## Texts -/

namespace Words

/-- Whether a text is not empty and consists of characters of a class. -/
def made (p : Char → Bool) (cs : List Char) : Bool := !cs.isEmpty && cs.all p

/-- Whether a text can serve as a name. -/
def isName : List Char → Bool
  | [] => false
  | c :: rest =>
    let opens (c : Char) := c = '_' || isLetter c
    opens c && rest.all fun c => opens c || (Numeral.digit? c).isSome

/-- A text put in the middle of a wider one, or at one side of it. -/
def aligned (name : String) (width : Nat) (fill : Char) (cs : List Char) : List Char :=
  let missing := width - cs.length
  let front := if name = "ljust" then 0 else if name = "rjust" then missing
    else missing / 2 + (if missing % 2 = 1 ∧ width % 2 = 1 then 1 else 0)
  List.replicate front fill ++ cs ++ List.replicate (missing - front) fill

/-- The place of the first or the last of several places, or `-1`. -/
def placeOr (p : Option Nat) : Int := match p with
  | some n => n
  | none => -1

/-- A method that asks for the case or the class of each character. -/
def ofLetters (cs : List Char) (name : String) : Except Fault MethodResult :=
  match name with
  | "upper" => text (cs.flatMap upper)
  | "lower" | "casefold" => text (cs.flatMap lower)
  | "title" => text (titled false cs)
  | "capitalize" => text (capitalized cs)
  | "swapcase" => text (cs.flatMap swapped)
  | "isupper" => truth (allCased isUpper isLower cs)
  | "islower" => truth (allCased isLower isUpper cs)
  | "istitle" => truth (cs.any isLetter && titled false cs = cs)
  | "isalpha" => truth (made isLetter cs)
  | "isdigit" | "isdecimal" | "isnumeric" => truth (made (fun c => (Numeral.digit? c).isSome) cs)
  | "isalnum" => truth (made (fun c => isLetter c || (Numeral.digit? c).isSome) cs)
  | "isidentifier" => truth (isName cs)
  | _ => refused

/-- A method of a text without arguments. -/
def alone (cs : List Char) (name : String) : Except Fault MethodResult :=
  match name with
  | "strip" => text (strippedEnd isBlank (strippedFront isBlank cs))
  | "lstrip" => text (strippedFront isBlank cs)
  | "rstrip" => text (strippedEnd isBlank cs)
  | "split" | "rsplit" => texts (split cs)
  | "splitlines" => texts (lines [] cs)
  | "isspace" => truth (made isBlank cs)
  | "isascii" => truth (cs.all (·.toNat < 128))
  | "isprintable" => truth (cs.all isPrintable)
  | "__len__" => int cs.length
  | _ => if cs.all isCovered then ofLetters cs name else refused

/-- A method of a text with a text. -/
def withText (cs part : List Char) (name : String) : Except Fault MethodResult :=
  let found := places part 0 cs
  match name with
  | "startswith" => truth (part.isPrefixOf cs)
  | "endswith" => truth (part.isSuffixOf cs)
  | "find" => int (placeOr found.head?)
  | "rfind" => int (placeOr found.getLast?)
  | "index" => if found.isEmpty then .error .badValue else int (placeOr found.head?)
  | "rindex" => if found.isEmpty then .error .badValue else int (placeOr found.getLast?)
  | "count" =>
    if part.isEmpty then int (cs.length + 1) else int ((cut part 0 [] cs).length - 1 : Nat)
  | "split" => if part.isEmpty then .error .badValue else texts (cut part 0 [] cs)
  | "rsplit" =>
    if part.isEmpty then .error .badValue
    else texts ((cut part.reverse 0 [] cs.reverse).map List.reverse).reverse
  | "join" => text ((part.map fun c => [c]).intersperse cs).flatten
  | "strip" => text (strippedEnd part.contains (strippedFront part.contains cs))
  | "lstrip" => text (strippedFront part.contains cs)
  | "rstrip" => text (strippedEnd part.contains cs)
  | "removeprefix" => text (if part.isPrefixOf cs then cs.drop part.length else cs)
  | "removesuffix" =>
    text (if part.isSuffixOf cs then cs.take (cs.length - part.length) else cs)
  | "__add__" => text (cs ++ part)
  | "__contains__" => truth !found.isEmpty
  | _ => refused

/-- The methods that put a text into a wider one. -/
def alignments : List String := ["ljust", "rjust", "center"]

/-- A method of a text with a number. -/
def withNumber (cs : List Char) (n : Int) (name : String) : Except Fault MethodResult :=
  match name with
  | "zfill" => text (zeroFilled n.toNat cs)
  | "__mul__" | "__rmul__" => text (List.replicate n.toNat cs).flatten
  | "__getitem__" => do
    let c ← itemAt cs n
    text [c]
  | _ => if alignments.contains name then text (aligned name n.toNat ' ' cs) else refused

end Words

/-- The characters of a value that has to be a text. -/
def Value.toText : Value → Except Fault (List Char)
  | .text s => .ok s.toList
  | _ => .error .wrongKind

/-- A method of a text. -/
def methodOfText (cs : List Char) (name : String) (args : List Value) :
    Except Fault MethodResult :=
  match args with
  | [] => Words.alone cs name
  | [.text part] => Words.withText cs part.toList name
  | [.none] =>
    if ["strip", "lstrip", "rstrip", "split", "rsplit"].contains name then Words.alone cs name
    else refused
  | [.list items] =>
    if name = "join" then do
      let pieces ← items.mapM Value.toText
      text (pieces.intersperse cs).flatten
    else refused
  | [.text a, .text b] =>
    if name = "replace" then
      if a.isEmpty then text (Words.interleaved b.toList cs)
      else text ((Words.cut a.toList 0 [] cs).intersperse b.toList).flatten
    else refused
  | [v] =>
    match v.index? with
    | some n => Words.withNumber cs n name
    | none => refused
  | [v, .text fill] =>
    match v.index?, fill.toList with
    | some n, [c] =>
      if Words.alignments.contains name then text (Words.aligned name n.toNat c cs) else refused
    | _, _ => refused
  | _ => refused

/-! ## Lists -/

/-- The place of the first item equal to a value. -/
def placeOf (v : Value) : Nat → List Value → Except Fault (Option Nat)
  | _, [] => .ok none
  | n, item :: rest => do
    if ← item.equal v then pure (some n) else placeOf v (n + 1) rest

/-- The number of items equal to a value. -/
def countOf (v : Value) : List Value → Except Fault Nat
  | [] => .ok 0
  | item :: rest => do
    let first ← item.equal v
    let others ← countOf v rest
    pure (others + first.toNat)

/-- A method of a list, which leaves it as it is. -/
def methodOfList (items : List Value) (name : String) (args : List Value) :
    Except Fault MethodResult :=
  match name, args with
  | "copy", [] => .ok (value (.list items))
  | "__len__", [] => int items.length
  | "count", [v] => do
    let n ← countOf v items
    int n
  | "index", [v] => do
    match ← placeOf v 0 items with
    | some n => int n
    | none => throw .badValue
  | "__contains__", [v] => do
    let place ← placeOf v 0 items
    truth place.isSome
  | "__add__", [.list more] => .ok (value (.list (items ++ more)))
  | "__getitem__", [v] =>
    match v.index? with
    | some n => (itemAt items n).map value
    | none => refused
  | _, _ => refused

/-! ## Any value -/

/-- The method of a name, called on arguments. -/
def Value.callMethod (owner : Value) (name : String) (args : List Value) :
    Except Fault MethodResult :=
  match name, args with
  | "__repr__", [] => (owner.written).map fun s => value (.text s)
  | "__str__", [] =>
    match owner with
    | .text _ => .ok itself
    | .scalar s => .ok (value (.text s.bare))
    | v => (v.written).map fun s => value (.text s)
  | _, _ =>
    match owner with
    | .bool b => methodOfInt (bitOf b) name args
    | .int v => methodOfInt v name args
    | .float x => methodOfFloat x name args
    | .scalar s => s.callMethod name args
    | .text s => methodOfText s.toList name args
    | .list items => methodOfList items name args
    | _ => refused

end Knot
