import Knot.Fault
import Knot.Number.Decimal
import Knot.Text.Numeral
import Knot.Text.Quoted
import Knot.Value

/-!
# Values as text

Three written forms. `written` is the full form, in which a scalar names its type; `plain` is the
form inside a formatted expression, in which a scalar is written as the number that it is; `shown`
is the form inside a message, in which also a text stands for itself.

An integer that is too long to be written has none of them.
-/

namespace Knot

/-- The written form of a truth value. -/
def truthText (b : Bool) : String := if b then "True" else "False"

/-- The decimal digits of an integer. -/
def integerText (v : Int) : Except Fault String :=
  if Numeral.Writable v then .ok (toString v) else .error .badValue

theorem integerText_of_writable {v : Int} (h : Numeral.Writable v) :
    integerText v = .ok (toString v) := if_pos h

namespace Scalar

/-- A scalar as the number or truth value that it is. A short float is written as the double
of the same value. -/
def plain : Scalar → String
  | bool b => truthText b
  | int _ w => toString w.toInt
  | float _ x => (x.cast : Floating .double).shortestText

/-- The layout in which a format writes its numbers in full. -/
def fullStyle : Precision → ShortestStyle
  | .single => .compact
  | .double => .standard

/-- A scalar in full but for its type. -/
def bare : Scalar → String
  | bool b => truthText b
  | int _ w => toString w.toInt
  | float p x => x.shortestIn (fullStyle p)

/-- A scalar with its type. -/
def written : Scalar → String
  | bool b => "np." ++ truthText b ++ "_"
  | s => "np." ++ s.type.name ++ "(" ++ s.bare ++ ")"

end Scalar

/-- The written form of a pure function: its name and type. -/
def PureFunction.written (f : PureFunction) : String :=
  "<PureFunction " ++ f.name ++ ": " ++ f.type.text ++ ">"

namespace Value

mutual

/-- The full written form of a value. -/
def written : Value → Except Fault String
  | .none => .ok "None"
  | .bool b => .ok (truthText b)
  | .int v => integerText v
  | .float x => .ok x.shortestText
  | .text s => .ok (quoted s)
  | .list items => (writtenAll items).map fun texts => "[" ++ ", ".intercalate texts ++ "]"
  | .scalar s => .ok s.written
  | .host f => .ok ("<function " ++ f.shownName ++ ">")
  | .closure _ => .ok "<function closure>"
  | .compiled f => .ok f.written
  | .object _ name => .ok ("<Obj " ++ name ++ ">")
  | .method owner _ sort name =>
    (written owner).map fun text => match sort with
      | .bound => "<bound method " ++ owner.kind ++ "." ++ name ++ " of " ++ text ++ ">"
      | .kind => "<class '" ++ owner.kind ++ "'>"
      | .native => "<built-in method " ++ name ++ " of " ++ owner.kind ++ " object>"
      | .slot => "<method-wrapper '" ++ name ++ "' of " ++ owner.kind ++ " object>"

/-- The full written forms of several values. -/
def writtenAll : List Value → Except Fault (List String)
  | [] => .ok []
  | v :: vs => do
    let text ← v.written
    let texts ← writtenAll vs
    pure (text :: texts)

end

/-- The written form of a value inside a formatted expression. -/
def plain : Value → Except Fault String
  | .scalar s => .ok s.plain
  | v => v.written

/-- The form of a value inside a message. -/
def shown : Value → Except Fault String
  | .text s => .ok s
  | v => v.plain

mutual

/-- Whether all integers in a value can be written. -/
def writable : Value → Bool
  | .int v => Numeral.Writable v
  | .list items => writableAll items
  | _ => true

/-- The same for several values. -/
def writableAll : List Value → Bool
  | [] => true
  | v :: vs => v.writable && writableAll vs

end

end Value

end Knot
