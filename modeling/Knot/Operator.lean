/-!
# Operators

The unary and binary operators of expressions, their names, and their groups. Checked variants
refuse a result out of range, unchecked ones wrap. `BinaryOp.splittable` holds of the operators
whose two operands may be evaluated side by side.
-/

namespace Knot

/-- The unary operators. -/
inductive UnaryOp where
  | negate | negateChecked | not | convert | convertChecked
deriving DecidableEq, Repr

namespace UnaryOp

/-- The unary operators in order. -/
def all : List UnaryOp := [negate, negateChecked, not, convert, convertChecked]

/-- The name of an operator. -/
def name : UnaryOp → String
  | negate => "NEGATE"
  | negateChecked => "NEGATE_CHECKED"
  | not => "NOT"
  | convert => "CONVERT"
  | convertChecked => "CONVERT_CHECKED"

/-- The place of an operator, counted from one. -/
def number : UnaryOp → Nat
  | negate => 1
  | negateChecked => 2
  | not => 3
  | convert => 4
  | convertChecked => 5

/-- The operator of a name. -/
def ofName? (s : String) : Option UnaryOp := all.find? fun op => op.name = s

/-- Whether the operator converts its operand to the type of the node. -/
def isConversion : UnaryOp → Bool
  | convert | convertChecked => true
  | _ => false

end UnaryOp

/-- The binary operators. -/
inductive BinaryOp where
  | add | addChecked | subtract | subtractChecked | multiply | multiplyChecked
  | divide | modulo
  | and | or | exclusiveOr
  | andAlso | orElse
  | lessThan | lessThanOrEqual | greaterThan | greaterThanOrEqual | equal | notEqual
  | leftShift | rightShift
  | assign
deriving DecidableEq, Repr

namespace BinaryOp

/-- The binary operators in order. -/
def all : List BinaryOp := [
  add, addChecked, subtract, subtractChecked, multiply, multiplyChecked, divide, modulo,
  and, or, exclusiveOr, andAlso, orElse,
  lessThan, lessThanOrEqual, greaterThan, greaterThanOrEqual, equal, notEqual,
  leftShift, rightShift, assign]

/-- The name of an operator. -/
def name : BinaryOp → String
  | add => "ADD"
  | addChecked => "ADD_CHECKED"
  | subtract => "SUBTRACT"
  | subtractChecked => "SUBTRACT_CHECKED"
  | multiply => "MULTIPLY"
  | multiplyChecked => "MULTIPLY_CHECKED"
  | divide => "DIVIDE"
  | modulo => "MODULO"
  | and => "AND"
  | or => "OR"
  | exclusiveOr => "EXCLUSIVE_OR"
  | andAlso => "AND_ALSO"
  | orElse => "OR_ELSE"
  | lessThan => "LESS_THAN"
  | lessThanOrEqual => "LESS_THAN_OR_EQUAL"
  | greaterThan => "GREATER_THAN"
  | greaterThanOrEqual => "GREATER_THAN_OR_EQUAL"
  | equal => "EQUAL"
  | notEqual => "NOT_EQUAL"
  | leftShift => "LEFT_SHIFT"
  | rightShift => "RIGHT_SHIFT"
  | assign => "ASSIGN"

/-- The symbol of an operator between its operands. -/
def symbol : BinaryOp → String
  | add => "+"
  | addChecked => "+!"
  | subtract => "-"
  | subtractChecked => "-!"
  | multiply => "*"
  | multiplyChecked => "*!"
  | divide => "/"
  | modulo => "%"
  | and => "&"
  | or => "|"
  | exclusiveOr => "^"
  | andAlso => "&&"
  | orElse => "||"
  | lessThan => "<"
  | lessThanOrEqual => "<="
  | greaterThan => ">"
  | greaterThanOrEqual => ">="
  | equal => "=="
  | notEqual => "!="
  | leftShift => "<<"
  | rightShift => ">>"
  | assign => "="

/-- The place of an operator, counted from one. -/
def number (op : BinaryOp) : Nat := all.idxOf op + 1

/-- The operator of a name. -/
def ofName? (s : String) : Option BinaryOp := all.find? fun op => op.name = s

/-! ## Groups -/

def isBitwise : BinaryOp → Bool
  | and | or | exclusiveOr => true
  | _ => false

def isShortCircuit : BinaryOp → Bool
  | andAlso | orElse => true
  | _ => false

def isShift : BinaryOp → Bool
  | leftShift | rightShift => true
  | _ => false

def isComparison : BinaryOp → Bool
  | lessThan | lessThanOrEqual | greaterThan | greaterThanOrEqual | equal | notEqual => true
  | _ => false

/-- The operators whose two operands may be evaluated side by side: all but the remainder, the
shifts and the assignment. -/
def splittable : BinaryOp → Bool
  | modulo | leftShift | rightShift | assign => false
  | _ => true

end BinaryOp

/-- The kinds of jumps. They differ in their written form only. -/
inductive GotoKind where
  | goto | break | continue | return
deriving DecidableEq, Repr

namespace GotoKind

/-- The jump kinds in order. -/
def all : List GotoKind := [goto, .break, .continue, .return]

/-- The name of a jump kind. -/
def name : GotoKind → String
  | goto => "GOTO"
  | .break => "BREAK"
  | .continue => "CONTINUE"
  | .return => "RETURN"

/-- The word of a jump kind in a formatted expression. -/
def word : GotoKind → String
  | goto => "goto"
  | .break => "break"
  | .continue => "continue"
  | .return => "return"

/-- The place of a jump kind, counted from one. -/
def number (k : GotoKind) : Nat := all.idxOf k + 1

/-- The jump kind of a name. -/
def ofName? (s : String) : Option GotoKind := all.find? fun k => k.name = s

end GotoKind

end Knot
