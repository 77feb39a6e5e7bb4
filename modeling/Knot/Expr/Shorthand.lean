import Knot.Expr.Build

/-!
# Constructors by short names

Each operator has a short name in lower case, and so have the other constructors of expressions.
Names that would read as a keyword end in an underscore. `Builder.apply` applies a constructor to
operands, which are all expressions: a constructor that needs something else among them refuses
them.
-/

namespace Knot

/-- The short name of a unary operator. -/
def UnaryOp.shorthand : UnaryOp → String
  | negate => "negate"
  | negateChecked => "negate_checked"
  | not => "not_"
  | convert => "convert"
  | convertChecked => "convert_checked"

/-- The short name of a binary operator. -/
def BinaryOp.shorthand : BinaryOp → String
  | add => "add"
  | addChecked => "add_checked"
  | subtract => "subtract"
  | subtractChecked => "subtract_checked"
  | multiply => "multiply"
  | multiplyChecked => "multiply_checked"
  | divide => "divide"
  | modulo => "modulo"
  | and => "and_"
  | or => "or_"
  | exclusiveOr => "xor"
  | andAlso => "and_also"
  | orElse => "or_else"
  | lessThan => "lt"
  | lessThanOrEqual => "le"
  | greaterThan => "gt"
  | greaterThanOrEqual => "ge"
  | equal => "eq"
  | notEqual => "ne"
  | leftShift => "left_shift"
  | rightShift => "right_shift"
  | assign => "assign"

/-- A constructor of expressions that has a short name. -/
inductive Builder where
  | unary (op : UnaryOp)
  | binary (op : BinaryOp)
  | condition | invoke | block | loop | label
  | jump (kind : GotoKind)
  | hostCall
  /-- A constructor that takes no expressions in the number or the places in which it is given. -/
  | other
deriving DecidableEq, Repr

namespace Builder

/-- The short name of the constructor of jumps of a kind. -/
def jumpName : GotoKind → String
  | .goto => "goto"
  | .break => "break_"
  | .continue => "continue_"
  | .return => "return_"

/-- The constructors that are no operators, by their short names. -/
def named : List (String × Builder) := [
  ("condition", condition), ("invoke", invoke), ("block", block), ("loop", loop),
  ("label", label), ("host_call", hostCall), ("lambda_", other), ("convert", other),
  ("convert_checked", other), ("member", other), ("constant", other), ("parameter", other),
  ("variable", other), ("label_target", other), ("make_unary", other), ("make_binary", other)]

/-- The constructor of a short name. -/
def ofName? (s : String) : Option Builder :=
  let binary? := (BinaryOp.all.find? fun op => op.shorthand = s).map binary
  let unary? := (UnaryOp.all.find? fun op => !op.isConversion && op.shorthand = s).map unary
  let jump? := (GotoKind.all.find? fun k => jumpName k = s).map jump
  binary?.or (unary?.or (jump?.or (named.lookup s)))

/-- An expression in the place of a jump target. Its type is all that is tested. -/
def targetOf : Expr → LabelTarget
  | .parameter p => ⟨p.name, p.type, p.uid⟩
  | e => ⟨"", e.type, 0⟩

/-- A node with expressions in the places of its jump targets. Only a variable has all that a
target needs. -/
def withTargets (targets : List Expr) (built : Except Fault Expr) : Except Fault Expr := do
  let e ← built
  if targets.all fun t => t.parameter?.isSome then pure e else throw .noMember

/-- A constructor applied to operands. -/
def apply (b : Builder) (operands : List Expr) : Except Fault Expr :=
  match b, operands with
  | binary op, [l, r] => Build.binary op l r
  | unary op, [e] => Build.unary op e none
  | condition, [test, l, r] => Build.condition test l r none
  | condition, [test, _, _, t] =>
    if test.type ≠ .bool then Build.refuse (.conditionTest test.type)
    else do
      let text ← t.written
      Build.refuse (.foreignBranchTarget text)
  | invoke, f :: args => Build.invoke f args
  | block, es => .ok (Build.block [] es none)
  | loop, [e] => .ok (Build.loop e none none)
  | loop, [e, l] => withTargets [l] (.ok (Build.loop e (targetOf l) none))
  | loop, [e, l, m] => withTargets [l, m] (.ok (Build.loop e (targetOf l) (targetOf m)))
  | label, [l] => withTargets [l] (Build.label (targetOf l) none)
  | label, [l, d] => withTargets [l] (Build.label (targetOf l) d)
  | jump kind, [l] => withTargets [l] (Build.goto kind (targetOf l) none .void)
  | jump .continue, _ => .error .wrongKind
  | jump kind, [l, v] => withTargets [l] (Build.goto kind (targetOf l) v .void)
  | hostCall, _ :: args => .ok (Build.hostCall ⟨none, .notCallable⟩ args .object)
  | _, _ => .error .wrongKind

end Builder

end Knot
