import Knot.Conversion
import Knot.Expr.Printer

/-!
# Building expressions

One checked constructor per node. Each tests the static types of its parts, refuses what does
not fit (`Misuse`), and gives the new node its type. A type that is given along wins over the
inferred one, provided the parts are assignable to it.
-/

namespace Knot.Build

/-- A refusal. -/
def refuse {α : Type} (m : Misuse) : Except Fault α := .error (.misuse m)

/-- The value type of an operand. -/
def operandType (operator : String) (e : Expr) : Except Fault ValueType :=
  match e.type with
  | .value t => .ok t
  | t => refuse (.valueOperand operator t)

/-- A constant. At a value type the value is coerced to it. -/
def constant (v : Boxed) (type : Option StaticType) : Except Fault Expr := do
  let t := type.getD v.value.inferredType
  let w ← t.coerce v.value
  pure (.constant ⟨w, v.identity⟩ t)

/-- A unary operation. A conversion has a type of its own, any other operator keeps the type of
its operand. -/
def unary (op : UnaryOp) (operand : Expr) (type : Option StaticType) : Except Fault Expr :=
  if op.isConversion then
    match type with
    | none => refuse .noTargetType
    | some t => do
      if t.isValue then let _ ← operandType op.name operand
      pure (.unary op operand t)
  else do
    let t ← operandType op.name operand
    if op = .not && t.isFloat then refuse .floatingNot
    else if op ≠ .not && t.isBool then refuse .booleanNegation
    else pure (.unary op operand (.value t))

/-- The result type of a binary operator, other than the assignment, on operands of two value
types. -/
def binaryType (op : BinaryOp) (left right : ValueType) : Except Misuse ValueType :=
  if op.isShift then
    if left.isInt && right.isInt then .ok left else .error (.shiftOperands op)
  else if left ≠ right then .error (.operandTypes op (.value left) (.value right))
  else if op.isComparison then .ok .bool
  else if op.isShortCircuit then
    if left.isBool then .ok .bool else .error (.connectiveOperands op)
  else if op.isBitwise then
    if left.isFloat then .error (.floatingBitwise op) else .ok left
  else if left.isBool then .error (.booleanArithmetic op)
  else .ok left

/-- An assignment to a variable. -/
def assign (left right : Expr) : Except Fault Expr :=
  match left with
  | .parameter p =>
    if StaticType.assignable p.type right.type then .ok (.binary .assign left right p.type)
    else refuse (.assignment right.type p.type)
  | _ => refuse .assignmentTarget

/-- A binary operation. -/
def binary (op : BinaryOp) (left right : Expr) : Except Fault Expr :=
  if op = .assign then assign left right
  else do
    let s ← operandType op.name left
    let t ← operandType op.name right
    match binaryType op s t with
    | .ok result => pure (.binary op left right (.value result))
    | .error m => refuse m

/-- A conditional. At type `void` the branches may have any types. -/
def condition (test ifTrue ifFalse : Expr) (type : Option StaticType) : Except Fault Expr :=
  if test.type ≠ .bool then refuse (.conditionTest test.type)
  else match type with
    | none =>
      if ifTrue.type = ifFalse.type then .ok (.conditional test ifTrue ifFalse ifTrue.type)
      else refuse (.branchTypes ifTrue.type ifFalse.type)
    | some t =>
      if t = .void || (t.assignable ifTrue.type && t.assignable ifFalse.type) then
        .ok (.conditional test ifTrue ifFalse t)
      else refuse (.branchTarget t)

/-- The first argument that does not fit its parameter. -/
def misfit? : List StaticType → List Expr → Option Misuse
  | t :: ts, e :: es =>
    if t.assignable e.type then misfit? ts es else some (.argumentType e.type t)
  | _, _ => none

/-- A call. -/
def invoke (callee : Expr) (arguments : List Expr) : Except Fault Expr :=
  match callee.type with
  | .func params result | .pureFunc params result =>
    if arguments.length ≠ params.length then
      refuse (.argumentCount params.length arguments.length)
    else match misfit? params arguments with
      | some m => refuse m
      | none => .ok (.invoke callee arguments result)
  | t => refuse (.notCallable t)

/-- The reading of a member. -/
def member (owner : Expr) (name : String) (type : StaticType) : Expr := .member owner name type

/-- A call of a host function. -/
def hostCall (function : HostFunction) (arguments : List Expr) (type : StaticType) : Expr :=
  .hostCall function arguments type

/-- A block. Its value is that of its last expression. -/
def block (locals : List Parameter) (expressions : List Expr) (type : Option StaticType) : Expr :=
  let inferred := match expressions.getLast? with
    | some e => e.type
    | none => .void
  .block locals expressions (type.getD inferred)

/-- A label. A label with a value needs a default for when it is reached in passing. -/
def label (target : LabelTarget) (default : Option Expr) : Except Fault Expr :=
  match default with
  | none =>
    if target.type = .void then .ok (.label target none .void)
    else refuse (.missingDefault target.type)
  | some d =>
    if target.type.assignable d.type then .ok (.label target d target.type)
    else refuse (.defaultType d.type target.type)

/-- A jump. -/
def goto (kind : GotoKind) (target : LabelTarget) (value : Option Expr) (type : StaticType) :
    Except Fault Expr :=
  match value with
  | none =>
    if target.type = .void then .ok (.goto kind target none type)
    else refuse (.missingJumpValue target.type)
  | some v =>
    if target.type.assignable v.type then .ok (.goto kind target v type)
    else refuse (.jumpValueType v.type target.type)

/-- A loop. Its value is that of its break label. -/
def loop (body : Expr) (breakLabel continueLabel : Option LabelTarget) : Expr :=
  let type := match breakLabel with
    | some l => l.type
    | none => .void
  .loop body breakLabel continueLabel type

/-- The first of several expressions that is no variable. -/
def notParameter? (parameters : List Expr) : Option Expr :=
  parameters.find? fun p => p.parameter?.isNone

/-- A function. -/
def lambda (parameters : List Expr) (body : Expr) : Except Fault Expr :=
  match notParameter? parameters with
  | some p => do
    let text ← p.written
    refuse (.lambdaParameter text)
  | none => .ok (.lambda parameters body (.func (parameters.map Expr.type) body.type))

end Knot.Build
