import Knot.Operator
import Knot.StaticType

/-!
# Faults

Everything that can go wrong, by cause: an expression is refused when it is built (`Misuse`),
a tree holds something that a pass does not handle (`Unsupported`), an operator meets values
it is not defined for (`OperatorFault`), or an evaluation fails. `Fault.message` is the one
place where causes get their wording.
-/

namespace Knot

/-- Why an expression or a definition was refused. -/
inductive Misuse where
  | noTargetType
  | valueOperand (operator : String) (got : StaticType)
  | floatingNot
  | booleanNegation
  | assignmentTarget
  | assignment (source target : StaticType)
  | shiftOperands (op : BinaryOp)
  | operandTypes (op : BinaryOp) (left right : StaticType)
  | connectiveOperands (op : BinaryOp)
  | floatingBitwise (op : BinaryOp)
  | booleanArithmetic (op : BinaryOp)
  | conditionTest (got : StaticType)
  | branchTypes (ifTrue ifFalse : StaticType)
  | branchTarget (target : StaticType)
  /-- The target of the branches is no type. -/
  | foreignBranchTarget (written : String)
  | notCallable (got : StaticType)
  | argumentCount (expected got : Nat)
  | argumentType (got expected : StaticType)
  | missingDefault (target : StaticType)
  | defaultType (got target : StaticType)
  | missingJumpValue (target : StaticType)
  | jumpValueType (got target : StaticType)
  | lambdaParameter (written : String)
  | definitionShape
  | definitionBody
  | definitionSelf (self function : StaticType)
deriving DecidableEq, Repr

namespace Misuse

/-- The wording of a refusal. -/
def message : Misuse → String
  | noTargetType => "Conversion needs a target type"
  | valueOperand op got => op ++ " needs a value-typed operand, got " ++ got.text
  | floatingNot => "NOT is undefined for floating point operands"
  | booleanNegation => "Cannot negate a boolean"
  | assignmentTarget => "Assignment target must be a variable"
  | assignment source target => "Cannot assign " ++ source.text ++ " to " ++ target.text
  | shiftOperands op => op.name ++ " needs integer operands"
  | operandTypes op left right =>
    op.name ++ " operands differ: " ++ left.text ++ " vs " ++ right.text
  | connectiveOperands op => op.name ++ " needs boolean operands"
  | floatingBitwise op => op.name ++ " is undefined for floating point operands"
  | booleanArithmetic op => op.name ++ " is undefined for boolean operands"
  | conditionTest got => "Condition test must be bool, got " ++ got.text
  | branchTypes ifTrue ifFalse => "Branches differ: " ++ ifTrue.text ++ " vs " ++ ifFalse.text
  | branchTarget target => "Branches are not assignable to " ++ target.text
  | foreignBranchTarget written => "Branches are not assignable to " ++ written
  | notCallable got => "Cannot invoke a value of type " ++ got.text
  | argumentCount expected got =>
    "Expected " ++ toString expected ++ " argument(s), got " ++ toString got
  | argumentType got expected =>
    "Argument " ++ got.text ++ " is not assignable to " ++ expected.text
  | missingDefault target => "Label of type " ++ target.text ++ " needs a default value"
  | defaultType got target => "Default " ++ got.text ++ " does not match " ++ target.text
  | missingJumpValue target => "Jump to " ++ target.text ++ " label needs a value"
  | jumpValueType got target => "Jump value " ++ got.text ++ " does not match " ++ target.text
  | lambdaParameter written => "Lambda parameters must be Parameter nodes, got " ++ written
  | definitionShape => "A definition must be a lambda of exactly one self parameter"
  | definitionBody => "A definition must have the form (self) => (x) => body"
  | definitionSelf self function =>
    "Self parameter type " ++ self.text ++ " does not match the function " ++ function.text

end Misuse

/-- What a pass does not handle. -/
inductive Unsupported where
  /-- A node that no substitution goes into. -/
  | substituting (node : String)
  /-- A node that cannot be evaluated. -/
  | evaluating (node : String)
  /-- A node other than a call as an operand that may run beside another. -/
  | deferring (node : String)
  /-- A variable that no frame binds. -/
  | unbound (name : String)
  /-- An assignment to a variable that no frame binds. -/
  | undeclared (name : String)
  /-- A jump that leaves the function it is in. -/
  | escapingJump
deriving DecidableEq, Repr

namespace Unsupported

/-- The wording of an unsupported construct. -/
def message : Unsupported → String
  | substituting node => "Cannot rewrite expression of type " ++ node
  | evaluating node => "Cannot lower expression of type " ++ node
  | deferring node => node ++ " cannot be deferred"
  | unbound name => "Variable '" ++ name ++ "' is not bound in this scope"
  | undeclared name => "Cannot assign to undeclared variable '" ++ name ++ "'"
  | escapingJump => "Jump target is outside the enclosing lambda"

end Unsupported

/-- Why an operator has no result. -/
inductive OperatorFault where
  /-- The operand is no scalar but a value of another kind. -/
  | notScalar (kind : String)
  | bitwise (op : BinaryOp) (type : ValueType)
  | operands (op : BinaryOp) (type : ValueType)
  | unary (name : String)
  /-- The operands of this operator are never evaluated side by side. -/
  | notSplittable (op : BinaryOp)
deriving DecidableEq, Repr

namespace OperatorFault

/-- The wording of an operator fault. -/
def message : OperatorFault → String
  | notScalar kind => kind ++ " is not a supported value type"
  | bitwise op type => op.name ++ " is undefined for " ++ type.name
  | operands op type => op.name ++ " is not supported for " ++ type.name ++ " operands"
  | unary name => "Unary " ++ name ++ " is not supported"
  | notSplittable op => op.name ++ " is not supported when running in parallel"

end OperatorFault

/-- The ways to form the type of a function from a list of types. -/
inductive TypeFormer where
  | func | pureFunc | curried
deriving DecidableEq, Repr

/-- The wording when the list is too short. -/
def TypeFormer.complaint : TypeFormer → String
  | func => "func() needs at least a result type"
  | pureFunc => "pure_func() needs at least a result type"
  | curried => "curried() needs a parameter and a result type"

/-- A cause of failure. -/
inductive Fault where
  | misuse (m : Misuse)
  | unsupported (u : Unsupported)
  /-- A member of a mutable object is read where results are kept. -/
  | impureMember (member : String) (owner : StaticType)
  | operator (o : OperatorFault)
  /-- A checked integer result lies outside its type. -/
  | outOfRange (v : Int) (type : IntType)
  /-- A checked float lies outside an integer type. -/
  | floatOutOfRange (written : String) (type : IntType)
  /-- A checked conversion of an infinity or of `nan` to an integer type. -/
  | notFinite (written : String) (type : ValueType)
  /-- An integer is divided by zero. -/
  | divisionByZero
  /-- A closure is called with another number of arguments. -/
  | argumentCount (expected got : Nat)
  /-- A pure function is called with another number of arguments. -/
  | functionArguments (name : String) (expected got : Nat)
  | unknownSetting (name : String)
  | typeFormation (former : TypeFormer)
  /-- A host function fails. -/
  | hostFailure
  /-- A value of the wrong kind. -/
  | wrongKind
  /-- A number meets a text in an operation that is not defined on texts. -/
  | textOperand
  /-- A value of the right kind that an operation is not defined on. -/
  | badValue
  /-- A number too large to be converted. -/
  | tooLarge
  /-- A value has no such member. -/
  | noMember
  /-- A float is divided by zero. -/
  | zeroDivisor
  /-- An element of an empty collection. -/
  | noElement
deriving DecidableEq, Repr

namespace Fault

/-- The wording about a number outside the range of a type. -/
def rangeMessage (written : String) (type : IntType) : String :=
  written ++ " is outside the range of " ++ type.name ++
    " [" ++ toString type.lo ++ ", " ++ toString type.hi ++ "]"

/-- The wording of a fault. -/
def message : Fault → String
  | misuse m => m.message
  | unsupported u => u.message
  | impureMember member owner =>
    "Cannot access member '" ++ member ++ "' of " ++ owner.text ++
      ": only members of type PureFunction may be read from reference types"
  | operator o => o.message
  | outOfRange v type => rangeMessage (toString v) type
  | floatOutOfRange written type => rangeMessage written type
  | notFinite written type => "Cannot convert " ++ written ++ " to " ++ type.name
  | divisionByZero => "integer division by zero"
  | argumentCount expected got =>
    "Expected " ++ toString expected ++ " argument(s), got " ++ toString got
  | functionArguments name expected got =>
    name ++ " expects " ++ toString expected ++ " argument(s), got " ++ toString got
  | unknownSetting name => "Unknown setting: " ++ name
  | typeFormation former => former.complaint
  | hostFailure => "host failure"
  | wrongKind => "value of the wrong kind"
  | textOperand => "operation not defined on texts"
  | badValue => "value out of the domain of the operation"
  | tooLarge => "number too large to convert"
  | noMember => "no such member"
  | zeroDivisor => "division by zero"
  | noElement => "element of an empty collection"

end Fault

/-- The type that a former makes of a list of types. -/
def TypeFormer.form (former : TypeFormer) (types : List StaticType) : Except Fault StaticType :=
  let formed? := match former with
    | .func => StaticType.func? types
    | .pureFunc => StaticType.pureFunc? types
    | .curried => StaticType.curried? types
  match formed? with
  | some t => .ok t
  | none => .error (.typeFormation former)

end Knot
