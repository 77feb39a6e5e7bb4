import Knot.Operator
import Knot.Value

/-!
# Expressions

A tree describes the body of a function. Every node carries the static type of its value.
Variables and labels carry a number, their identity: two variables named `n` stay apart.

Two kinds of nodes mark how a part is to be evaluated and are put in by `Expr.substitute` only:
`cached` is a call answered from a memo cache, `parallel` a binary operation whose operands are
calls that may run side by side. `strange` and `bare` are nodes from outside: a constant of
another class, and a node about which only its type is known. They can be held, compared and
written; a substitution does not go past them, and they cannot be evaluated.
-/

namespace Knot

/-- A variable. -/
structure Parameter where
  name : String
  type : StaticType
  uid : Nat
deriving DecidableEq, Repr

/-- The target of jumps. -/
structure LabelTarget where
  name : String
  type : StaticType
  uid : Nat
deriving DecidableEq, Repr

/-- The number of a memo cache. -/
abbrev CacheId := Nat

/-- The number of a worker pool. -/
abbrev PoolId := Nat

/-- An expression. The parameters of a `lambda` are expressions, since a substitution may put any
expression in a parameter's place. -/
inductive Expr where
  | constant (value : Boxed) (type : StaticType)
  | parameter (p : Parameter)
  | unary (op : UnaryOp) (operand : Expr) (type : StaticType)
  | binary (op : BinaryOp) (left right : Expr) (type : StaticType)
  | conditional (test ifTrue ifFalse : Expr) (type : StaticType)
  | invoke (callee : Expr) (arguments : List Expr) (type : StaticType)
  | member (owner : Expr) (name : String) (type : StaticType)
  | hostCall (function : HostFunction) (arguments : List Expr) (type : StaticType)
  | block (locals : List Parameter) (expressions : List Expr) (type : StaticType)
  | label (target : LabelTarget) (default : Option Expr) (type : StaticType)
  | goto (kind : GotoKind) (target : LabelTarget) (value : Option Expr) (type : StaticType)
  | loop (body : Expr) (breakLabel continueLabel : Option LabelTarget) (type : StaticType)
  | lambda (parameters : List Expr) (body : Expr) (type : StaticType)
  | cached (callee argument : Expr) (type : StaticType) (cache : Option CacheId)
  | parallel (op : BinaryOp) (left right : Expr) (type : StaticType) (pool : Option PoolId)
  | strange (value : Boxed) (type : StaticType)
  | bare (type : StaticType)

namespace Expr

/-- The static type of an expression. -/
def type : Expr → StaticType
  | constant _ t | unary _ _ t | binary _ _ _ t | conditional _ _ _ t | invoke _ _ t
  | member _ _ t | hostCall _ _ t | block _ _ t | label _ _ t | goto _ _ _ t | loop _ _ _ t
  | lambda _ _ t | cached _ _ t _ | parallel _ _ _ t _ | strange _ t | bare t => t
  | parameter p => p.type

/-- The name of the kind of a node. -/
def kind : Expr → String
  | constant _ _ => "Constant"
  | parameter _ => "Parameter"
  | unary _ _ _ => "Unary"
  | binary _ _ _ _ => "Binary"
  | conditional _ _ _ _ => "Conditional"
  | invoke _ _ _ => "Invoke"
  | member _ _ _ => "Member"
  | hostCall _ _ _ => "HostCall"
  | block _ _ _ => "Block"
  | label _ _ _ => "Label"
  | goto _ _ _ _ => "Goto"
  | loop _ _ _ _ => "Loop"
  | lambda _ _ _ => "Lambda"
  | cached _ _ _ _ => "CacheLookup"
  | parallel _ _ _ _ _ => "ParallelBinary"
  | strange _ _ => "Strange"
  | bare _ => "Bare"

/-! ## Shapes -/

def parameter? : Expr → Option Parameter
  | parameter p => some p
  | _ => none

def isInvoke : Expr → Bool
  | invoke _ _ _ => true
  | _ => false

/-- A call, cached or not. -/
def isCall : Expr → Bool
  | invoke _ _ _ | cached _ _ _ _ => true
  | _ => false

def isLabel : Expr → Bool
  | label _ _ _ => true
  | _ => false

/-- The value of a constant, of the usual class or of another. -/
def constant? : Expr → Option Boxed
  | constant v _ | strange v _ => some v
  | _ => none

/-! ## Children -/

/-- The direct subexpressions. The variables of a block and the parameters of a lambda are not
among them. -/
def children : Expr → List Expr
  | constant _ _ | parameter _ | strange _ _ | bare _ => []
  | unary _ a _ => [a]
  | binary _ a b _ => [a, b]
  | conditional a b c _ => [a, b, c]
  | invoke f args _ => f :: args
  | member a _ _ => [a]
  | hostCall _ args _ => args
  | block _ es _ => es
  | label _ d _ => d.toList
  | goto _ _ v _ => v.toList
  | loop a _ _ _ => [a]
  | lambda _ a _ => [a]
  | cached a b _ _ => [a, b]
  | parallel _ a b _ _ => [a, b]

/-- The same node with `f` applied to each direct subexpression. -/
def mapChildren (f : Expr → Expr) : Expr → Expr
  | constant v t => constant v t
  | parameter p => parameter p
  | strange v t => strange v t
  | bare t => bare t
  | unary op a t => unary op (f a) t
  | binary op a b t => binary op (f a) (f b) t
  | conditional a b c t => conditional (f a) (f b) (f c) t
  | invoke g args t => invoke (f g) (args.map f) t
  | member a n t => member (f a) n t
  | hostCall g args t => hostCall g (args.map f) t
  | block vs es t => block vs (es.map f) t
  | label l d t => label l (d.map f) t
  | goto k l v t => goto k l (v.map f) t
  | loop a b c t => loop (f a) b c t
  | lambda ps a t => lambda ps (f a) t
  | cached a b t c => cached (f a) (f b) t c
  | parallel op a b t p => parallel op (f a) (f b) t p

/-- A node keeps its type when its children change. -/
@[simp] theorem type_mapChildren (f : Expr → Expr) (e : Expr) :
    (e.mapChildren f).type = e.type := by
  cases e <;> rfl

theorem children_mapChildren (f : Expr → Expr) (e : Expr) :
    (e.mapChildren f).children = e.children.map f := by
  cases e <;> simp [mapChildren, children, Option.toList_map]

end Expr

end Knot
