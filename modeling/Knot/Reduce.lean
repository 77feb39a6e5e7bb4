import Knot.Expr
import Knot.Tally

/-!
# Reducing trees

Four rules make a tree smaller and keep its meaning:

* a conversion to the type that its operand has already is its operand;
* a conditional on a constant is one of its branches, if that has the type of the conditional;
* a block without variables that holds one expression, no label, of the block's type, is that
  expression;
* a block inside a block, without variables and labels, is spliced into the outer one.

A pass tries the rules once at every node, children first, and passes are repeated until one
changes nothing or until their number reaches a limit.
-/

namespace Knot

/-- What a reduction counts. -/
inductive ReduceCount where
  | identityConversions | constantConditions | singleBlocks | flattenedBlocks
  /-- All applications of a rule. -/
  | applications
  | passes
deriving DecidableEq, Repr

/-- The name of a count. -/
def ReduceCount.name : ReduceCount → String
  | identityConversions => "identity_conversions"
  | constantConditions => "constant_conditions"
  | singleBlocks => "single_blocks"
  | flattenedBlocks => "flattened_blocks"
  | applications => "rewrites"
  | passes => "passes"

namespace Expr

/-! ## The rules -/

/-- A conversion to the type that its operand has already is its operand. -/
def identityConversion? : Expr → Option Expr
  | unary op a t => if op.isConversion && a.type = t then some a else none
  | _ => none

/-- A conditional on a constant is the branch that the constant chooses. -/
def constantCondition? : Expr → Option Expr
  | conditional test a b t =>
    match test.constant? with
    | none => none
    | some v =>
      let branch := if v.value.truthy then a else b
      if branch.type = t then some branch else none
  | _ => none

/-- A block of one expression is that expression. -/
def singleBlock? : Expr → Option Expr
  | block [] [e] t => if !e.isLabel && e.type = t then some e else none
  | _ => none

/-- What an expression of a block contributes when the block is flattened: the expressions of a
block inside it that can be spliced, and itself otherwise. The last expression gives the outer
block its value, and so is spliced only if the types agree. -/
def spliced? (outer : StaticType) (last : Bool) : Expr → Option (List Expr)
  | block [] es t =>
    if !es.isEmpty && !es.any isLabel && (!last || t = outer) then some es else none
  | _ => none

/-- The expressions of a block with the blocks among them spliced. -/
def splice (outer : StaticType) : List Expr → List Expr
  | [] => []
  | e :: es => (spliced? outer es.isEmpty e).getD [e] ++ splice outer es

/-- Whether a block among the expressions can be spliced. -/
def canSplice (outer : StaticType) : List Expr → Bool
  | [] => false
  | e :: es => (spliced? outer es.isEmpty e).isSome || canSplice outer es

/-- A block with the blocks inside it spliced, if there are any. -/
def flattened? : Expr → Option Expr
  | block vs es t => if canSplice t es then some (block vs (splice t es) t) else none
  | _ => none

/-- The rules, in the order in which they are tried. -/
def reductionRules : List (ReduceCount × (Expr → Option Expr)) := [
  (.identityConversions, identityConversion?),
  (.constantConditions, constantCondition?),
  (.singleBlocks, singleBlock?),
  (.flattenedBlocks, flattened?)]

/-- The first rule that applies at the root, and its result. -/
def ruleStep? (e : Expr) : Option (ReduceCount × Expr) :=
  reductionRules.findSome? fun (k, rule) => (rule e).map fun r => (k, r)

/-- A tree to which a rule has been applied at the root, if one applies. -/
def reduceRoot (e : Expr) (t : Tally ReduceCount) : Expr × Tally ReduceCount :=
  match e.ruleStep? with
  | none => (e, t)
  | some (k, r) => (r, (t.raise k).raise .applications)

/-! ## Passes -/

mutual

/-- One pass over a tree, children first. -/
def reducePass : Expr → Tally ReduceCount → Expr × Tally ReduceCount
  | constant v ty, t => (constant v ty, t)
  | parameter p, t => (parameter p, t)
  | strange v ty, t => (strange v ty, t)
  | bare ty, t => (bare ty, t)
  | unary op a ty, t =>
    let (a, t) := reducePass a t
    reduceRoot (unary op a ty) t
  | binary op a b ty, t =>
    let (a, t) := reducePass a t
    let (b, t) := reducePass b t
    reduceRoot (binary op a b ty) t
  | conditional a b c ty, t =>
    let (a, t) := reducePass a t
    let (b, t) := reducePass b t
    let (c, t) := reducePass c t
    reduceRoot (conditional a b c ty) t
  | invoke f args ty, t =>
    let (f, t) := reducePass f t
    let (args, t) := reducePasses args t
    reduceRoot (invoke f args ty) t
  | member a n ty, t =>
    let (a, t) := reducePass a t
    reduceRoot (member a n ty) t
  | hostCall f args ty, t =>
    let (args, t) := reducePasses args t
    reduceRoot (hostCall f args ty) t
  | block vs es ty, t =>
    let (es, t) := reducePasses es t
    reduceRoot (block vs es ty) t
  | label l d ty, t =>
    let (d, t) := reducePassOption d t
    reduceRoot (label l d ty) t
  | goto k l v ty, t =>
    let (v, t) := reducePassOption v t
    reduceRoot (goto k l v ty) t
  | loop a b c ty, t =>
    let (a, t) := reducePass a t
    reduceRoot (loop a b c ty) t
  | lambda ps a ty, t =>
    let (a, t) := reducePass a t
    reduceRoot (lambda ps a ty) t
  | cached f a ty c, t =>
    let (f, t) := reducePass f t
    let (a, t) := reducePass a t
    reduceRoot (cached f a ty c) t
  | parallel op a b ty p, t =>
    let (a, t) := reducePass a t
    let (b, t) := reducePass b t
    reduceRoot (parallel op a b ty p) t

/-- One pass over several trees. -/
def reducePasses : List Expr → Tally ReduceCount → List Expr × Tally ReduceCount
  | [], t => ([], t)
  | e :: es, t =>
    let (e, t) := reducePass e t
    let (es, t) := reducePasses es t
    (e :: es, t)

/-- One pass over a tree that may be absent. -/
def reducePassOption : Option Expr → Tally ReduceCount → Option Expr × Tally ReduceCount
  | none, t => (none, t)
  | some e, t =>
    let (e, t) := reducePass e t
    (some e, t)

end

/-! ## Repetition -/

/-- A reduced tree. -/
structure Reduction where
  result : Expr
  tally : Tally ReduceCount
  /-- Whether the last pass changed nothing. -/
  settled : Bool

/-- At most `n` passes, until one changes nothing. -/
def reduceFrom : Nat → Expr → Tally ReduceCount → Reduction
  | 0, e, t => ⟨e, t, false⟩
  | n + 1, e, t =>
    let (result, after) := reducePass e (t.touch .applications)
    let after := after.raise .passes
    if after.count .applications = t.count .applications then ⟨result, after, true⟩
    else reduceFrom n result after

/-- A tree reduced by at most `maxPasses` passes. -/
def reduce (e : Expr) (maxPasses : Int) : Reduction := reduceFrom maxPasses.toNat e .empty

end Expr

end Knot
