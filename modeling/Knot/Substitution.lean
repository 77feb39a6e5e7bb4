import Knot.Expr.Equality
import Knot.Expr.Purity
import Knot.Expr.Threadable
import Knot.Tally

/-!
# Substitution

`Expr.substitute` puts one expression in the place of another, wherever a node is equal to it, and
on the way marks how the parts of a function body are to be evaluated:

* with caching, each call of one argument becomes a `cached` call;
* with threading, a binary operation becomes `parallel` when both operands are calls, before and
  after the substitution, and may be split;
* with purity, a member read that could see a change from outside is refused.

All else keeps its shape and its type. The parts of a node are gone through from left to right,
and a tally counts what was done.
-/

namespace Knot

/-- What a substitution counts. -/
inductive SubstitutionCount where
  | substitutions | cachedInvocations | parallelBinaries
deriving DecidableEq, Repr

/-- The name of a count. -/
def SubstitutionCount.name : SubstitutionCount → String
  | substitutions => "substitutions"
  | cachedInvocations => "cached_invocations"
  | parallelBinaries => "parallel_binaries"

/-- What is to be put in the place of what, and what is to be marked. -/
structure Substitution where
  placeholder : Expr
  replacement : Expr
  caching : Bool
  threading : Bool
  purity : Bool
  allowImpure : Bool
  /-- The cache of the calls that get cached. -/
  cache : Option CacheId
  /-- The pool of the operations that get split. -/
  pool : Option PoolId

namespace Substitution

/-- A substitution that marks nothing. -/
def plain (placeholder replacement : Expr) : Substitution :=
  ⟨placeholder, replacement, false, false, false, false, none, none⟩

/-- What the function body may read. -/
def rule (r : Substitution) : PurityRule := ⟨r.caching, r.allowImpure⟩

/-- A computation that counts and can be refused. -/
abbrev Counting := StateT (Tally SubstitutionCount) (Except Fault)

/-- Raises a count. -/
def count (k : SubstitutionCount) : Counting Unit := modify fun t => t.raise k

/-- Whether a node is to be replaced. Two constants that cannot be compared are a fault. -/
def isPlaceholder (r : Substitution) (e : Expr) : Counting Bool := liftM (e.equal r.placeholder)

/-- Refuses a member read that is not pure, if that is asked for. -/
def checkMember (r : Substitution) (owner : Expr) (name : String) (type : StaticType) :
    Counting Unit :=
  if r.purity then liftM (r.rule.check owner.type name type) else pure ()

/-- Whether a binary operation is a candidate for a split. -/
def splits (r : Substitution) (op : BinaryOp) (left right : Expr) : Bool :=
  r.threading && left.isInvoke && right.isInvoke && Expr.splitThreadable op left right

/-- A binary operation that was a candidate, over its new operands. -/
def split (r : Substitution) (op : BinaryOp) (left right : Expr) (type : StaticType) :
    Counting Expr :=
  if left.isCall && right.isCall then do
    count .parallelBinaries
    pure (.parallel op left right type r.pool)
  else pure (.binary op left right type)

mutual

/-- Goes through a tree. -/
def visit (r : Substitution) (e : Expr) : Counting Expr := do
  if ← r.isPlaceholder e then
    count .substitutions
    pure r.replacement
  else match e with
    | .constant v t => pure (.constant v t)
    | .parameter p => pure (.parameter p)
    | .unary op a t => do
      let a ← visit r a
      pure (.unary op a t)
    | .binary op a b t => do
      let left ← visit r a
      let right ← visit r b
      if r.splits op a b then r.split op left right t else pure (.binary op left right t)
    | .conditional a b c t => do
      let a ← visit r a
      let b ← visit r b
      let c ← visit r c
      pure (.conditional a b c t)
    | .invoke f [a] t => do
      if r.caching then count .cachedInvocations
      let f ← visit r f
      let a ← visit r a
      pure (if r.caching then .cached f a t r.cache else .invoke f [a] t)
    | .invoke f args t => do
      let f ← visit r f
      let args ← visitAll r args
      pure (.invoke f args t)
    | .member a n t => do
      r.checkMember a n t
      let a ← visit r a
      pure (.member a n t)
    | .hostCall f args t => do
      let args ← visitAll r args
      pure (.hostCall f args t)
    | .block vs es t => do
      let es ← visitAll r es
      pure (.block vs es t)
    | .label l d t => do
      let d ← visitOption r d
      pure (.label l d t)
    | .goto k l v t => do
      let v ← visitOption r v
      pure (.goto k l v t)
    | .loop a b c t => do
      let a ← visit r a
      pure (.loop a b c t)
    | .lambda ps a t => do
      let ps ← visitAll r ps
      let a ← visit r a
      pure (.lambda ps a t)
    | .cached _ _ _ _ | .parallel _ _ _ _ _ | .strange _ _ | .bare _ =>
      throw (.unsupported (.substituting e.kind))

/-- Goes through several trees. -/
def visitAll (r : Substitution) : List Expr → Counting (List Expr)
  | [] => pure []
  | e :: es => do
    let e ← visit r e
    let es ← visitAll r es
    pure (e :: es)

/-- Goes through a tree that may be absent. -/
def visitOption (r : Substitution) : Option Expr → Counting (Option Expr)
  | none => pure none
  | some e => do
    let e ← visit r e
    pure (some e)

end

end Substitution

/-- The tree after a substitution and what was done, counted on top of a tally. -/
def Expr.substituteFrom (e : Expr) (r : Substitution) (t : Tally SubstitutionCount) :
    Except Fault (Expr × Tally SubstitutionCount) := (r.visit e).run t

/-- The tree after a substitution and what was done. -/
def Expr.substitute (e : Expr) (r : Substitution) : Except Fault (Expr × Tally SubstitutionCount) :=
  e.substituteFrom r .empty

end Knot
