import Knot.Eval

/-!
# Workloads

Descriptions of work for a memo cache and for a worker pool, in which the work on one result
may itself use the cache or the pool: requests to a cache whose computations make further
requests, and operands of a split that are splits.
-/

namespace Knot

mutual

/-- A request to a cache. -/
inductive CacheRequest where
  /-- The result for a function and an argument, computed if it is not kept. -/
  | call (function argument : Boxed) (compute : Option Computation)
  /-- The kept result, or `default`. -/
  | lookup (function argument default : Boxed)
  | contains (function argument : Boxed)
  | reset

/-- The computation of a result. It makes some requests first, and then yields a value, or
fails if it has none. -/
inductive Computation where
  | steps (requests : List CacheRequest) (result : Option Value)

end

namespace CacheRequest

variable [Host]

/-- The end of a computation: an object of its own that holds the value, so that no two computations end
in one box. -/
def conclude : Option Value → Run Boxed
  | some v => do
    let held ← Run.box v
    Run.newObject "result" [("value", held)]
  | none => Run.fail .hostFailure

/-- What a result holds, if a computation ended in it. Any other result stands for itself. -/
def content (result : Boxed) : Run Boxed :=
  match result.value with
  | .object _ _ => Run.read fun m => (m.given? result "value").getD result
  | _ => pure result

/-- Runs a request and records its answer. A jump out of it is not looked for. -/
def recorded (x : Run CacheReply) : Run Unit := fun m =>
  match x m with
  | (.value reply, m) => Run.record (.replied (.ok reply)) m
  | (.fault f, m) => Run.record (.replied (.error f)) m
  | (.jump target v, m) => (.jump target v, m)
  | (.exhausted, m) => (.exhausted, m)

mutual

/-- Runs a request to a cache. -/
def run (fuel : Nat) (cache : CacheId) : CacheRequest → Run CacheReply
  | call function argument compute => do
    let result ← Run.lookupOrCompute cache function argument
      (runOption fuel cache function argument compute)
    let v ← content result
    pure (.value v)
  | lookup function argument default => do
    let found ← Run.onCache cache fun c => (c.peek function argument).map fun r => (r, c)
    let v ← content (found.getD default)
    pure (.value v)
  | contains function argument => do
    let b ← Run.onCache cache fun c => (c.contains function argument).map fun r => (r, c)
    pure (.truth b)
  | reset => do
    Run.resetCache cache
    pure .done

/-- Computes a result; without a computation of its own the function is called. -/
def runOption (fuel : Nat) (cache : CacheId) (function argument : Boxed) :
    Option Computation → Run Boxed
  | some c => runComputation fuel cache c
  | none => Run.call fuel function [argument]

/-- Runs a computation. -/
def runComputation (fuel : Nat) (cache : CacheId) : Computation → Run Boxed
  | .steps requests result => do
    runAll fuel cache requests
    conclude result

/-- Runs several requests and records their answers. -/
def runAll (fuel : Nat) (cache : CacheId) : List CacheRequest → Run Unit
  | [] => pure ()
  | r :: rest => do
    recorded (run fuel cache r)
    runAll fuel cache rest

end

end CacheRequest

/-- An operand of a split. -/
inductive Side where
  | value (v : Boxed)
  | fails
  /-- The number of slots that are free at that moment. -/
  | free
  /-- A value that is reported. -/
  | reported (v : Boxed)
  /-- An operator whose operands may be evaluated side by side on the same pool. -/
  | split (op : BinaryOp) (left right : Side)

/-- Evaluates an operand of a split. -/
def Side.run (pool : PoolId) : Side → Run Boxed
  | value v => pure v
  | fails => Run.fail .hostFailure
  | free => do
    let n ← Run.read fun m => (m.pool pool).available
    Run.boxResult (ValueType.int64.coerce n)
  | reported v => do
    HostAction.reportAll [v]
    pure v
  | split op left right => Run.splitBinary op (run pool left) (run pool right) (some pool)

end Knot
