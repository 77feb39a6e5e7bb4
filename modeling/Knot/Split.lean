import Knot.Operator.Apply
import Knot.Run

/-!
# Splitting a binary operation

`Run.splitBinary` evaluates the two operands of an operator, side by side if the pool has
slots to spare and one after the other if not, and combines them.

In a split both operands run, whatever becomes of them, and the slots are given back when both
are done; a fault of the left operand hides one of the right. Without a split a fault of the
left operand keeps the right one from running. The connectives do not short-circuit here.
-/

namespace Knot.Run

/-- A change of a pool. -/
def onPool (p : PoolId) (f : WorkerPool → WorkerPool) : Run Unit :=
  update fun m => m.setPool p (f (m.pool p))

/-- A change of a pool that may fail, and then leaves it as it was. -/
def tryPool (p : PoolId) (f : WorkerPool → Except Fault WorkerPool) : Run Unit := fun m =>
  match f (m.pool p) with
  | .ok pool => (.value (), m.setPool p pool)
  | .error e => (.fault e, m)

/-- Takes slots of a pool, if more than that many are free, and tells whether it did. -/
def reserve (p : PoolId) (slots : Value) : Run Bool := fun m =>
  match (m.pool p).reserve? slots with
  | .ok (some pool) => (.value true, m.setPool p pool)
  | .ok none => (.value false, m)
  | .error f => (.fault f, m)

/-- Gives slots of a pool back. -/
def release (p : PoolId) (slots : Value) : Run Unit := tryPool p fun pool => pool.release slots

/-- Hands a task to a worker of a pool. -/
def submit (p : PoolId) : Run Unit := tryPool p WorkerPool.submit

/-- A run after which slots are given back, however it ends. One that is out of fuel has not ended
and keeps them. -/
def releasing {α : Type} (p : PoolId) (slots : Value) (x : Run α) : Run α := fun m =>
  match x m with
  | (.exhausted, m) => (.exhausted, m)
  | (outcome, m) =>
    match release p slots m with
    | (.fault f, m) => (.fault f, m)
    | (_, m) => (outcome, m)

/-- Two runs that both take place, in the given order, unless the first is out of fuel. -/
def both {α β : Type} (rightFirst : Bool) (left : Run α) (right : Run β) : Run (α × β) := fun m =>
  if rightFirst then
    match right m with
    | (.exhausted, m) => (.exhausted, m)
    | (b, m) =>
      let (a, m) := left m
      (a.both b, m)
  else
    match left m with
    | (.exhausted, m) => (.exhausted, m)
    | (a, m) =>
      let (b, m) := right m
      (a.both b, m)

/-- The operands of a split: a worker takes the right one. -/
def split {α β : Type} (p : PoolId) (left : Run α) (right : Run β) : Run (α × β) := do
  let rightFirst ← read fun m => (m.pool p).rightFirst (m.pool p).stats.parallel
  onPool p WorkerPool.countParallel
  releasing p WorkerPool.splitSlots do
    submit p
    both rightFirst left right

/-- Two operands one after the other. -/
def sequential {α β : Type} (p : PoolId) (left : Run α) (right : Run β) : Run (α × β) := do
  onPool p WorkerPool.countSequential
  let a ← left
  let b ← right
  pure (a, b)

/-- The pool that is meant; the default pool if none is named. -/
def resolvePool : Option PoolId → Run PoolId
  | some p => pure p
  | none => step Machine.ensureDefaultPool

/-- Both operands of an operator, side by side if the pool has slots to spare. -/
def operands {α β : Type} (pool : Option PoolId) (left : Run α) (right : Run β) : Run (α × β) := do
  let p ← resolvePool pool
  if ← reserve p WorkerPool.splitSlots then split p left right else sequential p left right

/-- A binary operator on two operands that may be evaluated side by side. -/
def splitBinary (op : BinaryOp) (left right : Run Boxed) (pool : Option PoolId) : Run Boxed :=
  if op.splittable then do
    let (a, b) ← operands pool left right
    boxResult (op.apply a.value b.value)
  else fail (.operator (.notSplittable op))

/-! ## Pools that count whole slots -/

section

variable {p : PoolId} {m : Machine} {n : Int}

/-- The slots of a split are taken where more than two are free. -/
theorem reserve_int (free : (m.pool p).available = .int n) :
    reserve p WorkerPool.splitSlots m =
      if 2 < n then (.value true, m.setPool p { m.pool p with available := .int (n - 2) })
      else (.value false, m) := by
  have asked := WorkerPool.reserve?_int free 2
  unfold reserve WorkerPool.splitSlots
  rw [asked]
  by_cases spare : 2 < n
  · rw [if_pos spare, if_pos spare]
  · rw [if_neg spare, if_neg spare]

/-- They are given back. -/
theorem release_int (free : (m.pool p).available = .int n) :
    release p WorkerPool.splitSlots m =
      (.value (), m.setPool p { m.pool p with available := .int (n + 2) }) := by
  have released := WorkerPool.release_int free 2
  unfold release tryPool WorkerPool.splitSlots
  simp only [released]

/-- So they are after a run that has ended. -/
theorem releasing_int {α : Type} {x : Run α} {outcome : Outcome α} {m' : Machine}
    (ran : x m = (outcome, m')) (ended : outcome ≠ .exhausted) (free : (m'.pool p).available = .int n) :
    releasing p WorkerPool.splitSlots x m =
      (outcome, m'.setPool p { m'.pool p with available := .int (n + 2) }) := by
  have released := release_int free
  unfold releasing
  rw [ran]
  cases outcome with
  | exhausted => exact absurd rfl ended
  | _ => simp only [released]

/-- A task is handed over where there are workers. -/
theorem submit_int {k : Int} (workers : (m.pool p).workers = .int k) (some_workers : 0 < k) :
    submit p m = (.value (), m.setPool p { m.pool p with
      stats := { (m.pool p).stats with submitted := (m.pool p).stats.submitted + 1 } }) := by
  unfold submit tryPool
  rw [WorkerPool.submit_int workers some_workers]

end

end Knot.Run
