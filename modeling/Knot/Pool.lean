import Knot.Operator.Comparison

/-!
# Worker pools

A pool hands out slots. A split of a binary operation needs two of them and takes place only
while more than two are free; otherwise the two operands are evaluated one after the other.
The slots of a split are given back when both operands are done.

The size of a pool is whatever value it was asked for with. What is no number is noticed when slots
are counted, and not before.

Which operand of a split comes first is not fixed. A pool carries the choices, one for each
split, as `rightFirst`.
-/

namespace Knot

/-- What a pool counts. -/
structure PoolStats where
  /-- Operations whose operands ran side by side. -/
  parallel : Nat
  /-- Operations whose operands ran one after the other. -/
  sequential : Nat
  /-- Operands handed to a worker. -/
  submitted : Nat
deriving DecidableEq, Repr

/-- A worker pool. -/
structure WorkerPool where
  workers : Value
  available : Value
  stats : PoolStats
  /-- Whether the right operand of the split of a number runs first. -/
  rightFirst : Nat → Bool

namespace WorkerPool

/-- The number of slots that a split takes. -/
def splitSlots : Value := .int 2

/-- A pool of which nothing is taken. -/
def new (workers : Value) : WorkerPool := ⟨workers, workers, ⟨0, 0, 0⟩, fun _ => false⟩

/-- The pool with slots taken, if more than that many are free. -/
def reserve? (p : WorkerPool) (slots : Value) : Except Fault (Option WorkerPool) := do
  if ← Comparison.gt.onPlain p.available slots then
    let rest ← p.available.minus slots
    pure (some { p with available := rest })
  else pure none

/-- The pool with slots given back. -/
def release (p : WorkerPool) (slots : Value) : Except Fault WorkerPool :=
  (p.available.plus slots).map fun n => { p with available := n }

/-- The pool with a task handed to a worker. A pool without workers refuses it. -/
def submit (p : WorkerPool) : Except Fault WorkerPool := do
  if ← Comparison.le.onPlain p.workers (.int 0) then throw .badValue
  else pure { p with stats := { p.stats with submitted := p.stats.submitted + 1 } }

/-- The pool with a split begun. -/
def countParallel (p : WorkerPool) : WorkerPool :=
  { p with stats := { p.stats with parallel := p.stats.parallel + 1 } }

/-- The pool with an operation done without a split. -/
def countSequential (p : WorkerPool) : WorkerPool :=
  { p with stats := { p.stats with sequential := p.stats.sequential + 1 } }

/-- A whole number of slots is taken when more than that many are free. -/
theorem reserve?_int {p : WorkerPool} {n : Int} (h : p.available = .int n) (slots : Int) :
    p.reserve? (.int slots) =
      .ok (if slots < n then some { p with available := .int (n - slots) } else none) := by
  by_cases enough : slots < n <;>
    simp [reserve?, h, enough, Comparison.onInts, bind, Except.bind, pure, Except.pure]

/-- A whole number of slots is given back. -/
theorem release_int {p : WorkerPool} {n : Int} (h : p.available = .int n) (slots : Int) :
    p.release (.int slots) = .ok { p with available := .int (n + slots) } := by
  simp [release, h, Except.map]

/-- A pool with workers takes a task. -/
theorem submit_int {p : WorkerPool} {k : Int} (h : p.workers = .int k) (some_workers : 0 < k) :
    p.submit = .ok { p with stats := { p.stats with submitted := p.stats.submitted + 1 } } := by
  have positive : ¬ k ≤ 0 := by omega
  simp [submit, h, Comparison.onInts, positive, bind, Except.bind, pure, Except.pure]

/-- Giving slots back undoes taking them. -/
theorem release_reserve? {p q : WorkerPool} {n slots : Int} (whole : p.available = .int n)
    (taken : p.reserve? (.int slots) = .ok (some q)) : q.release (.int slots) = .ok p := by
  rw [reserve?_int whole] at taken
  split at taken
  · cases taken
    rw [release_int rfl, Int.sub_add_cancel, ← whole]
  · cases taken

end WorkerPool

end Knot
