import Knot.Proofs.Splitting
import Knot.Workload

/-!
# The accounts of a pool

A split operation gives back the slots that it took, and is counted once, whether its operands run side by
side or one after the other and whether they end in values or in faults (`Run.Accounts.splitBinary`).

A thunk is a run that comes to an end and leaves the pool alone but for split operations in it, which may be
nested to any depth (`Thunk`). Two of them that do not depend on each other may be the operands of a split
operation: each answers the same whether it runs first or after the other. What such an operation answers
depends neither on the slots that are free nor on which operand runs first: the fault of the left operand,
or else that of the right one, or else what the operator makes of the two values
(`Run.splitBinary_transparent`).
-/

namespace Knot

/-! ## Pools -/

/-- A pool after so many split operations. The free slots are those of before, each operation has been
counted as one side by side or as one in turn, and a task has been handed over for each that was side by
side. -/
structure WorkerPool.After (q q' : WorkerPool) (operations : Nat) : Prop where
  available : q'.available = q.available
  workers : q'.workers = q.workers
  counted : q'.stats.parallel + q'.stats.sequential = q.stats.parallel + q.stats.sequential + operations
  submitted : q'.stats.submitted + q.stats.parallel = q.stats.submitted + q'.stats.parallel

namespace WorkerPool

variable {q q' q'' : WorkerPool} {n k : Nat}

theorem After.refl (q : WorkerPool) : q.After q 0 := ⟨rfl, rfl, rfl, rfl⟩

theorem After.trans (h : q.After q' n) (h' : q'.After q'' k) : q.After q'' (n + k) where
  available := h'.available.trans h.available
  workers := h'.workers.trans h.workers
  counted := by rw [h'.counted, h.counted, Nat.add_assoc]
  submitted := by
    have first := h.submitted
    have second := h'.submitted
    omega

theorem Ready.after (ready : q.Ready) (h : q.After q' n) : q'.Ready := by
  obtain ⟨free, workers, left, size, spare⟩ := ready
  exact ⟨free, workers, h.available.trans left, h.workers.trans size, spare⟩

/-- The pool with a split begun in it, if there are slots to spare. -/
def begun? (q : WorkerPool) : Option WorkerPool :=
  match q.reserve? splitSlots with
  | .ok (some q) => q.countParallel.submit.toOption
  | _ => none

/-- The pool, of which so many slots are free, with a split begun in it: two slots are taken, and a task has
been handed over. -/
def begun (q : WorkerPool) (free : Int) : WorkerPool :=
  { q with
    available := .int (free - 2)
    stats := ⟨q.stats.parallel + 1, q.stats.sequential, q.stats.submitted + 1⟩ }

/-- With slots to spare a split begins. -/
theorem begun?_of_spare {free workers : Int} (left : q.available = .int free)
    (size : q.workers = .int workers) (spare : 2 < free) (some_workers : 0 < workers) :
    q.begun? = some (q.begun free) := by
  unfold begun? splitSlots
  rw [reserve?_int left, if_pos spare]
  simp only
  rw [submit_int (k := workers) (by exact size) some_workers]
  rfl

/-- Without slots to spare no split begins. -/
theorem begun?_of_scarce {free : Int} (left : q.available = .int free) (scarce : ¬ 2 < free) :
    q.begun? = none := by
  unfold begun? splitSlots
  rw [reserve?_int left, if_neg scarce]

/-- What follows a split that has begun, when its slots have been given back. -/
theorem After.of_begun {free : Int} (slots : q.available = .int free) (h : (q.begun free).After q' n) :
    q'.available = .int (free - 2) ∧ q.After { q' with available := .int free } (1 + n) := by
  refine ⟨h.available, slots.symm, h.workers, ?_, ?_⟩
  · have counted := h.counted
    simp only [begun] at counted ⊢
    omega
  · have submitted := h.submitted
    simp only [begun] at submitted ⊢
    omega

/-- What follows an operation that has been counted as one in turn. -/
theorem After.of_countSequential (h : q.countSequential.After q' n) : q.After q' (1 + n) := by
  refine ⟨h.available, h.workers, ?_, h.submitted⟩
  have counted := h.counted
  simp only [countSequential] at counted
  omega

end WorkerPool

/-- On the machine the pool is there, and it is as it was after so many split operations. -/
def Machine.Balanced (m : Machine) (p : PoolId) (q : WorkerPool) (operations : Nat) : Prop :=
  ∃ q', m.pools[p]? = some q' ∧ q.After q' operations

section

variable {m : Machine} {p : PoolId} {q q' : WorkerPool}

theorem Machine.pool_of_getElem? (there : m.pools[p]? = some q) : m.pool p = q := by
  rw [Machine.pool, there, Option.getD_some]

theorem Machine.lt_size_of_getElem? (there : m.pools[p]? = some q) : p < m.pools.size :=
  (Array.getElem?_eq_some_iff.1 there).1

/-- A pool that has been replaced is there. -/
theorem Machine.getElem?_setPool (there : m.pools[p]? = some q) : (m.setPool p q').pools[p]? = some q' := by
  have inside := lt_size_of_getElem? there
  simp [setPool, inside]

end

/-! ## Two answers -/

/-- What two runs answer together: the fault of the left one, or else that of the right one, or else two
values. -/
def Outcome.Pairs (o : Outcome (Boxed × Boxed)) : Except Fault Value → Except Fault Value → Prop
  | .error e, _ => o = .fault e
  | .ok _, .error e => o = .fault e
  | .ok v, .ok w => ∃ x y, o = .value (x, y) ∧ x.value = v ∧ y.value = w

section

variable {v w : Except Fault Value}

theorem Outcome.pairs_both {o o' : Outcome Boxed} (left : o.answer = some v) (right : o'.answer = some w) :
    (o.both o').Pairs v w := by
  cases o <;> cases left <;> cases o' <;> cases right
  · exact ⟨_, _, rfl, rfl, rfl⟩
  all_goals rfl

theorem Outcome.Pairs.ne_exhausted {o : Outcome (Boxed × Boxed)} (h : o.Pairs v w) : o ≠ .exhausted := by
  rintro rfl
  unfold Outcome.Pairs at h
  split at h
  · cases h
  · cases h
  · obtain ⟨_, _, impossible, -⟩ := h
    cases impossible

/-- What an operator makes of two answers. -/
def BinaryOp.combine (op : BinaryOp) (v w : Except Fault Value) : Except Fault Value := do
  let x ← v
  let y ← w
  op.apply x y

/-- Two values are combined, and the result is boxed. -/
theorem Run.answer_combined {z : Run (Boxed × Boxed)} {m : Machine} (op : BinaryOp)
    (ends : (z m).1.Pairs v w) :
    let r := Run.bind z (fun r => boxResult (op.apply r.1.value r.2.value)) m
    r.1.answer = some (op.combine v w) ∧
      (r.2 = (z m).2 ∨ r.2 = { (z m).2 with nextIdentity := (z m).2.nextIdentity + 1 }) := by
  unfold Run.bind
  rcases ended : z m with ⟨o, m'⟩
  rw [ended] at ends
  match v, w, ends with
  | .error e, _, ends | .ok _, .error e, ends =>
    cases ends
    exact ⟨rfl, .inl rfl⟩
  | .ok v, .ok w, ⟨x, y, both, left, right⟩ =>
    subst both left right
    refine ⟨answer_boxResult _ m', ?_⟩
    cases applied : op.apply x.value y.value with
    | ok r => exact .inr (by simp [boxResult, box, applied])
    | error e => exact .inl (by simp [boxResult, applied])

end

/-! ## Where the operands are evaluated -/

section

variable {m : Machine} {p : PoolId} {q : WorkerPool} {named : Option PoolId} {free workers : Int}
  {l r : Run Boxed}

/-- The left operand runs after the right one, if that has answered. -/
theorem Run.both_rightFirst {w : Except Fault Value} (first : (r m).1.answer = some w) :
    Run.both true l r m = ((l (r m).2).1.both (r m).1, (l (r m).2).2) := by
  rcases ended : r m with ⟨o, m'⟩
  rw [ended] at first
  cases o <;> cases first <;> simp only [Run.both, if_true, ended]

/-- The right operand runs after the left one, if that has answered. -/
theorem Run.both_leftFirst {v : Except Fault Value} (first : (l m).1.answer = some v) :
    Run.both false l r m = ((l m).1.both (r (l m).2).1, (r (l m).2).2) := by
  rcases ended : l m with ⟨o, m'⟩
  rw [ended] at first
  cases o <;> cases first <;> simp only [Run.both, Bool.false_eq_true, if_false, ended]

/-- What is done before slots are given back counts for what comes of it only. -/
theorem Run.releasing_congr {α : Type} {x y : Run α} {m m' : Machine} {slots : Value} (same : x m = y m') :
    Run.releasing p slots x m = Run.releasing p slots y m' := by
  unfold Run.releasing
  rw [same]

/-- When something has been done that comes to an end, the slots are given back. -/
theorem Run.releasing_of_slots {α : Type} {z : Run α} {left : Int} (ends : (z m).1 ≠ .exhausted)
    (there : (z m).2.pools[p]? = some q) (slots : q.available = .int left) :
    Run.releasing p WorkerPool.splitSlots z m =
      ((z m).1, (z m).2.setPool p { q with available := .int (left + 2) }) := by
  have known := Machine.pool_of_getElem? there
  have released := Run.releasing_int (x := z) (p := p) rfl ends (by rw [known]; exact slots)
  rwa [known] at released

/-- With slots to spare, the operands are evaluated side by side. -/
theorem Run.operands_of_spare (there : m.pools[p]? = some q)
    (resolves : Run.resolvePool named m = (.value p, m)) (left : q.available = .int free)
    (size : q.workers = .int workers) (spare : 2 < free)
    (some_workers : 0 < workers) :
    Run.operands named l r m = Run.releasing p WorkerPool.splitSlots
      (Run.both (q.rightFirst q.stats.parallel) l r) (m.setPool p (q.begun free)) := by
  -- The pool is read again after each change of it; first the slots are taken, then the split is counted,
  -- then its right operand is handed over.
  let taken : WorkerPool := { q with available := .int (free - 2) }
  have here := Machine.pool_of_getElem? there
  have granted : Run.reserve p WorkerPool.splitSlots m = (.value true, m.setPool p taken) := by
    rw [Run.reserve_int (by rw [here]; exact left), if_pos spare, here]
  have known : (m.setPool p taken).pool p = taken :=
    Machine.pool_of_getElem? (Machine.getElem?_setPool there)
  have counted : ((m.setPool p taken).setPool p taken.countParallel).pool p = taken.countParallel :=
    Machine.pool_of_getElem? (Machine.getElem?_setPool (Machine.getElem?_setPool there))
  refine (Run.bind_of_value resolves).trans ((Run.bind_of_value granted).trans ?_)
  have handed : Run.submit p ((m.setPool p taken).setPool p taken.countParallel) =
      (.value (), m.setPool p (q.begun free)) := by
    rw [Run.submit_int (by rw [counted]; exact size) some_workers, counted]
    simp only [Machine.setPool_setPool]
    rfl
  have order : ((m.setPool p taken).pool p).rightFirst ((m.setPool p taken).pool p).stats.parallel =
      q.rightFirst q.stats.parallel := by rw [known]
  show Run.releasing p WorkerPool.splitSlots
    (Run.submit p >>= fun _ => Run.both (((m.setPool p taken).pool p).rightFirst
      ((m.setPool p taken).pool p).stats.parallel) l r)
    ((m.setPool p taken).setPool p ((m.setPool p taken).pool p).countParallel) = _
  rw [order, known]
  exact Run.releasing_congr (Run.bind_of_value handed)

/-- Without slots to spare, the right operand is evaluated after the left one, unless that ends early. -/
theorem Run.operands_of_scarce (there : m.pools[p]? = some q)
    (resolves : Run.resolvePool named m = (.value p, m)) (left : q.available = .int free)
    (scarce : ¬ 2 < free) :
    Run.operands named l r m =
      Run.bind l (fun a => Run.bind r fun b => Run.pure (a, b)) (m.setPool p q.countSequential) := by
  have here := Machine.pool_of_getElem? there
  have refused : Run.reserve p WorkerPool.splitSlots m = (.value false, m) := by
    rw [Run.reserve_int (by rw [here]; exact left), if_neg scarce]
  refine (Run.bind_of_value resolves).trans ((Run.bind_of_value refused).trans ?_)
  show Run.sequential p l r m = _
  rw [← Machine.pool_of_getElem? there]
  rfl

end

/-! ## What operands do to the accounts -/

/-- Started on a machine of the class `I`, the run answers `v` and ends in the class `J`, after as many split
operations on the pool `p` as are said. -/
def Run.Accounts (p : PoolId) (I : Machine → Prop) (x : Run Boxed) (v : Except Fault Value)
    (J : Machine → Prop) (operations : Machine → Nat) : Prop :=
  ∀ ⦃m q⦄, I m → m.pools[p]? = some q → q.Ready →
    (x m).1.answer = some v ∧ J (x m).2 ∧ (x m).2.Balanced p q (operations m)

/-- The two operands of a split operation have been evaluated and answer `v` and `w`, and the machine they
leave is in the class `J`, after so many split operations. -/
def Run.Evaluated (p : PoolId) (q : WorkerPool) (v w : Except Fault Value) (J : Machine → Prop)
    (operations : Nat) (z : Outcome (Boxed × Boxed) × Machine) : Prop :=
  z.1.Pairs v w ∧ J z.2 ∧ z.2.Balanced p q operations

section

variable (p : PoolId) (left right : Run Boxed) (a b : Machine → Nat) (m : Machine)

/-- The operations in two operands side by side, if there are so many in each when it is started on a
machine. -/
def Run.operationsBoth (rightFirst : Bool) : Nat :=
  if rightFirst then b m + a (right m).2 else a m + b (left m).2

/-- The operations in two operands in turn. -/
def Run.operationsInTurn : Nat :=
  match left m with
  | (.value _, m') => a m + b m'
  | _ => a m

/-- The operations in the operands of a split operation. -/
def Run.operationsIn : Nat :=
  match (m.pool p).begun? with
  | some begun =>
    operationsBoth left right a b (m.setPool p begun) ((m.pool p).rightFirst (m.pool p).stats.parallel)
  | none => operationsInTurn left a b (m.setPool p (m.pool p).countSequential)

end

/-- A class of machines that takes notice neither of the pool `p` nor of how many boxes there have been. -/
structure Machine.Unaware (p : PoolId) (I : Machine → Prop) : Prop where
  setPool : ∀ m q, I m → I (m.setPool p q)
  box : ∀ m : Machine, I m → I { m with nextIdentity := m.nextIdentity + 1 }

namespace Run.Accounts

variable {p : PoolId} {I J J₁ J₂ : Machine → Prop} {x y l r : Run Boxed} {v w : Except Fault Value}
  {a b : Machine → Nat} {m : Machine} {q : WorkerPool}

/-- One run after another, whatever the first one answers. -/
theorem next (first : x.Accounts p I v J₁ a) (second : y.Accounts p J₁ w J b) (start : I m)
    (there : m.pools[p]? = some q) (ready : q.Ready) :
    (y (x m).2).1.answer = some w ∧ J (y (x m).2).2 ∧ (y (x m).2).2.Balanced p q (a m + b (x m).2) := by
  obtain ⟨-, still, q', there', after⟩ := first start there ready
  obtain ⟨answer, done, q'', there'', after'⟩ := second still there' (ready.after after)
  exact ⟨answer, done, q'', there'', after.trans after'⟩

/-- Two runs side by side, in either order. -/
theorem both (left : l.Accounts p I v J₁ a) (rightAfter : r.Accounts p J₁ w J b)
    (right : r.Accounts p I w J₂ b) (leftAfter : l.Accounts p J₂ v J a) (start : I m)
    (there : m.pools[p]? = some q) (ready : q.Ready) (rightFirst : Bool) :
    Run.Evaluated p q v w J (Run.operationsBoth l r a b m rightFirst) (Run.both rightFirst l r m) := by
  cases rightFirst with
  | true =>
    have first := (right start there ready).1
    obtain ⟨second, done, balanced⟩ := right.next leftAfter start there ready
    rw [Run.both_rightFirst first]
    exact ⟨Outcome.pairs_both second first, done, balanced⟩
  | false =>
    have first := (left start there ready).1
    obtain ⟨second, done, balanced⟩ := left.next rightAfter start there ready
    rw [Run.both_leftFirst first]
    exact ⟨Outcome.pairs_both first second, done, balanced⟩

/-- One run after another, unless the first one ends in a fault. -/
theorem inTurn (left : l.Accounts p I v J₁ a) (rightAfter : r.Accounts p J₁ w J b)
    (failed : ∀ e, v = .error e → ∀ m, J₁ m → J m) (start : I m) (there : m.pools[p]? = some q)
    (ready : q.Ready) :
    Run.Evaluated p q v w J (Run.operationsInTurn l a b m)
      (Run.bind l (fun x => Run.bind r fun y => Run.pure (x, y)) m) := by
  have first := left start there ready
  have second := left.next rightAfter start there ready
  unfold Run.bind Run.operationsInTurn
  rcases ended : l m with ⟨o, m₁⟩
  rw [ended] at first second
  cases o with
  | value x =>
    obtain ⟨⟨⟩, -, -⟩ := first
    rcases ended' : r m₁ with ⟨o', m₂⟩
    simp only [ended'] at second ⊢
    obtain ⟨answer, done, balanced⟩ := second
    cases o' with
    | value y =>
      cases answer
      exact ⟨⟨x, y, rfl, rfl, rfl⟩, done, balanced⟩
    | fault e =>
      cases answer
      exact ⟨rfl, done, balanced⟩
    | _ => cases answer
  | fault e =>
    -- The right operand does not run: what there is to say of the machine must hold after the left one.
    obtain ⟨⟨⟩, still, balanced⟩ := first
    exact ⟨rfl, failed e rfl m₁ still, balanced⟩
  | _ => cases first.1

/-- The slots of a split are given back when its operands have been evaluated. -/
theorem releasing {z : Run (Boxed × Boxed)} {n : Nat} {free : Int} (unaware : Machine.Unaware p J)
    (slots : q.available = .int free) (evaluated : Run.Evaluated p (q.begun free) v w J n (z m)) :
    Run.Evaluated p q v w J (1 + n) (Run.releasing p WorkerPool.splitSlots z m) := by
  obtain ⟨pairs, done, q', there, after⟩ := evaluated
  obtain ⟨slots', after'⟩ := WorkerPool.After.of_begun slots after
  rw [Run.releasing_of_slots pairs.ne_exhausted there slots', Int.sub_add_cancel]
  exact ⟨pairs, unaware.setPool _ _ done, _, Machine.getElem?_setPool there, after'⟩

/-- The operands of a split operation are evaluated, however many slots are free. -/
theorem operands {named : Option PoolId} (resolves : ∀ m, I m → Run.resolvePool named m = (.value p, m))
    (unaware : Machine.Unaware p I) (unaware' : Machine.Unaware p J)
    (left : l.Accounts p I v J₁ a) (rightAfter : r.Accounts p J₁ w J b) (right : r.Accounts p I w J₂ b)
    (leftAfter : l.Accounts p J₂ v J a) (failed : ∀ e, v = .error e → ∀ m, J₁ m → J m) (start : I m)
    (there : m.pools[p]? = some q) (ready : q.Ready) :
    Run.Evaluated p q v w J (1 + Run.operationsIn p l r a b m) (Run.operands named l r m) := by
  obtain ⟨free, workers, slots, size, some_workers⟩ := ready
  have known := Machine.pool_of_getElem? there
  by_cases spare : 2 < free
  · have begins := WorkerPool.begun?_of_spare slots size spare (some_workers spare)
    have there' : (m.setPool p (q.begun free)).pools[p]? = some (q.begun free) :=
      Machine.getElem?_setPool there
    have ready' : (q.begun free).Ready := ⟨free - 2, workers, rfl, size, fun _ => some_workers spare⟩
    have both := left.both rightAfter right leftAfter (unaware.setPool m _ start) there' ready'
      (q.rightFirst q.stats.parallel)
    rw [Run.operands_of_spare there (resolves m start) slots size spare (some_workers spare),
      Run.operationsIn, known, begins]
    exact releasing unaware' slots both
  · have begins := WorkerPool.begun?_of_scarce slots spare
    have there' : (m.setPool p q.countSequential).pools[p]? = some q.countSequential :=
      Machine.getElem?_setPool there
    have ready' : q.countSequential.Ready := ⟨free, workers, slots, size, some_workers⟩
    have inTurn := left.inTurn rightAfter failed (unaware.setPool m _ start) there' ready'
    rw [Run.operands_of_scarce there (resolves m start) slots spare, Run.operationsIn, known, begins]
    obtain ⟨pairs, done, q', there'', after⟩ := inTurn
    exact ⟨pairs, done, q', there'', after.of_countSequential⟩

/-- A split operation keeps the accounts, and answers what its operator makes of the answers of its
operands. -/
theorem splitBinary {op : BinaryOp} (splittable : op.splittable = true) {named : Option PoolId}
    (resolves : ∀ m, I m → Run.resolvePool named m = (.value p, m))
    (unaware : Machine.Unaware p I) (unaware' : Machine.Unaware p J)
    (left : l.Accounts p I v J₁ a) (rightAfter : r.Accounts p J₁ w J b) (right : r.Accounts p I w J₂ b)
    (leftAfter : l.Accounts p J₂ v J a) (failed : ∀ e, v = .error e → ∀ m, J₁ m → J m) :
    Run.Accounts p I (Run.splitBinary op l r named) (op.combine v w) J
      fun m => 1 + Run.operationsIn p l r a b m := by
  intro m q start there ready
  obtain ⟨pairs, done, balanced⟩ :=
    operands resolves unaware unaware' left rightAfter right leftAfter failed start there ready
  obtain ⟨answer, same | boxed⟩ := Run.answer_combined op pairs
  all_goals
    rw [Run.splitBinary, if_pos splittable]
    refine ⟨answer, ?_⟩
  · exact same ▸ ⟨done, balanced⟩
  · exact boxed ▸ ⟨unaware'.box _ done, balanced⟩

end Run.Accounts

/-! ## Thunks -/

/-- A run, and then another one that may take up whatever became of it. -/
def Run.andThen (x : Run Boxed) (f : Outcome Boxed → Run Boxed) : Run Boxed := fun m => f (x m).1 (x m).2

/-- Started on a machine of the class `I`, the thunk comes to an end: it answers `v`, leaves a machine of
the class `J`, and evaluates so many split operations on the pool `p`. It does nothing else with that pool. -/
inductive Thunk (p : PoolId) :
    (Machine → Prop) → Run Boxed → Except Fault Value → (Machine → Prop) → (Machine → Nat) → Prop where
  /-- Work that has nothing to do with the pool. -/
  | work {I J : Machine → Prop} {x : Run Boxed} {v : Except Fault Value}
      (ends : ∀ m, I m → (x m).1.answer = some v ∧ J (x m).2 ∧ (x m).2.pools[p]? = m.pools[p]?) :
      Thunk p I x v J fun _ => 0
  /-- A split operation on two thunks of which each answers the same whether it runs first or after the
  other. -/
  | operation {I J J₁ J₂ : Machine → Prop} {op : BinaryOp} {l r : Run Boxed} {v w : Except Fault Value}
      {a b : Machine → Nat} {named : Option PoolId} (splittable : op.splittable = true)
      (resolves : ∀ m, I m → Run.resolvePool named m = (.value p, m))
      (unaware : Machine.Unaware p I) (unaware' : Machine.Unaware p J)
      (left : Thunk p I l v J₁ a) (rightAfter : Thunk p J₁ r w J b) (right : Thunk p I r w J₂ b)
      (leftAfter : Thunk p J₂ l v J a) (failed : ∀ e, v = .error e → ∀ m, J₁ m → J m) :
      Thunk p I (Run.splitBinary op l r named) (op.combine v w) J fun m => 1 + Run.operationsIn p l r a b m
  /-- A thunk, and then one that depends on what has become of the first. -/
  | andThen {I J J₁ : Machine → Prop} {x : Run Boxed} {f : Outcome Boxed → Run Boxed}
      {v w : Except Fault Value} {a : Machine → Nat} {b : Outcome Boxed → Machine → Nat}
      (first : Thunk p I x v J₁ a)
      (second : ∀ o, o.answer = some v → Thunk p J₁ (f o) w J (b o)) :
      Thunk p I (x.andThen f) w J fun m => a m + b (x m).1 (x m).2
  /-- What the thunk goes through may depend on the machine that it is started on. -/
  | consequence {I J : Machine → Prop} {x : Run Boxed} {v : Except Fault Value} {a : Machine → Nat}
      {I' J' : Machine → Machine → Prop} (before : ∀ m, I m → I' m m)
      (after : ∀ m, I m → ∀ m', J' m m' → J m')
      (each : ∀ m, I m → Thunk p (I' m) x v (J' m) a) : Thunk p I x v J a

/-- Thunks keep the accounts. -/
theorem Thunk.accounts {p : PoolId} {I J : Machine → Prop} {x : Run Boxed} {v : Except Fault Value}
    {a : Machine → Nat} (h : Thunk p I x v J a) : x.Accounts p I v J a := by
  -- A split operation in a thunk has thunks for operands, so this goes through however deep it is nested.
  induction h with
  | work ends =>
    intro m q start there _
    obtain ⟨answer, done, untouched⟩ := ends m start
    exact ⟨answer, done, q, untouched.trans there, .refl q⟩
  | operation splittable resolves unaware unaware' _ _ _ _ failed left rightAfter right leftAfter =>
    exact .splitBinary splittable resolves unaware unaware' left rightAfter right leftAfter failed
  | andThen _ _ first second =>
    intro m q start there ready
    exact first.next (second _ (first start there ready).1) start there ready
  | consequence before after _ each =>
    intro m q start there ready
    obtain ⟨answer, done, balanced⟩ := each m start (before m start) there ready
    exact ⟨answer, after m start _ done, balanced⟩

/-! ## Sides -/

/-- Whether an operand does not ask how many slots are free. -/
def Side.Steady : Side → Prop
  | free => False
  | split _ left right => left.Steady ∧ right.Steady
  | _ => True

/-- What a steady operand answers. -/
def Side.answer : Side → Except Fault Value
  | value v => .ok v.value
  | reported v => if v.value.writable then .ok v.value else .error .badValue
  | split op left right =>
    if op.splittable then op.combine left.answer right.answer else .error (.operator (.notSplittable op))
  | _ => .error .hostFailure

/-- How many split operations there are in an operand that is started on a machine. -/
def Side.operations (p : PoolId) : Side → Machine → Nat
  | split op left right, m =>
    if op.splittable then
      1 + Run.operationsIn p (left.run p) (right.run p) (left.operations p) (right.operations p) m
    else 0
  | _, _ => 0

/-- The class of all machines takes notice of nothing. -/
theorem Machine.unaware_true (p : PoolId) : Machine.Unaware p fun _ => True :=
  ⟨fun _ _ _ => trivial, fun _ _ => trivial⟩

/-- An operand that is steady is a thunk, however deep the split operations in it are nested. -/
theorem Side.thunk (p : PoolId) {s : Side} (steady : s.Steady) :
    Thunk p (fun _ => True) (s.run p) s.answer (fun _ => True) (s.operations p) := by
  induction s with
  | value v => exact .work fun m _ => ⟨rfl, trivial, rfl⟩
  | fails => exact .work fun m _ => ⟨rfl, trivial, rfl⟩
  | free => exact steady.elim
  | reported v =>
    refine .work fun m _ => ?_
    have run : Side.run p (.reported v) m =
        if v.value.writable then (.value v, (Run.record (.reported [v]) m).2) else (.fault .badValue, m) := by
      show Run.bind (HostAction.reportAll [v]) (fun _ => Run.pure v) m = _
      unfold HostAction.reportAll Run.bind
      cases written : v.value.writable <;> simp [written] <;> rfl
    rw [run, Side.answer]
    cases v.value.writable <;> exact ⟨rfl, trivial, rfl⟩
  | split op left right leftThunk rightThunk =>
    have first := leftThunk steady.1
    have second := rightThunk steady.2
    have operations : Side.operations p (.split op left right) = fun m => if op.splittable then
        1 + Run.operationsIn p (left.run p) (right.run p) (left.operations p) (right.operations p) m
      else 0 := rfl
    rw [operations, Side.answer]
    cases splittable : op.splittable with
    | true =>
      exact .operation splittable (fun _ _ => rfl) (Machine.unaware_true p) (Machine.unaware_true p)
        first second second first fun _ _ _ _ => trivial
    | false =>
      refine .work fun m _ => ?_
      rw [Side.run, Run.splitBinary, splittable]
      exact ⟨rfl, trivial, rfl⟩

/-- A split operation on two thunks that do not depend on each other answers the fault of the left one, or
else that of the right one, or else what the operator makes of the two values, however many slots are free,
and whichever operand runs first. The slots are given back: as many are free afterwards as before. All
operations, that one and those in its operands, have been counted, each once, and each that was side by side
has handed a task over. An operator that is not splittable is refused, and nothing is evaluated and nothing
changes. -/
theorem Run.splitBinary_transparent {p : PoolId} {I J J₁ J₂ : Machine → Prop} {l r : Run Boxed}
    {v w : Except Fault Value} {a b : Machine → Nat} {named : Option PoolId}
    (resolves : ∀ m, I m → Run.resolvePool named m = (.value p, m))
    (unaware : Machine.Unaware p I) (unaware' : Machine.Unaware p J)
    (left : Thunk p I l v J₁ a) (rightAfter : Thunk p J₁ r w J b) (right : Thunk p I r w J₂ b)
    (leftAfter : Thunk p J₂ l v J a) (failed : ∀ e, v = .error e → ∀ m, J₁ m → J m) (op : BinaryOp) :
    (op.splittable = true → ∀ m q, I m → m.pools[p]? = some q → q.Ready →
      ∃ o m' q', Run.splitBinary op l r named m = (o, m') ∧ o.answer = some (op.combine v w) ∧ J m' ∧
        m'.pools[p]? = some q' ∧ q.After q' (1 + Run.operationsIn p l r a b m)) ∧
      (op.splittable = false → ∀ m,
        Run.splitBinary op l r named m = (.fault (.operator (.notSplittable op)), m)) := by
  refine ⟨fun splittable m q start there ready => ?_, fun refused m => ?_⟩
  · have operation :=
      Thunk.operation splittable resolves unaware unaware' left rightAfter right leftAfter failed
    obtain ⟨answer, done, q', there', after⟩ := operation.accounts start there ready
    exact ⟨_, _, q', rfl, answer, done, there', after⟩
  · simp only [Run.splitBinary, refused, Bool.false_eq_true, if_false]
    rfl

namespace Accounts

/-- A machine with a pool of six workers. -/
def machine : Machine := { Machine.initial 1 with pools := #[.new (.int 6)] }

/-- An operation whose right operand fails. -/
def left : Side := .split .add (.value ⟨Fibonacci.word 1, 0⟩) .fails

/-- An operation that can be carried out. -/
def right : Side := .split .multiply (.value ⟨Fibonacci.word 2, 0⟩) (.value ⟨Fibonacci.word 3, 0⟩)

theorem operationsIn_machine :
    Run.operationsIn 0 (left.run 0) (right.run 0) (left.operations 0) (right.operations 0) machine = 2 := rfl

end Accounts

/-- The fault of the left operand is that of the whole operation. Three operations have been counted, the
right operand among them, and all six slots are free again. -/
theorem Run.splitBinary_transparent_of_fault :
    ∃ o m' q',
      Run.splitBinary .add (Accounts.left.run 0) (Accounts.right.run 0) (some 0) Accounts.machine = (o, m') ∧
      o.answer = some (.error .hostFailure) ∧ m'.pools[0]? = some q' ∧ q'.available = .int 6 ∧
      q'.stats.parallel + q'.stats.sequential = 3 ∧ q'.stats.submitted = q'.stats.parallel := by
  have left := Side.thunk 0 (s := Accounts.left) ⟨trivial, trivial⟩
  have right := Side.thunk 0 (s := Accounts.right) ⟨trivial, trivial⟩
  have ready : (WorkerPool.new (.int 6)).Ready := ⟨6, 6, rfl, rfl, by decide⟩
  have named : ∀ m : Machine, True → Run.resolvePool (some 0) m = (.value 0, m) := fun _ _ => rfl
  obtain ⟨o, m', q', ends, answer, -, there, after⟩ :=
    (Run.splitBinary_transparent named (Machine.unaware_true 0) (Machine.unaware_true 0) left right right left
      (fun _ _ _ _ => trivial) .add).1 rfl Accounts.machine (.new (.int 6)) trivial rfl ready
  have counted := after.counted
  have submitted := after.submitted
  rw [Accounts.operationsIn_machine] at counted
  exact ⟨o, m', q', ends, answer, there, after.available, counted, by simpa [WorkerPool.new] using submitted⟩

end Knot
