import Knot.Proofs.FirstOrder.Functions

/-!
# Side by side or one after the other

What a split operation answers, compared with the plain one on the same two calls, where the calls
return and disturb nothing. That they disturb nothing is said by a class of machines (`Calm`): what is
done to the slots and the counters of the pool stays in the class, every part of an operand that is
started in the class ends in a value and in the class, and a call ends in the same value each time
(`Expr.Settles`). Frames, caches and boxes may come and go inside of the class.

Whatever slots of the pool are free, and whichever operand runs first, the split operation combines the
two values as `BinaryOp.apply` does (`Expr.answer_parallel`). So does the plain operation, unless it is a
connective, which asks only what counts as true. On a left value that is no scalar the two part ways:
`BinaryOp.apply` refuses it, and the plain connective does not (`Expr.parallel_agrees_iff`).
-/

namespace Knot

/-! ## Runs that return -/

/-- Started in a class of machines, the run ends in a value with a property, and in the class. -/
def Run.Returns {α : Type} (K : Machine → Prop) (P : α → Prop) (x : Run α) : Prop :=
  ∀ m, K m → ∃ a m', x m = (.value a, m') ∧ P a ∧ K m'

namespace Run.Returns

variable {α β : Type} {K : Machine → Prop} {P : α → Prop} {Q : β → Prop} {x : Run α} {f : α → Run β}

theorem of_pure {a : α} (holds : P a) : Returns K P (pure a) := fun m start => ⟨a, m, rfl, holds, start⟩

theorem bind (first : Returns K P x) (second : ∀ a, P a → Returns K Q (f a)) :
    Returns K Q (x >>= f) := by
  intro m start
  obtain ⟨a, m', ended, holds, still⟩ := first m start
  obtain ⟨b, m'', ended', holds', still'⟩ := second a holds m' still
  exact ⟨b, m'', (Run.bind_of_value ended).trans ended', holds', still'⟩

/-- Two runs that both take place, in either order. -/
theorem both {y : Run β} (first : Returns K P x) (second : Returns K Q y) (rightFirst : Bool) :
    Returns K (fun r : α × β => P r.1 ∧ Q r.2) (Run.both rightFirst x y) := by
  intro m start
  cases rightFirst with
  | true =>
    obtain ⟨b, m', ended', holds', still⟩ := second m start
    obtain ⟨a, m'', ended, holds, still'⟩ := first m' still
    refine ⟨(a, b), m'', ?_, ⟨holds, holds'⟩, still'⟩
    simp only [Run.both, if_true, ended', ended, Outcome.both]
  | false =>
    obtain ⟨a, m', ended, holds, still⟩ := first m start
    obtain ⟨b, m'', ended', holds', still'⟩ := second m' still
    refine ⟨(a, b), m'', ?_, ⟨holds, holds'⟩, still'⟩
    simp only [Run.both, Bool.false_eq_true, if_false, ended, ended', Outcome.both]

end Run.Returns

/-! ## Pools -/

/-- The slots are counted in whole numbers, and if there are slots to spare there is a worker. -/
def WorkerPool.Ready (q : WorkerPool) : Prop :=
  ∃ free workers : Int, q.available = .int free ∧ q.workers = .int workers ∧ (2 < free → 0 < workers)

/-- A class of machines on which `named` stands for the pool `p`, and which is not left when slots of
that pool are taken or given back and its counters go up. -/
structure Calm (K : Machine → Prop) (named : Option PoolId) (p : PoolId) : Prop where
  resolves : Run.Returns K (· = p) (Run.resolvePool named)
  ready : ∀ m, K m → (m.pool p).Ready
  setPool : ∀ m q, K m → q.Ready → K (m.setPool p q)

namespace Calm

variable {K : Machine → Prop} {named : Option PoolId} {p : PoolId}

/-- Every machine with one ready pool is as calm as the next one. -/
theorem of_ready (p : PoolId) : Calm (fun m => p < m.pools.size ∧ (m.pool p).Ready) (some p) p where
  resolves := .of_pure rfl
  ready _ start := start.2
  setPool m q start ready := by
    refine ⟨by simpa [Machine.setPool] using start.1, ?_⟩
    rw [Machine.pool_setPool start.1, if_pos rfl]
    exact ready

/-- Counting an operation takes no slots. -/
theorem onPool (calm : Calm K named p) {f : WorkerPool → WorkerPool}
    (free : ∀ q, (f q).available = q.available) (workers : ∀ q, (f q).workers = q.workers) :
    Run.Returns K (fun _ => True) (Run.onPool p f) := by
  intro m start
  refine ⟨(), _, rfl, trivial, calm.setPool m _ start ?_⟩
  obtain ⟨n, k, left, size, spare⟩ := calm.ready m start
  exact ⟨n, k, (free _).trans left, (workers _).trans size, spare⟩

variable {α β : Type} {P : α → Prop} {Q : β → Prop} {x : Run α} {y : Run β}

theorem sequential (calm : Calm K named p) (first : x.Returns K P) (second : y.Returns K Q) :
    Run.Returns K (fun r : α × β => P r.1 ∧ Q r.2) (Run.sequential p x y) := by
  have counted : Run.Returns K (fun _ => True) (Run.onPool p WorkerPool.countSequential) :=
    calm.onPool (fun _ => rfl) fun _ => rfl
  refine counted.bind fun _ _ => first.bind fun a holds => second.bind fun b holds' => ?_
  exact .of_pure ⟨holds, holds'⟩

/-- A pool with slots to spare takes a task. -/
theorem submit {m : Machine} (calm : Calm K named p) (start : K m) {workers : Int}
    (size : (m.pool p).workers = .int workers) (some_workers : 0 < workers) :
    ∃ m', Run.submit p m = (.value (), m') ∧ K m' := by
  obtain ⟨n, k, left, size', spare⟩ := calm.ready m start
  let stats : PoolStats := { (m.pool p).stats with submitted := (m.pool p).stats.submitted + 1 }
  have ended : Run.submit p m = (.value (), m.setPool p { m.pool p with stats := stats }) :=
    Run.submit_int size some_workers
  exact ⟨_, ended, calm.setPool m _ start ⟨n, k, left, size', spare⟩⟩

/-- The slots of a split are given back. -/
theorem releasing {m : Machine} (calm : Calm K named p) {z : Run α} {a : α} {m' : Machine}
    (ended : z m = (.value a, m')) (still : K m') :
    ∃ m'', Run.releasing p WorkerPool.splitSlots z m = (.value a, m'') := by
  obtain ⟨n, k, left, -, -⟩ := calm.ready m' still
  exact ⟨_, Run.releasing_int ended nofun left⟩

/-- After slots to spare have been taken, a split runs both operands. -/
theorem split {m : Machine} (calm : Calm K named p) (start : K m) (first : x.Returns K P)
    (second : y.Returns K Q) {workers : Int} (size : (m.pool p).workers = .int workers)
    (some_workers : 0 < workers) (inside : p < m.pools.size) :
    ∃ a b m', Run.split p x y m = (.value (a, b), m') ∧ P a ∧ Q b := by
  have counted : K (m.setPool p (m.pool p).countParallel) := by
    obtain ⟨n, k, left, size', spare⟩ := calm.ready m start
    exact calm.setPool m _ start ⟨n, k, left, size', spare⟩
  have size' : ((m.setPool p (m.pool p).countParallel).pool p).workers = .int workers := by
    rw [Machine.pool_setPool inside, if_pos rfl]
    exact size
  obtain ⟨m₁, submitted, still⟩ := calm.submit counted size' some_workers
  let rightFirst := (m.pool p).rightFirst (m.pool p).stats.parallel
  obtain ⟨⟨a, b⟩, m₂, ended, ⟨holds, holds'⟩, still'⟩ := first.both second rightFirst m₁ still
  have tasks : (Run.submit p >>= fun _ => Run.both rightFirst x y)
      (m.setPool p (m.pool p).countParallel) = (.value (a, b), m₂) :=
    (Run.bind_of_value submitted).trans ended
  obtain ⟨m', released⟩ := calm.releasing tasks still'
  exact ⟨a, b, m', released, holds, holds'⟩

/-- Both operands run, however many slots are free. -/
theorem operands (calm : Calm K named p) {m : Machine} (start : K m) (first : x.Returns K P)
    (second : y.Returns K Q) :
    ∃ a b m', Run.operands named x y m = (.value (a, b), m') ∧ P a ∧ Q b := by
  obtain ⟨q, m₁, resolved, same, start⟩ := calm.resolves m start
  subst q
  obtain ⟨n, workers, left, size, spare⟩ := calm.ready m₁ start
  have reserved := Run.reserve_int left
  have begun := Run.bind_of_value (f := fun p => do
    if ← Run.reserve p WorkerPool.splitSlots then Run.split p x y else Run.sequential p x y) resolved
  -- two slots are taken only if one is left
  by_cases enough : (2 : Int) < n
  · rw [if_pos enough] at reserved
    have inside : p < m₁.pools.size := by
      by_contra outside
      rw [Machine.pool, Array.getElem?_eq_none (Nat.le_of_not_lt outside)] at left
      cases left
      omega
    have still : K (m₁.setPool p { m₁.pool p with available := .int (n - 2) }) :=
      calm.setPool m₁ _ start ⟨n - 2, workers, rfl, size, fun _ => spare enough⟩
    obtain ⟨a, b, m', ended, holds, holds'⟩ := calm.split still first second
      (by rw [Machine.pool_setPool inside, if_pos rfl]; exact size) (spare enough)
      (by simpa [Machine.setPool] using inside)
    exact ⟨a, b, m', begun.trans ((Run.bind_of_value reserved).trans ended), holds, holds'⟩
  · rw [if_neg enough] at reserved
    obtain ⟨⟨a, b⟩, m', ended, ⟨holds, holds'⟩, -⟩ := calm.sequential first second m₁ start
    exact ⟨a, b, m', begun.trans ((Run.bind_of_value reserved).trans ended), holds, holds'⟩

end Calm

/-! ## Operands -/

namespace Expr

variable [Host] {i : Interpreter} {fuel : Nat} {context : Context} {frame : FrameId}

/-- The evaluation of a call is that of its function and its arguments, and then the call. -/
theorem eval_of_isCall {e : Expr} (call : e.isCall = true) :
    e.eval i fuel context frame = e.putOff i fuel context frame >>= fun call => call.run i := by
  cases e with
  | invoke f args t => simp only [eval, putOff, bind_assoc, pure_bind, Deferred.run]
  | cached f a t c => simp only [eval, putOff, bind_assoc, pure_bind, Deferred.run]
  | _ => cases call

/-- Started in a class of machines, the function and the arguments of the operand end in values, and
from then on the call ends in the value `v` each time. -/
def Settles (K : Machine → Prop) (i : Interpreter) (fuel : Nat) (context : Context) (frame : FrameId)
    (e : Expr) (v : Value) : Prop :=
  (e.putOff i fuel context frame).Returns K fun call => (call.run i).Returns K fun b => b.value = v

namespace Settles

variable {K : Machine → Prop} {e : Expr} {v : Value}

/-- Only of a call anything can be put off. -/
theorem isCall (h : e.Settles K i fuel context frame v) {m : Machine} (start : K m) :
    e.isCall = true := by
  obtain ⟨call, m', ended, -, -⟩ := h m start
  cases isCall : e.isCall with
  | true => rfl
  | false =>
    rw [putOff_of_noCall i fuel context frame isCall] at ended
    cases ended

theorem eval (h : e.Settles K i fuel context frame v) (call : e.isCall = true) :
    (e.eval i fuel context frame).Returns K fun b => b.value = v := by
  rw [eval_of_isCall call]
  exact Run.Returns.bind h fun _ runs => runs

end Settles

end Expr

/-! ## What the operations answer -/

namespace BinaryOp

/-- What a connective makes of two truth values. -/
def connect (op : BinaryOp) (a b : Bool) : Bool :=
  match op with
  | .orElse => a || b
  | _ => a && b

/-- On a scalar a connective asks what counts as true. -/
theorem apply_connective {op : BinaryOp} (connective : op.isShortCircuit = true) (s : Scalar)
    (w : Value) :
    op.apply (.scalar s) w = .ok (.scalar (.bool (op.connect (Value.scalar s).truthy w.truthy))) := by
  cases op <;> first | rfl | cases connective

/-- What is no scalar is refused. -/
theorem apply_of_noScalar (op : BinaryOp) {v : Value} (noScalar : ∀ s, v ≠ .scalar s) (w : Value) :
    op.apply v w = .error (.operator (.notScalar v.kind)) := by
  cases v with
  | scalar s => exact absurd rfl (noScalar s)
  | _ => rfl

end BinaryOp

/-- A result is answered as it is. -/
theorem Run.answer_boxResult (r : Except Fault Value) (m : Machine) :
    (Run.boxResult r m).1.answer = some r := by
  cases r <;> rfl

namespace Expr

variable [Host] {K : Machine → Prop} {i : Interpreter} {fuel : Nat} {context : Context} {frame : FrameId}
  {op : BinaryOp} {a b : Expr} {t : StaticType} {pool : Option PoolId} {p : PoolId} {v w : Value}
  {m : Machine}

/-- A split operation answers what the operator makes of the two values. -/
theorem answer_parallel (calm : Calm K (pool.or context.pool) p)
    (first : a.Settles K i fuel context frame v) (second : b.Settles K i fuel context frame w)
    (splittable : op.splittable = true) (start : K m) :
    ((parallel op a b t pool).eval i fuel context frame m).1.answer = some (op.apply v w) := by
  rw [eval_parallel]
  obtain ⟨call, m₁, ended, runs, start₁⟩ := first m start
  obtain ⟨call', m₂, ended', runs', start₂⟩ := second m₁ start₁
  obtain ⟨x, y, m₃, both, rfl, rfl⟩ := calm.operands start₂ runs runs'
  rw [Run.bind_of_value ended, Run.bind_of_value ended', Run.splitBinary, if_pos splittable,
    Run.bind_of_value both]
  exact Run.answer_boxResult _ m₃

/-- An operation that is no connective answers the same one after the other. -/
theorem answer_binary_of_strict (first : (a.eval i fuel context frame).Returns K fun x => x.value = v)
    (second : (b.eval i fuel context frame).Returns K fun y => y.value = w) (other : op ≠ .assign)
    (strict : op.isShortCircuit = false) (start : K m) :
    ((binary op a b t).eval i fuel context frame m).1.answer = some (op.apply v w) := by
  rw [eval_binary_of_strict i fuel context frame other strict]
  obtain ⟨x, m₁, ended, rfl, start₁⟩ := first m start
  obtain ⟨y, m₂, ended', rfl, -⟩ := second m₁ start₁
  rw [Run.bind_of_value ended, Run.bind_of_value ended']
  exact Run.answer_boxResult _ m₂

/-- A plain connective answers what it makes of what counts as true, on any values. -/
theorem answer_binary_of_connective
    (first : (a.eval i fuel context frame).Returns K fun x => x.value = v)
    (second : (b.eval i fuel context frame).Returns K fun y => y.value = w)
    (connective : op.isShortCircuit = true) (start : K m) :
    ((binary op a b t).eval i fuel context frame m).1.answer =
      some (.ok (.scalar (.bool (op.connect v.truthy w.truthy)))) := by
  obtain ⟨x, m₁, ended, rfl, start₁⟩ := first m start
  obtain ⟨y, m₂, ended', rfl, -⟩ := second m₁ start₁
  cases op with
  | andAlso =>
    refine (congrArg (fun r => (Prod.fst r).answer) (Run.bind_of_value ended)).trans ?_
    cases truth : x.value.truthy with
    | true =>
      simp only [if_true]
      rw [Run.bind_of_value ended']
      rfl
    | false => rfl
  | orElse =>
    refine (congrArg (fun r => (Prod.fst r).answer) (Run.bind_of_value ended)).trans ?_
    cases truth : x.value.truthy with
    | true => rfl
    | false =>
      simp only [Bool.false_eq_true, if_false]
      rw [Run.bind_of_value ended']
      rfl
  | _ => cases connective

/-- On two calls that return and disturb nothing, whatever they return, a split operation and the
plain one answer alike, by one value or one fault, exactly if the operation is no connective or its
left value is a scalar. This is so however many slots of the pool are free, and whichever operand of
a split runs first. -/
theorem parallel_agrees_iff (calm : Calm K (pool.or context.pool) p)
    (first : a.Settles K i fuel context frame v) (second : b.Settles K i fuel context frame w)
    (splittable : op.splittable = true) (start : K m) :
    ((parallel op a b t pool).eval i fuel context frame m).1.answer =
        ((binary op a b t).eval i fuel context frame m).1.answer ↔
      (op.isShortCircuit = true → ∃ s, v = .scalar s) := by
  have left := first.eval (first.isCall start)
  have right := second.eval (second.isCall start)
  rw [answer_parallel calm first second splittable start]
  cases connective : op.isShortCircuit with
  | false =>
    have other : op ≠ .assign := by
      rintro rfl
      cases splittable
    rw [answer_binary_of_strict left right other connective start]
    simp
  | true =>
    rw [answer_binary_of_connective left right connective start]
    -- a connective gives a truth value in order, but what its first operand is to the operator in parallel
    constructor
    · intro alike _
      by_contra noScalar
      rw [op.apply_of_noScalar fun s same => noScalar ⟨s, same⟩] at alike
      cases alike
    · intro scalar
      obtain ⟨s, rfl⟩ := scalar rfl
      rw [op.apply_connective connective]

end Expr

/-! ## Two closures that tell whether a number is positive -/

namespace Splitting

/-- The body of `x => x > 0`. -/
def positive : Expr :=
  .binary .greaterThan (.parameter ⟨"x", .value .int32, 1⟩) (Fibonacci.number 0) .bool

/-- The call of the function at the first place on a number. -/
def isPositive (n : Int) : Expr :=
  .invoke (.constant ⟨.closure 0, 0⟩ (.func [.value .int32] .bool)) [Fibonacci.number n] .bool

/-- A machine with a frame, the function `x => x > 0` at the first place, and a pool of eight workers. -/
def machine : Machine :=
  { Machine.initial 1 with
    frames := (Frames.empty.push none []).2
    functions := #[.closure [1] positive 0 .empty]
    pools := #[.new (.int 8)] }

/-- What stays true of that machine. -/
def Keeps (m : Machine) : Prop :=
  0 < m.frames.frames.size ∧ m.functions[0]? = some (.closure [1] positive 0 .empty) ∧
    0 < m.pools.size ∧ (m.pool 0).Ready

theorem keeps_machine : Keeps machine := ⟨by decide, rfl, by decide, 8, 8, rfl, rfl, by decide⟩

theorem calm : Calm Keeps (some 0) 0 where
  resolves := .of_pure rfl
  ready _ start := start.2.2.2
  setPool m q start ready :=
    ⟨start.1, start.2.1, (Calm.of_ready 0).setPool m q start.2.2 ready⟩

/-- A call tells whether the number is positive, and leaves a frame behind. -/
theorem settles_isPositive (n : Int) :
    (isPositive n).Settles Keeps ⟨Run.call 1, Run.applyUnary⟩ 1 .empty 0
      (.scalar (.bool (0 < (Word.wrap ⟨true, .w32⟩ n).toInt))) := by
  intro m start
  refine ⟨.call ⟨.closure 0, 0⟩ [⟨Fibonacci.word n, 0⟩], m, rfl, ?_, start⟩
  rintro m ⟨framed, found, pool⟩
  let argument : Boxed := ⟨Fibonacci.word n, 0⟩
  let answer : Boxed :=
    ⟨.scalar (.bool (0 < (Word.wrap ⟨true, .w32⟩ n).toInt)), m.nextIdentity⟩
  let opened : Machine := { m with frames := (m.frames.push (some 0) [(1, argument)]).2 }
  let ended : Machine := { opened with nextIdentity := m.nextIdentity + 1 }
  have bound : Run.lookup m.frames.frames.size ⟨"x", .value .int32, 1⟩ opened =
      (.value argument, opened) := by
    refine Run.lookup_of_some ((Frames.lookup_push_new framed [(1, argument)] 1).trans ?_)
    simp [Frame.ofBindings, Frame.get?, Frame.set, Frame.bind]
  have compared : positive.eval ⟨Run.call 0, Run.applyUnary⟩ 0 .empty m.frames.frames.size opened =
      (.value answer, ended) := Run.bind_of_value bound
  have returned : Run.sealed (positive.eval ⟨Run.call 0, Run.applyUnary⟩ 0 .empty
      m.frames.frames.size) opened = (.value answer, ended) := Run.sealed_of_value compared
  have called : Run.call 1 ⟨.closure 0, 0⟩ [argument] m = (.value answer, ended) :=
    (Run.call_closure rfl found 0).trans returned
  exact ⟨answer, ended, called, rfl, by simp [ended, opened, Frames.push], found, pool⟩

end Splitting

/-- A split of the conjunction of two calls, one of which tells that its number is not positive, answers
as the plain conjunction does. -/
theorem Expr.parallel_agrees_iff_isPositive :
    ((parallel .andAlso (Splitting.isPositive 3) (Splitting.isPositive (-1)) .bool (some 0)).eval
        ⟨Run.call 1, Run.applyUnary⟩ 1 .empty 0 Splitting.machine).1.answer =
      ((binary .andAlso (Splitting.isPositive 3) (Splitting.isPositive (-1)) .bool).eval
        ⟨Run.call 1, Run.applyUnary⟩ 1 .empty 0 Splitting.machine).1.answer :=
  (parallel_agrees_iff Splitting.calm (Splitting.settles_isPositive 3)
    (Splitting.settles_isPositive (-1)) rfl Splitting.keeps_machine).2 fun _ => ⟨_, rfl⟩

/-- On the truth value of the host, which is no scalar, a split conjunction is refused where the plain
one is true, though both calls return and change nothing but the number of the next box. -/
theorem Expr.parallel_disagrees_hostTruth :
    let call : Expr := .invoke (.constant ⟨.host ⟨some "true", .verum⟩, 0⟩ (.func [] .bool)) [] .bool
    let i : Interpreter := ⟨Run.call 1, Run.applyUnary⟩
    let K : Machine → Prop := fun m => 0 < m.pools.size ∧ (m.pool 0).Ready
    Calm K (some 0) 0 ∧ K Splitting.machine ∧ call.Settles K i 1 .empty 0 (.bool true) ∧
      ((parallel .andAlso call call .bool (some 0)).eval i 1 .empty 0 Splitting.machine).1.answer =
        some (.error (.operator (.notScalar "bool"))) ∧
      ((binary .andAlso call call .bool).eval i 1 .empty 0 Splitting.machine).1.answer =
        some (.ok (.scalar (.bool true))) := by
  refine ⟨.of_ready 0, Splitting.keeps_machine.2.2, fun m start => ?_, rfl, rfl⟩
  refine ⟨.call ⟨.host ⟨some "true", .verum⟩, 0⟩ [], m, rfl, fun m start => ?_, start⟩
  exact ⟨_, _, rfl, rfl, start⟩

end Knot
