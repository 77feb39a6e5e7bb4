import Knot.Pool
import Mathlib.Data.List.Infix

/-!
# Splits that overlap

Any number of callers split operations on one pool, in any order and nested in one another: a run of a pool
is a list of events (`PoolEvent`), each of which tries to begin a split, hands its right operand over, moves
it on, or ends the split, and `PoolRun.run` says what becomes of the pool and of the splits. An event is
possible only where a caller or a worker can be at that point: a worker takes up one task at a time, and
the operand of a split is not done while splits begun in it are in flight.

Each split in flight holds two slots (`PoolRun.Balanced`), so fewer of them are in flight than the pool has
workers, and there is a worker for every task that waits (`PoolRun.slots_of_run`). A run never gets stuck
with a split in flight (`PoolRun.Balanced.progress`).
-/

namespace Knot

/-- Where a split is begun: by one of any number of callers outside of all splits, or in an operand of a
split. The left operand is evaluated where the split was begun, the right one by a worker. -/
inductive SplitSite where
  | outside (n : Nat)
  | left (split : Nat)
  | right (split : Nat)
deriving DecidableEq, Repr

/-- How far a split has come. -/
inductive SplitPhase where
  /-- Its slots are taken. -/
  | reserved
  /-- Its right operand waits for a worker. -/
  | waiting
  /-- Its right operand runs on a worker. -/
  | running
  /-- Its right operand is done. -/
  | done
  /-- Its slots are given back. -/
  | ended
deriving DecidableEq, Repr

/-- Whether the slots of the split are taken. -/
def SplitPhase.inFlight : SplitPhase → Bool
  | ended => false
  | _ => true

/-- Whether the right operand has been handed over and is not done. -/
def SplitPhase.unfinished : SplitPhase → Bool
  | waiting | running => true
  | _ => false

/-- A split, with the place where it was begun. -/
structure PoolSplit where
  site : SplitSite
  phase : SplitPhase
deriving DecidableEq, Repr

/-- What can happen next. Splits are numbered in the order in which they begin. -/
inductive PoolEvent where
  /-- Somebody tries to begin a split, and goes on in turn if there are no slots to spare. -/
  | attempt (site : SplitSite)
  /-- The right operand is handed over. -/
  | submit (split : Nat)
  /-- A worker takes the right operand up. -/
  | start (split : Nat)
  /-- The right operand comes to its end. -/
  | finish (split : Nat)
  /-- The left operand has come to its end and the right one is done, or could not be handed over: the
  slots are given back. -/
  | leave (split : Nat)

/-- A pool and the splits that have begun. -/
structure PoolRun where
  pool : WorkerPool
  splits : List PoolSplit

namespace PoolRun

/-- A new pool. -/
def fresh (workers : Nat) : PoolRun := ⟨.new (.int workers), []⟩

/-- How many splits are in a phase of some kind. -/
def count (s : PoolRun) (kind : SplitPhase → Bool) : Nat := s.splits.countP fun x => kind x.phase

/-- How many splits hold slots. -/
def inFlight (s : PoolRun) : Nat := s.count SplitPhase.inFlight

/-- How many right operands have been handed over and are not done. -/
def unfinished (s : PoolRun) : Nat := s.count SplitPhase.unfinished

/-- How many right operands wait for a worker. -/
def waiting (s : PoolRun) : Nat := s.count (· = .waiting)

/-- How many workers are busy. -/
def running (s : PoolRun) : Nat := s.count (· = .running)

/-- How many threads the pool has. -/
def threads (s : PoolRun) : Nat :=
  match s.pool.workers with
  | .int n => n.toNat
  | _ => 0

/-- The phase of a split. -/
def phase? (s : PoolRun) (i : Nat) : Option SplitPhase := s.splits[i]?.map PoolSplit.phase

/-- Whether something is evaluated there now. The operands of a split are evaluated when the right one has
been handed over, and the right one only while a worker is at it. -/
def active (s : PoolRun) : SplitSite → Bool
  | .outside _ => true
  | .left i => s.phase? i = some .waiting ∨ s.phase? i = some .running ∨ s.phase? i = some .done
  | .right i => s.phase? i = some .running

/-- Whether no split is in flight that was begun there. -/
def quiet (s : PoolRun) (c : SplitSite) : Bool := s.splits.all fun x => !(x.site = c && x.phase.inFlight)

/-- A split enters a phase. -/
def enter (s : PoolRun) (i : Nat) (phase : SplitPhase) (pool : WorkerPool) : PoolRun :=
  ⟨pool, s.splits.modify i fun x => { x with phase := phase }⟩

/-- The next event, if it is possible. -/
def step? (s : PoolRun) : PoolEvent → Option PoolRun
  | .attempt c =>
    if s.active c then
      match s.pool.reserve? WorkerPool.splitSlots with
      | .ok (some q) => some ⟨q.countParallel, s.splits ++ [⟨c, .reserved⟩]⟩
      | .ok none => some ⟨s.pool.countSequential, s.splits⟩
      | .error _ => none
    else none
  | .submit i =>
    if s.phase? i = some .reserved then s.pool.submit.toOption.map (s.enter i .waiting) else none
  | .start i =>
    if s.phase? i = some .waiting ∧ s.running < s.threads then some (s.enter i .running s.pool) else none
  | .finish i =>
    if s.phase? i = some .running ∧ s.quiet (.right i) then some (s.enter i .done s.pool) else none
  | .leave i =>
    if (s.phase? i = some .done ∨ s.phase? i = some .reserved) ∧ s.quiet (.left i) then
      (s.pool.release WorkerPool.splitSlots).toOption.map (s.enter i .ended)
    else none

/-- What a list of events makes of a new pool, if each of them is possible. -/
def run (workers : Nat) (events : List PoolEvent) : Option PoolRun := events.foldlM step? (fresh workers)

/-! ## Counting splits -/

/-- A split that enters a phase counts for that phase, and not for the one before. -/
theorem count_enter {s : PoolRun} {i : Nat} {x : PoolSplit} (found : s.splits[i]? = some x)
    (phase : SplitPhase) (q : WorkerPool) (kind : SplitPhase → Bool) :
    (s.enter i phase q).count kind + (kind x.phase).toNat = s.count kind + (kind phase).toNat := by
  unfold count enter
  simp only
  generalize s.splits = splits at found ⊢
  induction splits generalizing i with
  | nil => cases found
  | cons y rest ih =>
    cases i with
    | zero =>
      cases found
      simp only [List.modify_zero_cons, List.countP_cons]
      cases kind x.phase <;> cases kind phase <;> simp
    | succ i =>
      have later := ih found
      simp only [List.modify_succ_cons, List.countP_cons]
      omega

/-- Right operands that are not done wait or run. -/
theorem unfinished_eq (s : PoolRun) : s.unfinished = s.waiting + s.running := by
  unfold unfinished waiting running count
  induction s.splits with
  | nil => rfl
  | cons x rest ih =>
    simp only [List.countP_cons, ih]
    cases x.phase <;> simp [SplitPhase.unfinished] <;> omega

/-- A split with an operand that is not done holds its slots. -/
theorem unfinished_le_inFlight (s : PoolRun) : s.unfinished ≤ s.inFlight :=
  List.countP_mono_left fun x _ unfinished => by
    revert unfinished
    cases x.phase <;> simp [SplitPhase.unfinished, SplitPhase.inFlight]

/-! ## What an event can do -/

theorem phase?_eq_some {s : PoolRun} {i : Nat} {phase : SplitPhase} :
    s.phase? i = some phase ↔ ∃ c, s.splits[i]? = some ⟨c, phase⟩ := by
  unfold phase?
  rcases s.splits[i]? with - | ⟨c, p⟩ <;> simp

theorem toOption_eq_some {x : Except Fault WorkerPool} {q : WorkerPool} :
    x.toOption = some q ↔ x = .ok q := by
  cases x <;> simp [Except.toOption]

/-- What the end of a phase does to the pool. -/
inductive Moves (p q : WorkerPool) : SplitPhase → SplitPhase → Prop
  | submit (submitted : p.submit = .ok q) : Moves p q .reserved .waiting
  | start (same : q = p) : Moves p q .waiting .running
  | finish (same : q = p) : Moves p q .running .done
  | leave (released : p.release WorkerPool.splitSlots = .ok q) : Moves p q .done .ended
  | abandon (released : p.release WorkerPool.splitSlots = .ok q) : Moves p q .reserved .ended

/-- An event begins a split, or finds that there are no slots to spare, or moves a split on. -/
theorem step?_cases {s s' : PoolRun} {e : PoolEvent} (possible : s.step? e = some s') :
    (∃ c, s.active c = true ∧
      ((∃ q, s.pool.reserve? WorkerPool.splitSlots = .ok (some q) ∧
          s' = ⟨q.countParallel, s.splits ++ [⟨c, .reserved⟩]⟩) ∨
        (s.pool.reserve? WorkerPool.splitSlots = .ok none ∧ s' = ⟨s.pool.countSequential, s.splits⟩))) ∨
      ∃ i c phase phase' q,
        s.splits[i]? = some ⟨c, phase⟩ ∧ Moves s.pool q phase phase' ∧ s' = s.enter i phase' q := by
  cases e with
  | attempt c =>
    simp only [step?, Option.ite_none_right_eq_some] at possible
    obtain ⟨active, possible⟩ := possible
    refine .inl ⟨c, active, ?_⟩
    split at possible
    next q reserved => exact .inl ⟨q, reserved, (Option.some.inj possible).symm⟩
    next refused => exact .inr ⟨refused, (Option.some.inj possible).symm⟩
    next => cases possible
  | submit i =>
    simp only [step?, Option.ite_none_right_eq_some, Option.map_eq_some_iff] at possible
    obtain ⟨phase, q, submitted, rfl⟩ := possible
    obtain ⟨c, found⟩ := phase?_eq_some.1 phase
    exact .inr ⟨i, c, _, _, q, found, .submit (toOption_eq_some.1 submitted), rfl⟩
  | start i =>
    simp only [step?, Option.ite_none_right_eq_some] at possible
    obtain ⟨⟨phase, -⟩, same⟩ := possible
    obtain ⟨c, found⟩ := phase?_eq_some.1 phase
    exact .inr ⟨i, c, _, _, _, found, .start rfl, (Option.some.inj same).symm⟩
  | finish i =>
    simp only [step?, Option.ite_none_right_eq_some] at possible
    obtain ⟨⟨phase, -⟩, same⟩ := possible
    obtain ⟨c, found⟩ := phase?_eq_some.1 phase
    exact .inr ⟨i, c, _, _, _, found, .finish rfl, (Option.some.inj same).symm⟩
  | leave i =>
    simp only [step?, Option.ite_none_right_eq_some, Option.map_eq_some_iff] at possible
    obtain ⟨⟨finished | unsubmitted, -⟩, q, released, rfl⟩ := possible
    · obtain ⟨c, found⟩ := phase?_eq_some.1 finished
      exact .inr ⟨i, c, _, _, q, found, .leave (toOption_eq_some.1 released), rfl⟩
    · obtain ⟨c, found⟩ := phase?_eq_some.1 unsubmitted
      exact .inr ⟨i, c, _, _, q, found, .abandon (toOption_eq_some.1 released), rfl⟩

/-! ## What every run keeps -/

/-- Each split in flight holds two slots, and at least one slot is left. A split that was begun in an
operand came after the split of that operand. -/
structure Balanced (workers : Nat) (s : PoolRun) : Prop where
  size : s.pool.workers = .int workers
  slots : s.pool.available = .int (workers - 2 * s.inFlight)
  spare : 2 * s.inFlight < workers
  nested : ∀ j (x : PoolSplit), s.splits[j]? = some x → ∀ i, x.site = .left i ∨ x.site = .right i → i < j

theorem balanced_fresh {workers : Nat} (some_workers : 1 ≤ workers) : (fresh workers).Balanced workers where
  size := rfl
  slots := by simp [fresh, WorkerPool.new, inFlight, count]
  spare := by
    simp only [inFlight, count, fresh, List.countP_nil]
    omega
  nested j x found := by simp [fresh] at found

/-- What is evaluated in a split is in one that has begun. -/
theorem lt_of_active {s : PoolRun} {c : SplitSite} (active : s.active c = true) (i : Nat)
    (inside : c = .left i ∨ c = .right i) : i < s.splits.length := by
  have begun : ∃ phase, s.phase? i = some phase := by
    rcases inside with rfl | rfl
    · simp only [PoolRun.active, decide_eq_true_eq] at active
      rcases active with phase | phase | phase <;> exact ⟨_, phase⟩
    · exact ⟨_, of_decide_eq_true active⟩
  obtain ⟨phase, here⟩ := begun
  obtain ⟨x, found⟩ := phase?_eq_some.1 here
  exact (List.getElem?_eq_some_iff.1 found).1

/-- Handing a task over takes no slots. -/
theorem submit_keeps {p q : WorkerPool} (submitted : p.submit = .ok q) :
    q.workers = p.workers ∧ q.available = p.available := by
  simp only [WorkerPool.submit, bind, Except.bind, pure, Except.pure] at submitted
  split at submitted
  next => cases submitted
  next =>
    split at submitted
    next => cases submitted
    next =>
      cases submitted
      exact ⟨rfl, rfl⟩

/-- A split that moves on gives two slots back if it is over then. -/
theorem Moves.slots {p q : WorkerPool} {phase phase' : SplitPhase} {n : Int} (moves : Moves p q phase phase')
    (slots : p.available = .int n) :
    q.workers = p.workers ∧
      q.available = .int (n + 2 * phase.inFlight.toNat - 2 * phase'.inFlight.toNat) := by
  cases moves with
  | submit submitted =>
    obtain ⟨size, same⟩ := submit_keeps submitted
    exact ⟨size, by simp [same, slots, SplitPhase.inFlight]⟩
  | start same | finish same => exact ⟨same ▸ rfl, by simp [same, slots, SplitPhase.inFlight]⟩
  | leave released | abandon released =>
    rw [WorkerPool.splitSlots, WorkerPool.release_int slots] at released
    cases released
    exact ⟨rfl, by simp [SplitPhase.inFlight]⟩

namespace Balanced

variable {workers : Nat} {s : PoolRun}

/-- An attempt takes place if two slots and one more are free. -/
theorem reserve? (h : s.Balanced workers) :
    s.pool.reserve? WorkerPool.splitSlots =
      .ok (if 2 < (workers : Int) - 2 * s.inFlight then
        some { s.pool with available := .int (workers - 2 * s.inFlight - 2) } else none) :=
  WorkerPool.reserve?_int h.slots 2

/-- A split that begins takes two slots. -/
theorem attempt (h : s.Balanced workers) {c : SplitSite} (active : s.active c = true) {q : WorkerPool}
    (reserved : s.pool.reserve? WorkerPool.splitSlots = .ok (some q)) :
    Balanced workers ⟨q.countParallel, s.splits ++ [⟨c, .reserved⟩]⟩ := by
  rw [h.reserve?] at reserved
  have more : inFlight ⟨q.countParallel, s.splits ++ [⟨c, .reserved⟩]⟩ = s.inFlight + 1 := by
    simp [inFlight, count, List.countP_append, SplitPhase.inFlight]
  split at reserved
  next enough =>
    cases reserved
    refine ⟨h.size, ?_, ?_, fun j x found i inside => ?_⟩
    · rw [more]
      -- The slots are whole numbers and the splits are counted in natural ones.
      refine congrArg Value.int ?_
      push_cast
      omega
    · omega
    · -- The new split comes after all those that have begun, the one it was begun in among them.
      rw [List.getElem?_append] at found
      split at found
      next => exact h.nested j x found i inside
      next new =>
        have last := (List.getElem?_eq_some_iff.1 found).1
        obtain rfl : x = ⟨c, .reserved⟩ := List.mem_singleton.1 (List.mem_of_getElem? found)
        have begun := lt_of_active active i inside
        omega
  next => cases reserved

/-- A split that moves on keeps its slots until it is over, and gives them back then. -/
theorem enter (h : s.Balanced workers) {i : Nat} {c : SplitSite} {phase phase' : SplitPhase} {q : WorkerPool}
    (found : s.splits[i]? = some ⟨c, phase⟩) (moves : Moves s.pool q phase phase') :
    (s.enter i phase' q).Balanced workers := by
  have counted : (s.enter i phase' q).inFlight + phase.inFlight.toNat = s.inFlight + phase'.inFlight.toNat :=
    count_enter found phase' q SplitPhase.inFlight
  have fewer : phase'.inFlight.toNat ≤ phase.inFlight.toNat := by cases moves <;> decide
  obtain ⟨size, slots⟩ := moves.slots h.slots
  have spare := h.spare
  refine ⟨size.trans h.size, slots.trans (congrArg Value.int (by omega)), by omega, fun j x there => ?_⟩
  simp only [PoolRun.enter, List.getElem?_modify] at there
  obtain ⟨y, old, rfl⟩ := Option.map_eq_some_iff.1 there
  split <;> exact h.nested j y old

/-- An event keeps the balance. -/
theorem step (h : s.Balanced workers) {s' : PoolRun} {e : PoolEvent} (possible : s.step? e = some s') :
    s'.Balanced workers := by
  rcases step?_cases possible with
    ⟨c, active, ⟨q, reserved, rfl⟩ | ⟨-, rfl⟩⟩ | ⟨i, c, _, _, q, found, moves, rfl⟩
  · exact h.attempt active reserved
  · exact ⟨h.size, h.slots, h.spare, h.nested⟩
  · exact h.enter found moves

/-- So does a list of events. -/
theorem steps (h : s.Balanced workers) {s' : PoolRun} {events : List PoolEvent}
    (later : events.foldlM step? s = some s') : s'.Balanced workers := by
  induction events generalizing s with
  | nil => exact Option.some.inj later ▸ h
  | cons e events ih =>
    rw [List.foldlM_cons] at later
    obtain ⟨next, possible, rest⟩ := Option.bind_eq_some_iff.1 later
    exact ih (h.step possible) rest

end Balanced

/-- A run keeps the balance. -/
theorem balanced_run {workers : Nat} (some_workers : 1 ≤ workers) {events : List PoolEvent} {s : PoolRun}
    (reached : run workers events = some s) : s.Balanced workers :=
  (balanced_fresh some_workers).steps reached


/-! ## No run gets stuck -/

/-- If a list has elements of some kind, there is a last one. -/
theorem exists_last {kind : PoolSplit → Bool} {splits : List PoolSplit} (some_kind : 0 < splits.countP kind) :
    ∃ (j : Nat) (x : PoolSplit), splits[j]? = some x ∧ kind x = true ∧
      ∀ (k : Nat) (y : PoolSplit), splits[k]? = some y → j < k → kind y = false := by
  induction splits with
  | nil => exact absurd some_kind (Nat.lt_irrefl 0)
  | cons x rest ih =>
    -- The last one is the last one of the rest, unless the rest has none.
    by_cases later : 0 < rest.countP kind
    · obtain ⟨j, y, found, here, last⟩ := ih later
      refine ⟨j + 1, y, found, here, fun k z there after => ?_⟩
      cases k with
      | zero => omega
      | succ k => exact last k z there (by omega)
    · refine ⟨0, x, rfl, ?_, fun k z there after => ?_⟩
      · by_contra other
        rw [List.countP_cons_of_neg other] at some_kind
        exact later some_kind
      · cases k with
        | zero => omega
        | succ k =>
          have none_later :=
            List.countP_eq_zero.1 (Nat.eq_zero_of_not_pos later) z (List.mem_of_getElem? there)
          simpa using none_later

namespace Balanced

variable {workers : Nat} {s : PoolRun}

/-- For each task that waits there is a worker that is not busy. -/
theorem waiting_le (h : s.Balanced workers) : s.threads = workers ∧ s.waiting + s.running < workers := by
  have all := unfinished_eq s
  have few := unfinished_le_inFlight s
  have spare := h.spare
  refine ⟨?_, by omega⟩
  rw [threads, h.size]
  rfl

/-- A task that waits can be taken up. -/
theorem start (h : s.Balanced workers) {i : Nat} (waits : s.phase? i = some .waiting) :
    s.step? (.start i) = some (s.enter i .running s.pool) := by
  obtain ⟨threads, few⟩ := h.waiting_le
  exact if_pos ⟨waits, by omega⟩

/-- No split is in flight in an operand of the last split that is in flight. -/
theorem quiet_of_last (h : s.Balanced workers) {j : Nat}
    (last : ∀ k y, s.splits[k]? = some y → j < k → y.phase.inFlight = false) {c : SplitSite}
    (inside : c = .left j ∨ c = .right j) : s.quiet c = true := by
  refine List.all_eq_true.2 fun x member => ?_
  obtain ⟨k, found⟩ := List.mem_iff_getElem?.1 member
  by_cases own : x.site = c
  · have ended := last k x found (h.nested k x found j (own ▸ inside))
    simp [ended]
  · simp [own]

/-- While a split is in flight, something else is possible than to begin another one. -/
theorem progress (h : s.Balanced workers) (busy : 0 < s.inFlight) :
    ∃ e, (s.step? e).isSome = true ∧ ∀ c, e ≠ .attempt c := by
  -- Splits in the operands of a split come after it, so nothing holds up the last one that is in flight.
  obtain ⟨j, ⟨c, phase⟩, found, inFlight, last⟩ := exists_last busy
  have here : s.phase? j = some phase := phase?_eq_some.2 ⟨c, found⟩
  have released := WorkerPool.release_int h.slots 2
  have leaves (ended : s.phase? j = some .done ∨ s.phase? j = some .reserved) :
      (s.step? (.leave j)).isSome = true := by
    simp only [step?, WorkerPool.splitSlots, released]
    rw [if_pos ⟨ended, h.quiet_of_last last (.inl rfl)⟩]
    rfl
  cases phase with
  | reserved => exact ⟨.leave j, leaves (.inr here), nofun⟩
  | waiting => exact ⟨.start j, by rw [h.start here]; rfl, nofun⟩
  | running =>
    have finishes : s.step? (.finish j) = some (s.enter j .done s.pool) :=
      if_pos ⟨here, h.quiet_of_last last (.inr rfl)⟩
    exact ⟨.finish j, by rw [finishes]; rfl, nofun⟩
  | done => exact ⟨.leave j, leaves (.inl here), nofun⟩
  | ended => cases inFlight

end Balanced

/-! ## The slots of a pool -/

/-- At every point of every run on a pool of one worker or more, the slots that are free and two for each
split in flight make up the workers, and at least one slot is free. So the splits in flight are less than
half as many as the workers; the right operands that have been handed over and are not done are no more than
they, and fewer than the workers, and each of them that waits finds a worker that is not busy. An attempt to
begin a split succeeds exactly if more than two slots are free. -/
theorem slots_of_run {workers : Nat} (some_workers : 1 ≤ workers) {events : List PoolEvent} {s : PoolRun}
    (reached : run workers events = some s) :
    ∃ free : Int, s.pool.available = .int free ∧ free + 2 * s.inFlight = workers ∧ 1 ≤ free ∧
      s.inFlight ≤ (workers - 1) / 2 ∧ s.unfinished ≤ s.inFlight ∧ s.unfinished < workers ∧
      s.threads = workers ∧ s.waiting ≤ s.threads - s.running ∧
      (∀ i, s.phase? i = some .waiting → s.step? (.start i) = some (s.enter i .running s.pool)) ∧
      ∀ c, s.active c = true → ∃ s', s.step? (.attempt c) = some s' ∧
        s'.splits = if 2 < free then s.splits ++ [⟨c, .reserved⟩] else s.splits := by
  have h := balanced_run some_workers reached
  have spare := h.spare
  have few := unfinished_le_inFlight s
  obtain ⟨threads, free_workers⟩ := h.waiting_le
  refine ⟨workers - 2 * s.inFlight, h.slots, by omega, by omega, by omega, few, by omega, threads, by omega,
    fun i waits => h.start waits, fun c active => ?_⟩
  simp only [step?, active, if_true, h.reserve?]
  by_cases enough : (2 : Int) < workers - 2 * s.inFlight
  · simp [enough]
  · simp [enough]

/-- Five workers: a split, another one in its right operand, and a caller who finds no slots to spare. -/
def crowded : List PoolEvent :=
  [.attempt (.outside 1), .submit 0, .start 0, .attempt (.right 0), .attempt (.outside 2), .submit 1]

/-- There is a worker for the right operand of the inner split. -/
theorem slots_of_run_crowded :
    ∃ s, run 5 crowded = some s ∧ s.pool.available = .int 1 ∧ s.inFlight = 2 ∧ s.unfinished = 2 ∧
      s.step? (.start 1) = some (s.enter 1 .running s.pool) ∧
      ∃ s', s.step? (.attempt (.left 1)) = some s' ∧ s'.splits = s.splits := by
  obtain ⟨s, reached⟩ : ∃ s, run 5 crowded = some s := ⟨_, rfl⟩
  obtain ⟨free, slots, -, -, -, -, -, -, -, starts, attempts⟩ := slots_of_run (by decide) reached
  cases reached
  cases slots
  obtain ⟨s', attempted, none_more⟩ := attempts (.left 1) rfl
  exact ⟨_, rfl, rfl, rfl, rfl, starts 1 rfl, s', attempted, none_more⟩

end PoolRun

end Knot
