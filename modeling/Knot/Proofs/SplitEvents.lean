import Knot.Proofs.Accounts
import Knot.Proofs.Slots

/-!
# Split operations as events

What thunks do to a pool is a list of events (`Thunk.traced`), so that what every run of a pool keeps
(`PoolRun.Balanced`) is kept while split operations are evaluated. A split operation tries to begin a split
at the place where it is evaluated. If that succeeds, its right operand is handed over, and is taken up and
done with either after the left operand or before it; then the slots are given back. The splits that have
been begun in the operands are over by that time (`Run.Traced.splitBinary`). From a new pool, what comes of
a thunk is what comes of a run of the pool (`Thunk.exists_run`).
-/

namespace Knot

namespace PoolRun

variable {s s' s'' : PoolRun} {workers : Nat} {c d : SplitSite} {q q' : WorkerPool} {later : List PoolSplit}

/-! ## Events that lead from one run to another -/

/-- Some events lead from one run to another. -/
def Leads (s s' : PoolRun) : Prop := ∃ events : List PoolEvent, events.foldlM step? s = some s'

theorem Leads.refl (s : PoolRun) : s.Leads s := ⟨[], rfl⟩

theorem Leads.trans (h : s.Leads s') (h' : s'.Leads s'') : s.Leads s'' := by
  obtain ⟨first, reached⟩ := h
  obtain ⟨second, reached'⟩ := h'
  refine ⟨first ++ second, ?_⟩
  rw [List.foldlM_append, reached]
  exact reached'

theorem Leads.of_step {e : PoolEvent} (possible : s.step? e = some s') : s.Leads s' :=
  ⟨[e], by simp [possible]⟩

theorem Leads.balanced (h : s.Leads s') (balanced : s.Balanced workers) : s'.Balanced workers := by
  obtain ⟨events, reached⟩ := h
  exact balanced.steps reached

/-- Events lead to a run with that pool, in which all splits that have been begun meanwhile are over and the
other ones are as they were. -/
def Leaves (s : PoolRun) (q : WorkerPool) : Prop :=
  ∃ later, (∀ x ∈ later, x.phase = .ended) ∧ s.Leads ⟨q, s.splits ++ later⟩

theorem Leaves.of_pool (s : PoolRun) : s.Leaves s.pool := by
  refine ⟨[], by simp, ?_⟩
  rw [List.append_nil]
  exact .refl s

/-- What is evaluated somewhere still is when more splits have begun. -/
theorem active_append (here : s.active c = true) (q : WorkerPool) (later : List PoolSplit) :
    active ⟨q, s.splits ++ later⟩ c = true := by
  have still (i : Nat) (phase : SplitPhase) (known : s.phase? i = some phase) :
      phase? ⟨q, s.splits ++ later⟩ i = some phase := by
    obtain ⟨d, found⟩ := phase?_eq_some.1 known
    have inside := (List.getElem?_eq_some_iff.1 found).1
    exact phase?_eq_some.2 ⟨d, by rw [List.getElem?_append_left inside, found]⟩
  cases c with
  | outside n => rfl
  | left i =>
    simp only [active, decide_eq_true_eq] at here ⊢
    exact here.imp (still i _) (Or.imp (still i _) (still i _))
  | right i =>
    simp only [active, decide_eq_true_eq] at here ⊢
    exact still i _ here

/-- One thing after another. -/
theorem Leads.leaves (h : s.Leads ⟨q, s.splits ++ later⟩) (past : ∀ x ∈ later, x.phase = .ended)
    (next : Leaves ⟨q, s.splits ++ later⟩ q') : s.Leaves q' := by
  obtain ⟨more, past', leads⟩ := next
  refine ⟨later ++ more, List.forall_mem_append.2 ⟨past, past'⟩, h.trans ?_⟩
  rw [← List.append_assoc]
  exact leads

/-! ## Inside of a split -/

/-- A split has begun, and the splits that have been begun since are known. -/
def within (s : PoolRun) (c : SplitSite) (phase : SplitPhase) (q : WorkerPool) (later : List PoolSplit) :
    PoolRun :=
  ⟨q, s.splits ++ ⟨c, phase⟩ :: later⟩

theorem phase?_within (phase : SplitPhase) :
    (s.within c phase q later).phase? s.splits.length = some phase := by
  simp [phase?, within]

theorem enter_within (phase phase' : SplitPhase) :
    (s.within c phase q later).enter s.splits.length phase' q' = s.within c phase' q' later :=
  congrArg (PoolRun.mk q') (List.modifyTailIdx_add _ 0 s.splits _)

/-- When the splits that were begun in an operand of a split are over, none is in flight there. -/
theorem quiet_within {phase : SplitPhase} (h : (s.within c phase q later).Balanced workers)
    (past : ∀ x ∈ later, x.phase = .ended) (inside : d = .left s.splits.length ∨ d = .right s.splits.length) :
    (s.within c phase q later).quiet d = true := by
  refine h.quiet_of_last (fun k y found after => ?_) inside
  obtain ⟨n, rfl⟩ : ∃ n, k = s.splits.length + (n + 1) := ⟨k - s.splits.length - 1, by omega⟩
  have member : later[n]? = some y := by
    rw [← found, within, List.getElem?_append_right (Nat.le_add_right _ _), Nat.add_sub_cancel_left]
    rfl
  rw [past y (List.mem_of_getElem? member)]
  rfl

/-- A worker takes the right operand up. -/
theorem Balanced.starts (h : (s.within c .waiting q later).Balanced workers) :
    (s.within c .waiting q later).Leads (s.within c .running q later) := by
  refine .of_step ((h.start (phase?_within .waiting)).trans ?_)
  rw [enter_within]
  rfl

/-- The right operand comes to its end. -/
theorem Balanced.finishes (h : (s.within c .running q later).Balanced workers)
    (past : ∀ x ∈ later, x.phase = .ended) :
    (s.within c .running q later).Leads (s.within c .done q later) := by
  refine .of_step (e := .finish s.splits.length) ?_
  rw [step?, if_pos ⟨phase?_within .running, quiet_within h past (.inr rfl)⟩, enter_within]
  rfl

/-- The slots are given back. -/
theorem Balanced.leaves (h : (s.within c .done q later).Balanced workers)
    (past : ∀ x ∈ later, x.phase = .ended) {free : Int} (slots : q.available = .int free) :
    s.within c .done q later |>.Leads (s.within c .ended { q with available := .int (free + 2) } later) := by
  have released := WorkerPool.release_int slots 2
  refine .of_step (e := .leave s.splits.length) ?_
  rw [step?, if_pos ⟨.inl (phase?_within .done), quiet_within h past (.inl rfl)⟩]
  show ((q.release (.int 2)).toOption.map _) = _
  rw [released, ← enter_within .done .ended]
  rfl

/-- An attempt that succeeds, and the task that is handed over then. -/
theorem Balanced.begins (h : s.Balanced workers) (active : s.active c = true) {free : Int}
    (slots : s.pool.available = .int free) (spare : 2 < free) :
    s.Leads (s.within c .waiting (s.pool.begun free) []) := by
  let taken : WorkerPool := { s.pool with available := .int (free - 2) }
  have reserved : s.step? (.attempt c) = some (s.within c .reserved taken.countParallel []) := by
    rw [step?, if_pos active, WorkerPool.splitSlots, WorkerPool.reserve?_int slots, if_pos spare]
    rfl
  refine (Leads.of_step reserved).trans (.of_step (e := .submit s.splits.length) ?_)
  have some_workers := h.spare
  have submitted := WorkerPool.submit_int (p := taken.countParallel) h.size (by omega)
  rw [step?, if_pos (phase?_within .reserved), ← enter_within .reserved .waiting]
  show ((taken.countParallel.submit).toOption.map _) = _
  rw [submitted]
  rfl

/-- An attempt that does not succeed. -/
theorem Leaves.of_scarce (active : s.active c = true) {free : Int} (slots : s.pool.available = .int free)
    (scarce : ¬ 2 < free) : s.Leaves s.pool.countSequential := by
  refine ⟨[], by simp, .of_step (e := .attempt c) ?_⟩
  rw [step?, if_pos active, WorkerPool.splitSlots, WorkerPool.reserve?_int slots, if_neg scarce,
    List.append_nil]

end PoolRun

/-- A pool of which splits hold slots can take part in split operations. -/
theorem PoolRun.Balanced.ready {workers : Nat} {s : PoolRun} (h : s.Balanced workers) : s.pool.Ready := by
  have some_workers := h.spare
  exact ⟨_, _, h.slots, h.size, fun _ => by omega⟩

/-! ## Runs as events -/

/-- Wherever the run is evaluated, events do to the pool `p` what it does. -/
def Run.Traced (p : PoolId) (I : Machine → Prop) (x : Run Boxed) : Prop :=
  ∀ ⦃m workers s c⦄, I m → m.pools[p]? = some s.pool → PoolRun.Balanced workers s → s.active c = true →
    ∃ q, (x m).2.pools[p]? = some q ∧ s.Leaves q

/-- The run keeps the accounts of the pool, and it is a list of events for that. -/
structure Run.Recorded (p : PoolId) (I : Machine → Prop) (x : Run Boxed) (v : Except Fault Value)
    (J : Machine → Prop) (operations : Machine → Nat) : Prop where
  accounts : x.Accounts p I v J operations
  traced : x.Traced p I

section

variable {p : PoolId} {I J J₁ J₂ : Machine → Prop} {x l r : Run Boxed} {v w : Except Fault Value}
  {a b : Machine → Nat} {m : Machine} {s : PoolRun} {c : SplitSite} {q : WorkerPool} {workers : Nat}

/-- A run in an operand of a split. -/
theorem Run.Traced.inside (h : x.Traced p I) {phase : SplitPhase} {later : List PoolSplit} {d : SplitSite}
    (start : I m) (there : m.pools[p]? = some q) (balanced : (s.within c phase q later).Balanced workers)
    (past : ∀ x ∈ later, x.phase = .ended) (active : (s.within c phase q later).active d = true) :
    ∃ q' later', (x m).2.pools[p]? = some q' ∧ (∀ x ∈ later', x.phase = .ended) ∧
      (s.within c phase q later).Leads (s.within c phase q' later') := by
  obtain ⟨q', there', more, past', leads⟩ := h start there balanced active
  refine ⟨q', later ++ more, there', List.forall_mem_append.2 ⟨past, past'⟩, ?_⟩
  simpa [PoolRun.within] using leads

/-- The two operands of a split, in either order. -/
theorem Run.Recorded.both (left : l.Recorded p I v J₁ a) (rightAfter : r.Recorded p J₁ w J b)
    (right : r.Recorded p I w J₂ b) (leftAfter : l.Recorded p J₂ v J a) (start : I m)
    (there : m.pools[p]? = some q) (balanced : (s.within c .waiting q []).Balanced workers)
    (rightFirst : Bool) :
    ∃ q' later, (Run.both rightFirst l r m).2.pools[p]? = some q' ∧ (∀ x ∈ later, x.phase = .ended) ∧
      (s.within c .waiting q []).Leads (s.within c .done q' later) := by
  have phase {phase : SplitPhase} {q : WorkerPool} {later : List PoolSplit} :
      (s.within c phase q later).phase? s.splits.length = some phase := PoolRun.phase?_within phase
  cases rightFirst with
  | true =>
    -- The left operand is evaluated where the right one is done and the slots are not yet given back.
    have started := balanced.starts
    have balanced₁ := started.balanced balanced
    obtain ⟨answer, still, -⟩ := right.accounts start there balanced.ready
    obtain ⟨q₁, later₁, there₁, past₁, leads₁⟩ := right.traced.inside start there balanced₁ (by simp)
      (d := .right s.splits.length) (by simp [PoolRun.active, phase])
    have balanced₂ := leads₁.balanced balanced₁
    have finished := balanced₂.finishes past₁
    obtain ⟨q₂, later₂, there₂, past₂, leads₂⟩ := leftAfter.traced.inside still there₁
      (finished.balanced balanced₂) past₁ (d := .left s.splits.length) (by simp [PoolRun.active, phase])
    rw [Run.both_rightFirst answer]
    exact ⟨q₂, later₂, there₂, past₂, started.trans (leads₁.trans (finished.trans leads₂))⟩
  | false =>
    -- The left operand is evaluated while the right one waits for a worker.
    obtain ⟨answer, still, -⟩ := left.accounts start there balanced.ready
    obtain ⟨q₁, later₁, there₁, past₁, leads₁⟩ := left.traced.inside start there balanced (by simp)
      (d := .left s.splits.length) (by simp [PoolRun.active, phase])
    have balanced₁ := leads₁.balanced balanced
    have started := balanced₁.starts
    have balanced₂ := started.balanced balanced₁
    obtain ⟨q₂, later₂, there₂, past₂, leads₂⟩ := rightAfter.traced.inside still there₁ balanced₂ past₁
      (d := .right s.splits.length) (by simp [PoolRun.active, phase])
    have finished := (leads₂.balanced balanced₂).finishes past₂
    rw [Run.both_leftFirst answer]
    exact ⟨q₂, later₂, there₂, past₂, leads₁.trans (started.trans (leads₂.trans finished))⟩

/-- A run after something else. -/
theorem Run.Traced.next (h : x.Traced p I) (before : s.Leaves q) (balanced : s.Balanced workers)
    (active : s.active c = true) (start : I m) (there : m.pools[p]? = some q) :
    ∃ q', (x m).2.pools[p]? = some q' ∧ s.Leaves q' := by
  obtain ⟨later, past, leads⟩ := before
  obtain ⟨q', there', after⟩ := h (s := ⟨q, s.splits ++ later⟩) start there (leads.balanced balanced)
    (PoolRun.active_append active q later)
  exact ⟨q', there', leads.leaves past after⟩

/-- The two operands of an operation in turn. -/
theorem Run.Recorded.inTurn (left : l.Recorded p I v J₁ a) (rightAfter : r.Recorded p J₁ w J b)
    (before : s.Leaves q) (balanced : s.Balanced workers) (active : s.active c = true) (start : I m)
    (there : m.pools[p]? = some q) (ready : q.Ready) :
    ∃ q', (Run.bind l (fun x => Run.bind r fun y => Run.pure (x, y)) m).2.pools[p]? = some q' ∧
      s.Leaves q' := by
  obtain ⟨answer, still, -⟩ := left.accounts start there ready
  obtain ⟨q₁, there₁, after⟩ := left.traced.next before balanced active start there
  unfold Run.bind
  rcases ended : l m with ⟨o, m₁⟩
  rw [ended] at answer still there₁
  cases o with
  | value x =>
    obtain ⟨q₂, there₂, after'⟩ := rightAfter.traced.next after balanced active still there₁
    refine ⟨q₂, ?_, after'⟩
    rw [← there₂]
    rcases ended' : r m₁ with ⟨o', m₂⟩
    cases o' <;> simp [ended', Run.pure]
  | fault e =>
    -- The right operand is not evaluated.
    exact ⟨q₁, there₁, after⟩
  | _ => cases answer

/-- The operands of a split operation. -/
theorem Run.Recorded.operands {named : Option PoolId}
    (resolves : ∀ m, I m → Run.resolvePool named m = (.value p, m)) (unaware : Machine.Unaware p I)
    (left : l.Recorded p I v J₁ a) (rightAfter : r.Recorded p J₁ w J b) (right : r.Recorded p I w J₂ b)
    (leftAfter : l.Recorded p J₂ v J a) (start : I m) (there : m.pools[p]? = some s.pool)
    (balanced : s.Balanced workers) (active : s.active c = true) :
    ∃ q, (Run.operands named l r m).2.pools[p]? = some q ∧ s.Leaves q := by
  have there' {q : WorkerPool} : (m.setPool p q).pools[p]? = some q := Machine.getElem?_setPool there
  by_cases spare : 2 < (workers : Int) - 2 * s.inFlight
  · have some_workers : 0 < (workers : Int) := by omega
    have begun := balanced.begins active balanced.slots spare
    have balanced₁ := begun.balanced balanced
    have start₁ := unaware.setPool m (s.pool.begun (workers - 2 * s.inFlight)) start
    obtain ⟨q, later, there₂, past, leads⟩ := left.both rightAfter right leftAfter start₁ there' balanced₁
      (s.pool.rightFirst s.pool.stats.parallel)
    have ends := (left.accounts.both rightAfter.accounts right.accounts leftAfter.accounts start₁ there'
      balanced₁.ready (s.pool.rightFirst s.pool.stats.parallel)).1.ne_exhausted
    -- All that has been begun since the split is over, so that it can give its slots back.
    have balanced₂ := leads.balanced balanced₁
    have leaves := balanced₂.leaves past balanced₂.slots
    rw [Run.operands_of_spare there (resolves m start) balanced.slots balanced.size spare some_workers,
      Run.releasing_of_slots ends there₂ balanced₂.slots]
    exact ⟨_, Machine.getElem?_setPool there₂, ⟨c, .ended⟩ :: later, List.forall_mem_cons.2 ⟨rfl, past⟩,
      begun.trans (leads.trans leaves)⟩
  · rw [Run.operands_of_scarce there (resolves m start) balanced.slots spare]
    have ready : s.pool.countSequential.Ready := balanced.ready
    exact left.inTurn rightAfter (.of_scarce active balanced.slots spare) balanced active
      (unaware.setPool m _ start) there' ready

/-- A split operation is a list of events. -/
theorem Run.Traced.splitBinary {op : BinaryOp} (splittable : op.splittable = true) {named : Option PoolId}
    (resolves : ∀ m, I m → Run.resolvePool named m = (.value p, m)) (unaware : Machine.Unaware p I)
    (unaware' : Machine.Unaware p J)
    (left : l.Recorded p I v J₁ a) (rightAfter : r.Recorded p J₁ w J b) (right : r.Recorded p I w J₂ b)
    (leftAfter : l.Recorded p J₂ v J a) (failed : ∀ e, v = .error e → ∀ m, J₁ m → J m) :
    (Run.splitBinary op l r named).Traced p I := by
  intro m workers s c start there balanced active
  obtain ⟨q, there', leaves⟩ :=
    Run.Recorded.operands resolves unaware left rightAfter right leftAfter start there balanced active
  have pairs := (Run.Accounts.operands resolves unaware unaware' left.accounts rightAfter.accounts
    right.accounts leftAfter.accounts failed start there balanced.ready).1
  refine ⟨q, ?_, leaves⟩
  rw [Run.splitBinary, if_pos splittable]
  -- The result is boxed or there is none, which makes no difference to the pools.
  obtain ⟨-, same | boxed⟩ := Run.answer_combined op pairs
  · exact same ▸ there'
  · exact boxed ▸ there'

/-- Thunks are lists of events. -/
theorem Thunk.traced (h : Thunk p I x v J a) : x.Traced p I := by
  induction h with
  | work ends =>
    intro m workers s c start there _ _
    exact ⟨s.pool, (ends m start).2.2.trans there, .of_pool s⟩
  | operation splittable resolves unaware unaware' left rightAfter right leftAfter failed l r r' l' =>
    exact .splitBinary splittable resolves unaware unaware' ⟨left.accounts, l⟩ ⟨rightAfter.accounts, r⟩
      ⟨right.accounts, r'⟩ ⟨leftAfter.accounts, l'⟩ failed
  | andThen first _ tracedFirst tracedSecond =>
    intro m workers s c start there balanced active
    obtain ⟨answer, still, -⟩ := first.accounts start there balanced.ready
    obtain ⟨q, there', leaves⟩ := tracedFirst start there balanced active
    exact (tracedSecond _ answer).next leaves balanced active still there'
  | consequence before _ _ traced =>
    intro m workers s c start
    exact traced m start (before m start)

/-- What a thunk makes of a new pool is what a run of the pool makes of it, in which all splits are over in
the end. -/
theorem Thunk.exists_run (h : Thunk p I x v J a) (start : I m) (some_workers : 1 ≤ workers)
    (there : m.pools[p]? = some (.new (.int workers))) :
    ∃ events s, PoolRun.run workers events = some s ∧ (x m).2.pools[p]? = some s.pool ∧ s.inFlight = 0 := by
  have balanced := PoolRun.balanced_fresh some_workers
  obtain ⟨q, there', later, past, events, reached⟩ :=
    h.traced (s := .fresh workers) (c := .outside 0) start there balanced rfl
  refine ⟨events, _, reached, there', List.countP_eq_zero.2 fun x member => ?_⟩
  rw [past x member]
  exact Bool.false_ne_true

end

end Knot
