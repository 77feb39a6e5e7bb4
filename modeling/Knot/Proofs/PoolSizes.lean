import Knot.Machine
import Knot.Proofs.Builders

/-!
# Sizes of worker pools

A pool has the size that it was made with. What is evaluated takes slots of pools and gives them back, and makes
the default pool where one is needed and there is none, of the size that the settings say at that time
(`Machine.KeepsPools`).
-/

namespace Knot

namespace WorkerPool

variable {p q : WorkerPool}

/-- Taking slots does not change the size of a pool. -/
theorem workers_of_reserve? {slots : Value} (taken : p.reserve? slots = .ok (some q)) :
    q.workers = p.workers := by
  unfold reserve? at taken
  obtain ⟨spare, -, taken⟩ := Except.bind_eq_ok.1 taken
  cases spare with
  | false => cases taken
  | true =>
    obtain ⟨rest, -, taken⟩ := Except.bind_eq_ok.1 taken
    cases taken
    rfl

/-- Nor does giving slots back. -/
theorem workers_of_release {slots : Value} (given : p.release slots = .ok q) :
    q.workers = p.workers := by
  unfold release at given
  cases sum : p.available.plus slots with
  | error f =>
    rw [sum] at given
    cases given
  | ok n =>
    rw [sum] at given
    cases given
    rfl

/-- Nor does handing over a task. -/
theorem workers_of_submit (handed : p.submit = .ok q) : q.workers = p.workers := by
  unfold submit at handed
  obtain ⟨refused, -, handed⟩ := Except.bind_eq_ok.1 handed
  cases refused <;> cases handed
  rfl

end WorkerPool

/-- The settings are the same, every pool has the size that it had, and so has the default pool, if there was
one. A new default pool has the size that the settings say. -/
structure Machine.KeepsPools (m m' : Machine) : Prop where
  settings : m'.settings = m.settings
  processors : m'.processors = m.processors
  size : m.pools.size ≤ m'.pools.size
  workers : ∀ p, p < m.pools.size → (m'.pool p).workers = (m.pool p).workers
  default : m'.defaultPool = m.defaultPool ∨ m.defaultPool = none ∧
    ∃ p, m'.defaultPool = some p ∧ p < m'.pools.size ∧
      (m'.pool p).workers = m.settings.resolvedWorkers m.processors

namespace Machine.KeepsPools

variable {m m' m'' : Machine}

/-- Only settings and pools count. -/
theorem of_eq (settings : m'.settings = m.settings) (processors : m'.processors = m.processors)
    (pools : m'.pools = m.pools) (default : m'.defaultPool = m.defaultPool) : m.KeepsPools m' := by
  refine ⟨settings, processors, Nat.le_of_eq (congrArg Array.size pools.symm), fun p _ => ?_,
    .inl default⟩
  unfold Machine.pool
  rw [pools]

theorem refl (m : Machine) : m.KeepsPools m := of_eq rfl rfl rfl rfl

theorem trans (first : m.KeepsPools m') (second : m'.KeepsPools m'') : m.KeepsPools m'' where
  settings := second.settings.trans first.settings
  processors := second.processors.trans first.processors
  size := Nat.le_trans first.size second.size
  workers p inside :=
    (second.workers p (Nat.lt_of_lt_of_le inside first.size)).trans (first.workers p inside)
  default := by
    -- the default pool is made at most once, and then with the size that the settings have all along
    rcases second.default with same | ⟨none, p, made, inside, workers⟩
    · rcases first.default with same' | ⟨none, p, made, inside, workers⟩
      · exact .inl (same.trans same')
      · exact .inr ⟨none, p, same.trans made, Nat.lt_of_lt_of_le inside second.size,
          (second.workers p inside).trans workers⟩
    · rcases first.default with same' | ⟨-, q, made', -⟩
      · refine .inr ⟨same'.symm.trans none, p, made, inside, ?_⟩
        rw [workers, first.settings, first.processors]
      · rw [none] at made'
        cases made'

/-- A pool that is used keeps its size. -/
theorem setPool {p : PoolId} {value : WorkerPool} (same : value.workers = (m.pool p).workers) :
    m.KeepsPools (m.setPool p value) := by
  refine ⟨rfl, rfl, by simp [Machine.setPool], fun q inside => ?_, .inl rfl⟩
  by_cases here : q = p
  · subst here
    rw [Machine.pool_setPool inside, if_pos rfl, same]
  · unfold Machine.pool Machine.setPool
    rw [Array.getElem?_setIfInBounds, if_neg fun same => here same.symm]

/-- The default pool is made of the size that the settings say. -/
theorem ensureDefaultPool (m : Machine) : m.KeepsPools m.ensureDefaultPool.2 := by
  unfold Machine.ensureDefaultPool
  cases found : m.defaultPool with
  | some p => exact .refl m
  | none =>
    refine ⟨rfl, rfl, ?_, fun p inside => ?_, .inr ⟨found, m.pools.size, rfl, ?_, ?_⟩⟩
    · simp [Machine.newPool, Machine.logged]
    · unfold Machine.pool
      simp only [Machine.newPool, Machine.logged]
      rw [Array.getElem?_push_lt inside, Array.getElem?_eq_getElem inside]
    · simp [Machine.newPool, Machine.logged]
    · unfold Machine.pool
      simp only [Machine.newPool, Machine.logged, Array.getElem?_push_size]
      rfl

end Machine.KeepsPools

end Knot
