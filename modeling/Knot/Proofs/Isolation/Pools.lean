import Knot.Proofs.Apart
import Knot.Proofs.Builders

/-!
# Machines with the same slots

Of a pool, a split asks how many workers it has and how many slots are free. Two machines have the same
slots (`Machine.SameSlots`) if that is so of the pools that a tree may name, and of the default pool,
which counts as what it will be as long as it is not made. To resolve a pool and to count operations
keeps the slots, and to change the pools that are meant in the same way keeps them the same
(`Machine.SameSlots.setPool`).
-/

namespace Knot

/-- What of a pool decides about splits: its workers and its free slots. -/
def WorkerPool.slots (q : WorkerPool) : Value × Value := (q.workers, q.available)

/-- A task that is handed to a worker takes no slot. -/
theorem WorkerPool.slots_of_submit {q q' : WorkerPool} (handed : q.submit = .ok q') :
    q'.slots = q.slots := by
  unfold submit at handed
  obtain ⟨without, -, rest⟩ := Except.bind_eq_ok.1 handed
  split at rest
  next => cases rest
  next =>
    cases rest
    rfl

namespace Machine

/-- The slots of the pool that is meant; those of the default pool if none is named. -/
def slots (m : Machine) : Option PoolId → Value × Value
  | some p => (m.pool p).slots
  | none =>
    match m.defaultPool with
    | some p => (m.pool p).slots
    | none => (WorkerPool.new (m.poolSize .none)).slots

/-- Two machines that have the same slots in the first `k` pools and in the default pool. -/
structure SameSlots (k : Nat) (m m' : Machine) : Prop where
  settings : m'.settings = m.settings
  processors : m'.processors = m.processors
  named : ∀ p < k, (m'.pool p).slots = (m.pool p).slots
  unnamed : m'.slots none = m.slots none
  /-- The default pool is one of the first in both, or in none. -/
  default : ∀ p < k, m'.defaultPool = some p ↔ m.defaultPool = some p

/-- A machine with the first `k` pools, and with whole slots in them and in the default pool. -/
structure PoolsWhole (k : Nat) (m : Machine) : Prop where
  size : k ≤ m.pools.size
  default : ∀ p, m.defaultPool = some p → p < m.pools.size
  named : ∀ p < k, ∃ n : Int, (m.pool p).available = .int n
  unnamed : ∃ n : Int, (m.slots none).2 = .int n

namespace SameSlots

variable {k : Nat} {m m' m'' : Machine}

theorem refl (m : Machine) : SameSlots k m m := ⟨rfl, rfl, fun _ _ => rfl, rfl, fun _ _ => Iff.rfl⟩

theorem trans (first : SameSlots k m m') (second : SameSlots k m' m'') : SameSlots k m m'' where
  settings := second.settings.trans first.settings
  processors := second.processors.trans first.processors
  named p below := (second.named p below).trans (first.named p below)
  unnamed := second.unnamed.trans first.unnamed
  default p below := (second.default p below).trans (first.default p below)

theorem symm (h : SameSlots k m m') : SameSlots k m' m where
  settings := h.settings.symm
  processors := h.processors.symm
  named p below := (h.named p below).symm
  unnamed := h.unnamed.symm
  default p below := (h.default p below).symm

/-- In the place of two machines there may be others with the same slots. -/
theorem congr {n n' : Machine} (h : SameSlots k m m') (same : SameSlots k m n) (same' : SameSlots k m' n') :
    SameSlots k n n' := same.symm.trans (h.trans same')

/-- Machines that have the same pools. -/
theorem of_eq (pools : m'.pools = m.pools) (default : m'.defaultPool = m.defaultPool)
    (settings : m'.settings = m.settings) (processors : m'.processors = m.processors) :
    SameSlots k m m' := by
  have pool (p : PoolId) : m'.pool p = m.pool p := by
    unfold Machine.pool
    rw [pools]
  refine ⟨settings, processors, fun p _ => by rw [pool], ?_, fun p _ => by rw [default]⟩
  simp only [slots, default, pool, poolSize, settings, processors]

end SameSlots

/-- What stands at the places of two machines that are meant alike: one of the first pools in both, or the
default pool in both. -/
structure Meant (k : Nat) (m m' : Machine) (p p' : PoolId) : Prop where
  inside : p < m.pools.size
  inside' : p' < m'.pools.size
  alike : (p = p' ∧ p < k) ∨ (k ≤ p ∧ k ≤ p' ∧ m.defaultPool = some p ∧ m'.defaultPool = some p')

section

variable {k : Nat} {m m' : Machine} {p p' : PoolId}

/-- A place that is meant on two machines is meant on each of them. -/
theorem Meant.left (h : Meant k m m' p p') : Meant k m m p p := by
  refine ⟨h.inside, h.inside, ?_⟩
  rcases h.alike with ⟨-, below⟩ | ⟨above, -, meant, -⟩
  · exact .inl ⟨rfl, below⟩
  · exact .inr ⟨above, above, meant, meant⟩

theorem Meant.right (h : Meant k m m' p p') : Meant k m' m' p' p' := by
  refine ⟨h.inside', h.inside', ?_⟩
  rcases h.alike with ⟨rfl, below⟩ | ⟨-, above, -, meant⟩
  · exact .inl ⟨rfl, below⟩
  · exact .inr ⟨above, above, meant, meant⟩

/-- Places stay meant when pools are put there. -/
theorem Meant.setPool (h : Meant k m m' p p') (q q' : WorkerPool) :
    Meant k (m.setPool p q) (m'.setPool p' q') p p' where
  inside := by simpa [Machine.setPool] using h.inside
  inside' := by simpa [Machine.setPool] using h.inside'
  alike := h.alike

theorem slots_none_setPool (inside : p < m.pools.size) (q : WorkerPool) :
    (m.setPool p q).slots none = if m.defaultPool = some p then q.slots else m.slots none := by
  have same : (m.setPool p q).defaultPool = m.defaultPool := rfl
  unfold slots
  rw [same]
  cases known : m.defaultPool with
  | none => simp [poolSize, setPool]
  | some r =>
    simp only [pool_setPool inside, Option.some.injEq]
    split <;> rfl

/-- To put pools with the same slots at places that are meant alike keeps the slots the same. -/
theorem SameSlots.setPool (h : SameSlots k m m') (placed : Meant k m m' p p') {q q' : WorkerPool}
    (same : q'.slots = q.slots) : SameSlots k (m.setPool p q) (m'.setPool p' q') := by
  refine ⟨h.settings, h.processors, fun r below => ?_, ?_, h.default⟩
  · rw [pool_setPool placed.inside, pool_setPool placed.inside']
    rcases placed.alike with ⟨rfl, -⟩ | ⟨above, above', -⟩
    · split
      · exact same
      · exact h.named r below
    · rw [if_neg (Nat.ne_of_lt (Nat.lt_of_lt_of_le below above)),
        if_neg (Nat.ne_of_lt (Nat.lt_of_lt_of_le below above'))]
      exact h.named r below
  · rw [slots_none_setPool placed.inside, slots_none_setPool placed.inside']
    rcases placed.alike with ⟨rfl, below⟩ | ⟨-, -, meant, meant'⟩
    · by_cases meant : m.defaultPool = some p
      · rw [if_pos meant, if_pos ((h.default p below).2 meant), same]
      · rw [if_neg meant, if_neg fun meant' => meant ((h.default p below).1 meant')]
        exact h.unnamed
    · rw [if_pos meant, if_pos meant', same]

/-- A pool at one of the places has the slots of the one at the other. -/
theorem SameSlots.pool (h : SameSlots k m m') (placed : Meant k m m' p p') :
    (m'.pool p').slots = (m.pool p).slots := by
  rcases placed.alike with ⟨rfl, below⟩ | ⟨-, -, meant, meant'⟩
  · exact h.named p below
  · have unnamed := h.unnamed
    simpa only [slots, meant, meant'] using unnamed

/-- A machine with a pool replaced by one with the same slots. -/
theorem sameSlots_setPool {q : WorkerPool} (same : q.slots = (m.pool p).slots) :
    SameSlots k m (m.setPool p q) := by
  by_cases inside : p < m.pools.size
  · refine ⟨rfl, rfl, fun r _ => ?_, ?_, fun _ _ => Iff.rfl⟩
    · rw [pool_setPool inside]
      split
      next here => rw [here, same]
      next => rfl
    · rw [slots_none_setPool inside]
      split
      next meant => simp only [slots, meant, same]
      next => rfl
  · have unchanged : m.setPool p q = m := by
      unfold setPool
      rw [Array.setIfInBounds_eq_of_size_le (Nat.le_of_not_lt inside)]
    rw [unchanged]
    exact .refl m

theorem PoolsWhole.of_sameSlots (h : PoolsWhole k m) (same : SameSlots k m m')
    (size : k ≤ m'.pools.size) (default : ∀ p, m'.defaultPool = some p → p < m'.pools.size) :
    PoolsWhole k m' := by
  refine ⟨size, default, fun p below => ?_, ?_⟩
  · obtain ⟨n, whole⟩ := h.named p below
    exact ⟨n, (congrArg Prod.snd (same.named p below)).trans whole⟩
  · obtain ⟨n, whole⟩ := h.unnamed
    exact ⟨n, (congrArg Prod.snd same.unnamed).trans whole⟩

/-- The pools of a machine that has the same pools are whole. -/
theorem PoolsWhole.of_eq (h : PoolsWhole k m) (pools : m'.pools = m.pools)
    (default : m'.defaultPool = m.defaultPool) (settings : m'.settings = m.settings)
    (processors : m'.processors = m.processors) : PoolsWhole k m' := by
  refine h.of_sameSlots (.of_eq pools default settings processors) ?_ ?_
  · rw [pools]
    exact h.size
  · rw [pools, default]
    exact h.default

theorem PoolsWhole.at_place (h : PoolsWhole k m) (placed : Meant k m m' p p') :
    ∃ n : Int, (m.pool p).available = .int n := by
  rcases placed.alike with ⟨-, below⟩ | ⟨-, -, meant, -⟩
  · exact h.named p below
  · obtain ⟨n, whole⟩ := h.unnamed
    refine ⟨n, ?_⟩
    simpa only [slots, meant, WorkerPool.slots] using whole

end

/-! ## Machines to which all slots are given back -/

/-- A later machine with the same slots; a default pool that has been made is still the default pool. -/
structure Restored (k : Nat) (m m' : Machine) : Prop where
  slots : SameSlots k m m'
  default : ∀ p, m.defaultPool = some p → m'.defaultPool = some p

namespace Restored

variable {k : Nat} {m m' m'' : Machine} {p p' : PoolId}

theorem refl (m : Machine) : Restored k m m := ⟨.refl m, fun _ => id⟩

theorem trans (first : Restored k m m') (second : Restored k m' m'') : Restored k m m'' :=
  ⟨first.slots.trans second.slots, fun p made => second.default p (first.default p made)⟩

theorem of_eq (pools : m'.pools = m.pools) (default : m'.defaultPool = m.defaultPool)
    (settings : m'.settings = m.settings) (processors : m'.processors = m.processors) :
    Restored k m m' :=
  ⟨.of_eq pools default settings processors, fun _ made => default.trans made⟩

theorem setPool {q : WorkerPool} (same : q.slots = (m.pool p).slots) :
    Restored k m (m.setPool p q) := ⟨sameSlots_setPool same, fun _ => id⟩

/-- What is meant on the earlier machine is meant on the later one. -/
theorem placed (h : Restored k m m') (whole : PoolsWhole k m') (before : Meant k m m p p) :
    Meant k m m' p p := by
  refine ⟨before.inside, ?_, ?_⟩
  · rcases before.alike with ⟨-, below⟩ | ⟨-, -, meant, -⟩
    · exact Nat.lt_of_lt_of_le below whole.size
    · exact whole.default p (h.default p meant)
  · rcases before.alike with first | ⟨above, -, meant, -⟩
    · exact .inl first
    · exact .inr ⟨above, above, meant, h.default p meant⟩

end Restored

section

variable {k : Nat} {m m' : Machine} {p p' : PoolId}

/-- Where there is no default pool, one is made at the next place. -/
theorem ensureDefaultPool_of_none (known : m.defaultPool = none) :
    m.ensureDefaultPool.1 = m.pools.size ∧
      m.ensureDefaultPool.2.pools = m.pools.push (.new (m.poolSize .none)) ∧
      m.ensureDefaultPool.2.defaultPool = some m.pools.size ∧
      m.ensureDefaultPool.2.settings = m.settings ∧
      m.ensureDefaultPool.2.processors = m.processors := by
  unfold ensureDefaultPool
  rw [known]
  exact ⟨rfl, rfl, rfl, rfl, rfl⟩

/-- The pools where one more has been made. -/
theorem pool_of_push {q : WorkerPool} (pools : m'.pools = m.pools.push q) (p : PoolId) :
    m'.pool p = if p = m.pools.size then q else m.pool p := by
  unfold Machine.pool
  rw [pools, Array.getElem?_push]
  split <;> rfl

/-- The default pool, made if there was none, counts as it did before. -/
theorem restored_ensureDefaultPool (whole : PoolsWhole k m) :
    Restored k m m.ensureDefaultPool.2 ∧ PoolsWhole k m.ensureDefaultPool.2 ∧
      m.ensureDefaultPool.2.defaultPool = some m.ensureDefaultPool.1 := by
  cases known : m.defaultPool with
  | some p =>
    have same : m.ensureDefaultPool = (p, m) := by
      unfold ensureDefaultPool
      rw [known]
    rw [same]
    exact ⟨.refl m, whole, known⟩
  | none =>
    obtain ⟨place, pools, default, settings, processors⟩ := ensureDefaultPool_of_none known
    generalize m.ensureDefaultPool = r at place pools default settings processors ⊢
    -- the pool that is made comes after those of the realm, which stay what they are
    have older (p : PoolId) (below : p < k) : p ≠ m.pools.size :=
      Nat.ne_of_lt (Nat.lt_of_lt_of_le below whole.size)
    have slots : SameSlots k m r.2 := by
      refine ⟨settings, processors, fun p below => ?_, ?_, fun p below => ?_⟩
      · rw [pool_of_push pools, if_neg (older p below)]
      · simp only [Machine.slots, default, known, pool_of_push pools, if_pos]
      · rw [default, known]
        exact iff_of_false (fun same => older p below (Option.some.inj same).symm) (by simp)
    have size : r.2.pools.size = m.pools.size + 1 := by
      rw [pools, Array.size_push]
    refine ⟨⟨slots, fun p made => ?_⟩, whole.of_sameSlots slots ?_ ?_, ?_⟩
    · rw [known] at made
      cases made
    · rw [size]
      exact Nat.le_succ_of_le whole.size
    · intro p made
      rw [default] at made
      cases made
      rw [size]
      exact Nat.lt_succ_self _
    · rw [place, default]

/-- The default pools of two machines with the same slots are meant alike. -/
theorem Meant.of_default (same : SameSlots k m m') (whole : PoolsWhole k m) (whole' : PoolsWhole k m')
    (made : m.defaultPool = some p) (made' : m'.defaultPool = some p') : Meant k m m' p p' := by
  refine ⟨whole.default p made, whole'.default p' made', ?_⟩
  by_cases below : p < k
  · have here := (same.default p below).2 made
    rw [made'] at here
    cases here
    exact .inl ⟨rfl, below⟩
  · refine .inr ⟨Nat.le_of_not_lt below, Nat.le_of_not_lt fun below' => below ?_, made, made'⟩
    have here := (same.default p' below').1 made'
    rw [made] at here
    cases here
    exact below'

/-- The places that stand for one pool on two machines with the same slots. -/
theorem Meant.of_meant (same : SameSlots k m m') (whole : PoolsWhole k m) (whole' : PoolsWhole k m')
    {pool : Option PoolId} (named : ∀ p, pool = some p → p < k)
    (meant : pool = some p ∨ pool = none ∧ m.defaultPool = some p)
    (meant' : pool = some p' ∨ pool = none ∧ m'.defaultPool = some p') : Meant k m m' p p' := by
  rcases meant with rfl | ⟨rfl, made⟩
  · obtain rfl : p = p' := meant'.elim Option.some.inj fun other => nomatch other.1
    have below := named p rfl
    exact ⟨Nat.lt_of_lt_of_le below whole.size, Nat.lt_of_lt_of_le below whole'.size, .inl ⟨rfl, below⟩⟩
  · rcases meant' with ⟨⟨⟩⟩ | ⟨-, made'⟩
    exact .of_default same whole whole' made made'

/-- The place of the pool that is meant. -/
theorem resolvePool_eq (whole : PoolsWhole k m) (pool : Option PoolId) :
    ∃ p m₁, Run.resolvePool pool m = (.value p, m₁) ∧ Restored k m m₁ ∧ PoolsWhole k m₁ ∧
      (pool = some p ∨ pool = none ∧ m₁.defaultPool = some p) := by
  cases pool with
  | some p => exact ⟨p, m, rfl, .refl m, whole, .inl rfl⟩
  | none =>
    obtain ⟨restored, whole', made⟩ := restored_ensureDefaultPool whole
    exact ⟨_, _, rfl, restored, whole', .inr ⟨rfl, made⟩⟩

/-- A pool that is replaced by one with whole slots. -/
theorem PoolsWhole.setPool (whole : PoolsWhole k m) (inside : p < m.pools.size) {q : WorkerPool} {n : Int}
    (slots : q.available = .int n) : PoolsWhole k (m.setPool p q) := by
  refine ⟨?_, fun r made => ?_, fun r below => ?_, ?_⟩
  · simpa [Machine.setPool] using whole.size
  · simpa [Machine.setPool] using whole.default r made
  · rw [pool_setPool inside]
    split
    · exact ⟨n, slots⟩
    · exact whole.named r below
  · rw [slots_none_setPool inside]
    split
    · exact ⟨n, slots⟩
    · exact whole.unnamed

/-- A pool that is replaced so that the slots are those of another machine. -/
theorem PoolsWhole.replaced (whole : PoolsWhole k m') {q : WorkerPool} (other : PoolsWhole k m)
    (same : SameSlots k m (m'.setPool p q)) : PoolsWhole k (m'.setPool p q) := by
  have size : (m'.setPool p q).pools.size = m'.pools.size := Array.size_setIfInBounds
  refine other.of_sameSlots same ?_ fun r made => ?_
  · rw [size]
    exact whole.size
  · rw [size]
    exact whole.default r made

/-- Slots that have been taken of a pool and are given back. -/
theorem restored_release (placed : Meant k m m p p) {n : Int} {t : WorkerPool}
    (slots : (m.pool p).available = .int n) (taken : t.slots = ((m.pool p).workers, .int (n - 2)))
    (whole : PoolsWhole k m') (between : Restored k (m.setPool p t) m') :
    ∃ q, Run.release p WorkerPool.splitSlots m' = (.value (), m'.setPool p q) ∧
      Restored k m (m'.setPool p q) := by
  have placed' : Meant k (m.setPool p t) m' p p := between.placed whole (placed.setPool t t)
  have there : (m.setPool p t).pool p = t := by
    rw [pool_setPool placed.inside, if_pos rfl]
  have found : (m'.pool p).slots = ((m.pool p).workers, .int (n - 2)) :=
    (between.slots.pool placed').trans (by rw [there, taken])
  have workers : (m'.pool p).workers = (m.pool p).workers := congrArg Prod.fst found
  have free : (m'.pool p).available = .int (n - 2) := congrArg Prod.snd found
  refine ⟨{ m'.pool p with available := .int n }, ?_, ?_⟩
  · rw [Run.release_int free, Int.sub_add_cancel]
  · have same : SameSlots k ((m.setPool p t).setPool p (m.pool p))
        (m'.setPool p { m'.pool p with available := .int n }) :=
      between.slots.setPool placed' (by
        unfold WorkerPool.slots
        rw [workers, slots])
    rw [setPool_setPool] at same
    exact ⟨(sameSlots_setPool rfl).trans same, between.default⟩

/-! ## Splits -/

/-- The machine on which a split begins: `n` slots have been free in a pool, and two are taken. -/
def splitting (m : Machine) (p : PoolId) (n : Int) : Machine :=
  m.setPool p (WorkerPool.countParallel { m.pool p with available := .int (n - 2) })

/-- The machine on which an operation begins that is not split. -/
def inTurn (m : Machine) (p : PoolId) : Machine := m.setPool p (m.pool p).countSequential

/-- The operands of an operator run side by side if more than two slots are free in the pool that is meant,
and one after the other if not. -/
theorem operands_eq (whole : PoolsWhole k m) {pool : Option PoolId} (named : ∀ p, pool = some p → p < k) :
    ∃ p m₁ n, Restored k m m₁ ∧ PoolsWhole k m₁ ∧ m₁.frames = m.frames ∧ m₁.functions = m.functions ∧
      (pool = some p ∨ pool = none ∧ m₁.defaultPool = some p) ∧ (m₁.pool p).available = .int n ∧
      ∀ {α β : Type} (x : Run α) (y : Run β), Run.operands pool x y m =
        if 2 < n then
          Run.releasing p WorkerPool.splitSlots (Run.submit p >>= fun _ =>
            Run.both ((m₁.pool p).rightFirst (m₁.pool p).stats.parallel) x y) (m₁.splitting p n)
        else (x >>= fun a => y >>= fun b => pure (a, b)) (m₁.inTurn p) := by
  obtain ⟨p, m₁, resolved, restored, whole', meant⟩ := resolvePool_eq whole pool
  have placed : Meant k m₁ m₁ p p := .of_meant (.refl m₁) whole' whole' named meant meant
  obtain ⟨n, slots⟩ := whole'.at_place placed
  have apart := Run.Apart.resolvePool pool
  have frames := apart.frames m
  have functions := apart.functions m
  rw [resolved] at frames functions
  refine ⟨p, m₁, n, restored, whole', frames, functions, meant, slots, fun x y => ?_⟩
  unfold Run.operands
  rw [Run.bind_of_value resolved]
  have asked := Run.reserve_int slots
  by_cases enough : 2 < n
  · rw [if_pos enough] at asked
    rw [Run.bind_of_value asked, if_pos enough, if_pos rfl]
    -- what is counted is the pool of which the slots have been taken
    show Run.releasing p _ (Run.submit p >>= fun _ => Run.both
      (((m₁.setPool p _).pool p).rightFirst ((m₁.setPool p _).pool p).stats.parallel) x y)
      ((m₁.setPool p _).setPool p ((m₁.setPool p _).pool p).countParallel) = _
    rw [pool_setPool placed.inside, if_pos rfl, setPool_setPool]
    rfl
  · rw [if_neg enough] at asked
    rw [Run.bind_of_value asked, if_neg enough]
    rfl

end

end Machine

end Knot
