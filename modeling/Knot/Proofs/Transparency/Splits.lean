import Knot.Proofs.Transparency.Regimes

/-!
# Split operations

An operation on two calls follows its course (`Regime.Follows.splitBinary`): while more than two slots are
free both calls run, in either order, with two slots fewer, and else they run one after the other with the
same slots. The slots are the same again at the end, so it depends on the nesting of splits only how many
there are.
-/

namespace Knot

/-- Of two courses that are both taken either one may come first. -/
theorem Course.both_eq_rightFirst {α β : Type} (left : Course α) (right : Course β) :
    both left right = right.onward fun e' => left.onward fun e => done (e.both e') := by
  unfold both onward
  rcases left with - | ⟨e, given⟩ <;> rcases right with - | ⟨e', given'⟩
  · rfl
  · rfl
  · rfl
  · show some (e.both e', given ∪ (given' ∪ ∅)) = some (e.both e', given' ∪ (given ∪ ∅))
    rw [Set.union_empty, Set.union_empty, Set.union_comm]

namespace Regime

variable {r : Regime} {σ τ : Glossary} {slots : Int} {m m' : Machine}

/-! ## Pools -/

theorem named_later {p : PoolId} (named : r.context.pool.or m.defaultPool = some p)
    (retains : m.Retains m') : r.context.pool.or m'.defaultPool = some p := by
  cases own : r.context.pool with
  | some q => rw [own] at named; exact named
  | none =>
    rw [own, Option.none_or] at named
    exact retains.pool p named

/-- After a change of the free slots of the pool. -/
theorem Holds.setPool (h : r.Holds σ slots m) {p : PoolId}
    (named : r.context.pool.or m.defaultPool = some p) {value : WorkerPool} {n : Int}
    (free : value.available = .int n) (workers : value.workers = (m.pool p).workers)
    (fits : n ≤ r.workers) : r.Holds σ n (m.setPool p value) := by
  have holds : r.threading = true → r.Offers n (m.setPool p value) := by
    intro on
    have serves := (h.pool on).made p named
    have same := Machine.pool_setPool serves.inside value p
    rw [if_pos rfl] at same
    refine ⟨fun q other => ?_, fun impossible => ?_⟩
    · cases named.symm.trans other
      exact ⟨by simpa [Machine.setPool] using serves.inside, by rw [same, free],
        by rw [same, workers, serves.workers], fits⟩
    · cases named.symm.trans impossible
  have retains := Machine.Retains.setPool m p value
  refine ⟨h.since, fun i s held => (h.placed i s held).later (.refl σ) retains, fun on => ?_, holds⟩
  obtain ⟨inside, faithful⟩ := h.cache on
  exact ⟨inside, faithful.mono fun f a v kept => kept.later retains⟩

/-- The pool that is meant is there, or it is made with all of its slots free. -/
theorem Holds.resolvePool (h : r.Holds σ slots m) (on : r.threading = true) :
    ∃ p m', Run.resolvePool r.context.pool m = (.value p, m') ∧ r.Holds σ slots m' ∧ m.Retains m' ∧
      r.context.pool.or m'.defaultPool = some p := by
  cases own : r.context.pool with
  | some p => exact ⟨p, m, rfl, h, .refl m, rfl⟩
  | none =>
    cases known : m.defaultPool with
    | some p =>
      refine ⟨p, m, ?_, h, .refl m, known⟩
      unfold Run.resolvePool Run.step Machine.ensureDefaultPool
      simp only [known]
    | none =>
      -- the default pool is made now, and the count of its slots is that of its workers
      obtain ⟨size, rfl⟩ := (h.pool on).unmade (by rw [own, known]; rfl)
      let made : Machine :=
        { (m.newPool .none).2.logged (Machine.poolMessage ((m.newPool .none).2.pool m.pools.size).workers) with
          defaultPool := some m.pools.size }
      have retains : m.Retains made :=
        ⟨fun _ _ => id, fun _ _ => id, fun _ => .refl _, rfl, rfl, fun p impossible => by
          rw [known] at impossible
          cases impossible⟩
      refine ⟨m.pools.size, made, ?_, ?_, retains, rfl⟩
      · unfold Run.resolvePool Run.step Machine.ensureDefaultPool
        simp only [known]
        rfl
      · refine ⟨h.since, fun i s held => (h.placed i s held).later (.refl σ) retains, fun on => ?_, fun _ => ?_⟩
        · obtain ⟨inside, faithful⟩ := h.cache on
          exact ⟨inside, faithful.mono fun f a v kept => kept.later retains⟩
        · have pools : made.pools = m.pools.push (.new (m.poolSize .none)) := rfl
          have pool : made.pool m.pools.size = .new (.int r.workers) := by
            unfold Machine.pool
            rw [pools, size, Array.getElem?_push, if_pos rfl, Option.getD_some]
          refine ⟨fun p named => ?_, fun impossible => ?_⟩
          · rw [own] at named
            cases named
            have inside : m.pools.size < made.pools.size := by
              rw [pools, Array.size_push]
              exact Nat.lt_succ_self _
            exact ⟨inside, by rw [pool]; rfl, by rw [pool]; rfl, Int.le_refl _⟩
          · rw [own] at impossible
            cases impossible

/-- Two slots are taken. -/
theorem Holds.reserve (h : r.Holds σ slots m) (on : r.threading = true) {p : PoolId}
    (named : r.context.pool.or m.defaultPool = some p) (enough : 2 < slots) :
    ∃ m', Run.reserve p WorkerPool.splitSlots m = (.value true, m') ∧ r.Holds σ (slots - 2) m' ∧
      m.Retains m' := by
  have serves := (h.pool on).made p named
  have fits := serves.fits
  refine ⟨m.setPool p { m.pool p with available := .int (slots - 2) }, ?_,
    h.setPool named rfl rfl (by omega), .setPool m p _⟩
  rw [Run.reserve_int serves.free, if_pos enough]

/-- A split is counted. -/
theorem Holds.countParallel (h : r.Holds σ slots m) (on : r.threading = true) {p : PoolId}
    (named : r.context.pool.or m.defaultPool = some p) :
    r.Holds σ slots (m.setPool p (m.pool p).countParallel) ∧
      m.Retains (m.setPool p (m.pool p).countParallel) := by
  have serves := (h.pool on).made p named
  exact ⟨h.setPool named serves.free rfl serves.fits, .setPool m p _⟩

/-- A worker takes a task. -/
theorem Holds.submit (h : r.Holds σ slots m) (on : r.threading = true) {p : PoolId}
    (named : r.context.pool.or m.defaultPool = some p) (enough : 0 < r.workers) :
    ∃ m', Run.submit p m = (.value (), m') ∧ r.Holds σ slots m' ∧ m.Retains m' := by
  have serves := (h.pool on).made p named
  let busy : WorkerPool := { m.pool p with
    stats := { (m.pool p).stats with submitted := (m.pool p).stats.submitted + 1 } }
  have holds : r.Holds σ slots (m.setPool p busy) := h.setPool named serves.free rfl serves.fits
  exact ⟨m.setPool p busy, Run.submit_int serves.workers enough, holds, .setPool m p _⟩

/-! ## Operands -/

/-- Two values that stand for two things. -/
def Pairs (τ : Glossary) (_ : Machine) (vs : Boxed × Boxed) (ss : Sense × Sense) : Prop :=
  τ.Denotes vs.1.value ss.1 ∧ τ.Denotes vs.2.value ss.2

/-- What ended early in the course ended early in the run. -/
theorem Matches.both {e e' : Ending Sense} {o o' : Outcome Boxed} (more : σ.Extends τ)
    (left : Matches σ (Values σ m) e o) (right : Matches τ (Values τ m') e' o') :
    Matches τ (Pairs τ m') (e.both e') (o.both o') := by
  cases left with
  | value denotes =>
    cases right with
    | value denotes' => exact .value ⟨denotes.extend more, denotes'⟩
    | fault f => exact .fault f
    | jump target denotes' => exact .jump target denotes'
  | fault f => cases right <;> exact .fault f
  | jump target denotes => cases right <;> exact .jump target (denotes.extend more)

/-- A run that may start on any later machine with the slots that it is told. -/
def Awaits (r : Regime) (σ : Glossary) (m : Machine) (c : Int → Course Sense) (x : Run Boxed) : Prop :=
  ∀ τ slots m', σ.Extends τ → r.Holds τ slots m' → m.Retains m' → r.Follows Values τ slots (c slots) x m'

theorem Awaits.later {c : Int → Course Sense} {x : Run Boxed} (h : r.Awaits σ m c x) (more : σ.Extends τ)
    (retains : m.Retains m') : r.Awaits τ m' c x :=
  fun υ slots m'' more' holds retains' =>
    h υ slots m'' (more.trans more') holds (retains.trans retains')

namespace Follows

/-- A run after which two slots are given back. -/
theorem releasing {c : Course (Sense × Sense)} {x : Run (Boxed × Boxed)} (on : r.threading = true)
    {p : PoolId} (named : r.context.pool.or m.defaultPool = some p) (fits : slots ≤ r.workers)
    (h : r.Follows Pairs σ (slots - 2) c x m) :
    r.Follows Pairs σ slots c (Run.releasing p WorkerPool.splitSlots x) m := by
  intro alive
  have aliveInside : r.Alive c (x m).1 := by
    rcases alive with ended | ⟨off, ended⟩
    · exact .inl ended
    · refine .inr ⟨off, fun exhausted => ended ?_⟩
      rcases reached : x m with ⟨o, m'⟩
      rw [reached] at exhausted
      have stopped : o = .exhausted := exhausted
      subst stopped
      unfold Run.releasing
      rw [reached]
  obtain ⟨e, given, τ, ended, more, holds, retains, outcome, gave⟩ := h aliveInside
  rcases reached : x m with ⟨o, m'⟩
  rw [reached] at holds retains outcome gave
  have named' := named_later named retains
  have serves := (holds.pool on).made p named'
  -- what was reserved is given back, however the work has ended
  have same := Run.releasing_int reached outcome.ended serves.free
  rw [Int.sub_add_cancel] at same
  refine ⟨e, given, τ, ended, ?_⟩
  rw [same]
  have later := Machine.Retains.setPool m' p { m'.pool p with available := .int slots }
  exact ⟨more, holds.setPool named' rfl rfl fits, retains.trans later,
    by cases outcome <;> constructor <;> assumption, fun off b inside => (gave off b inside).later later⟩

variable {left right : Run Boxed} {c c' : Int → Course Sense}

/-- Two runs that both take place, in either order. -/
theorem both (holds : r.Holds σ slots m) (first : r.Awaits σ m c left) (second : r.Awaits σ m c' right)
    (rightFirst : Bool) :
    r.Follows Pairs σ slots (Course.both (c slots) (c' slots)) (Run.both rightFirst left right) m := by
  rw [Run.both_eq_onward]
  cases rightFirst with
  | false =>
    refine onward (first σ slots m (.refl σ) holds (.refl m)) fun τ m' e o more holds' retains outcome => ?_
    refine onward (second τ slots m' more holds' retains) fun υ m'' e' o' more' holds'' _ outcome' => ?_
    exact of_eq rfl holds'' (.refl m'') (outcome.both more' outcome')
  | true =>
    rw [Course.both_eq_rightFirst]
    refine onward (second σ slots m (.refl σ) holds (.refl m)) fun τ m' e' o' more holds' retains outcome' => ?_
    refine onward (first τ slots m' more holds' retains) fun υ m'' e o more' holds'' _ outcome => ?_
    refine of_eq rfl holds'' (.refl m'') ?_
    have outcome' : Matches υ (Values υ m'') e' o' := by
      cases outcome' with
      | value denotes => exact .value (denotes.extend more')
      | fault f => exact .fault f
      | jump target denotes => exact .jump target (denotes.extend more')
    exact outcome.both (.refl υ) outcome'

/-- Two runs one after the other. -/
theorem sequential (on : r.threading = true) (holds : r.Holds σ slots m) {p : PoolId}
    (named : r.context.pool.or m.defaultPool = some p) (first : r.Awaits σ m c left)
    (second : r.Awaits σ m c' right) :
    r.Follows Pairs σ slots (Course.inTurn (c slots) (c' slots)) (Run.sequential p left right) m := by
  have serves := (holds.pool on).made p named
  have counted : r.Holds σ slots (m.setPool p (m.pool p).countSequential) :=
    holds.setPool named serves.free rfl serves.fits
  have retains := Machine.Retains.setPool m p (m.pool p).countSequential
  have inTurn : r.Follows Pairs σ slots (Course.inTurn (c slots) (c' slots)) (do
      let a ← left
      let b ← right
      pure (a, b)) (m.setPool p (m.pool p).countSequential) := by
    refine bind (first σ slots _ (.refl σ) counted retains) fun τ m' a s more holds' retains' denotes => ?_
    refine bind (second τ slots m' more holds' (retains.trans retains'))
      fun υ m'' b s' more' holds'' _ denotes' => ?_
    have left : υ.Denotes a.value s := Glossary.Denotes.extend denotes more'
    exact of_pure holds'' ⟨left, denotes'⟩
  exact inTurn.of_later (.refl σ) retains rfl

/-- Operands of which a worker takes one, if slots are free, and one after the other if not. -/
theorem operands (on : r.threading = true) (holds : r.Holds σ slots m) (first : r.Awaits σ m c left)
    (second : r.Awaits σ m c' right) :
    r.Follows Pairs σ slots (Course.operands slots c c') (Run.operands r.context.pool left right) m := by
  obtain ⟨p, m₁, resolved, holds₁, retains₁, named₁⟩ := holds.resolvePool on
  have serves := (holds₁.pool on).made p named₁
  have fits := serves.fits
  unfold Course.operands
  by_cases enough : 2 < slots
  · rw [if_pos enough]
    -- two slots are taken, the split is counted, and a task is submitted
    obtain ⟨m₂, granted, holds₂, retains₂⟩ := holds₁.reserve on named₁ enough
    have named₂ := named_later named₁ retains₂
    obtain ⟨holds₃, retains₃⟩ := holds₂.countParallel on named₂
    have named₃ := named_later named₂ retains₃
    obtain ⟨m₄, submitted, holds₄, retains₄⟩ := holds₃.submit on named₃ (by omega)
    have before := (retains₁.trans retains₂).trans retains₃
    have whole := before.trans retains₄
    let rightFirst := (m₂.pool p).rightFirst (m₂.pool p).stats.parallel
    have tasks : r.Follows Pairs σ (slots - 2) (Course.both (c (slots - 2)) (c' (slots - 2))) (do
        Run.submit p
        Run.both rightFirst left right) (m₂.setPool p (m₂.pool p).countParallel) :=
      (both holds₄ (first.later (.refl σ) whole) (second.later (.refl σ) whole) rightFirst).of_later
        (.refl σ) retains₄ (Run.bind_of_value submitted)
    exact (tasks.releasing on named₃ fits).of_later (.refl σ) before
      ((Run.bind_of_value resolved).trans (Run.bind_of_value granted))
  · rw [if_neg enough]
    have refused : Run.reserve p WorkerPool.splitSlots m₁ = (.value false, m₁) := by
      rw [Run.reserve_int serves.free, if_neg enough]
    have inTurn := sequential on holds₁ named₁ (first.later (.refl σ) retains₁)
      (second.later (.refl σ) retains₁)
    exact inTurn.of_later (.refl σ) retains₁
      ((Run.bind_of_value resolved).trans (Run.bind_of_value refused))

end Follows

end Regime

end Knot
