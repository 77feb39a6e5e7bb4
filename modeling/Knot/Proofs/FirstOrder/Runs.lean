import Knot.Proofs.Evaluation
import Knot.Proofs.FirstOrder.World

/-!
# Runs of compiled bodies

`World.Runs` is the judgement on a run that starts in a world: the world holds at its end as well,
the machine is a later one, the outcome is as expected, and if the run has ended the pool has as many
free slots as before.

`Follows strict live limit approx` is what is expected of a body whose meaning is `limit` at all
depths and `approx` at the depth that the fuel allows. A value is always the value of the limit. If
`strict` holds, as it does without splits, then a fault is the fault of the limit, and there is no
running out of fuel where the approximation answers. If `live` holds there is neither where the
approximation answers by a value.

`Run.lookupOrCompute` and `Run.splitBinary` keep to the judgement, and so does the evaluation of a
body, by induction on the body (`World.Evaluates.of_kernel`), and a call of a compiled closure, by induction on
the fuel (`World.call_runs`).
-/

namespace Knot

/-! ## The judgement -/

/-- Whether a run has come to an end. -/
def Outcome.Ended {α : Type} : Outcome α → Prop
  | .exhausted => False
  | _ => True

/-- The pool of a world has as many free slots in the one machine as in the other. -/
def World.SameSlots (w : World) (m m' : Machine) : Prop :=
  ∀ p, w.options.pool = some p → (m'.pool p).available = (m.pool p).available

/-- A run from a machine, in a world. -/
structure World.Runs (w : World) {α : Type} (expected : Outcome α → Prop) (x : Run α) (m : Machine) :
    Prop where
  holds : w.Holds (x m).2
  later : Later m (x m).2
  outcome : expected (x m).1
  slots : (x m).1.Ended → w.SameSlots m (x m).2

namespace World.Runs

variable {w : World} {α β : Type} {expected : Outcome α → Prop} {wanted : Outcome β → Prop}
  {m : Machine}

/-- A run that ends at once. -/
theorem of_eq {x : Run α} {o : Outcome α} (h : w.Holds m) (same : x m = (o, m)) (fits : expected o) :
    w.Runs expected x m := by
  refine ⟨?_, ?_, ?_, ?_⟩ <;> rw [same]
  · exact h
  · exact .refl m
  · exact fits
  · exact fun _ _ _ => rfl

/-- Less may be expected of the outcome. -/
theorem weaken {x : Run α} {expected' : Outcome α → Prop} (h : w.Runs expected x m)
    (implied : ∀ o, expected o → expected' o) : w.Runs expected' x m :=
  ⟨h.holds, h.later, implied _ h.outcome, h.slots⟩

/-- A run that goes on as another one from a later machine with the same free slots. -/
theorem of_later {x y : Run α} {m' : Machine} (h : w.Runs expected y m') (later : Later m m')
    (slots : w.SameSlots m m') (same : x m = y m') : w.Runs expected x m := by
  refine ⟨?_, ?_, ?_, ?_⟩ <;> rw [same]
  · exact h.holds
  · exact later.trans h.later
  · exact h.outcome
  · intro ended p named
    exact (h.slots ended p named).trans (slots p named)

/-- One run after another. -/
theorem bind {x : Run α} {f : α → Run β} (first : w.Runs expected x m)
    (second : ∀ a m', expected (.value a) → w.Holds m' → Later m m' → w.Runs wanted (f a) m')
    (fault : ∀ e, expected (.fault e) → wanted (.fault e))
    (jump : ∀ t v, expected (.jump t v) → wanted (.jump t v))
    (exhausted : expected .exhausted → wanted .exhausted) : w.Runs wanted (x >>= f) m := by
  have shape : (x >>= f) m = Run.bind x f m := rfl
  obtain ⟨holds, later, outcome, slots⟩ := first
  rcases ended : x m with ⟨o, m'⟩
  rw [ended] at holds later outcome slots
  cases o with
  | value a =>
    refine (second a m' outcome holds later).of_later later (slots trivial) ?_
    rw [shape, Run.bind, ended]
  | fault e =>
    have same : (x >>= f) m = (.fault e, m') := by rw [shape, Run.bind, ended]
    refine ⟨?_, ?_, ?_, ?_⟩ <;> rw [same]
    exacts [holds, later, fault e outcome, fun _ => slots trivial]
  | jump t v =>
    have same : (x >>= f) m = (.jump t v, m') := by rw [shape, Run.bind, ended]
    refine ⟨?_, ?_, ?_, ?_⟩ <;> rw [same]
    exacts [holds, later, jump t v outcome, fun _ => slots trivial]
  | exhausted =>
    have same : (x >>= f) m = (.exhausted, m') := by rw [shape, Run.bind, ended]
    refine ⟨?_, ?_, ?_, ?_⟩ <;> rw [same]
    exacts [holds, later, exhausted outcome, fun impossible => impossible.elim]

end World.Runs

/-! ## Following a meaning -/

/-- What is expected of the outcome of a run whose meaning is known. -/
def Follows (strict live : Prop) (limit approx : Partial) : Outcome Boxed → Prop
  | .value v => limit = some (.ok v.value)
  | .fault e => (strict → limit = some (.error e)) ∧ (live → ∀ v, approx ≠ some (.ok v))
  | .jump _ _ => False
  | .exhausted => (strict → approx = none) ∧ (live → ∀ v, approx ≠ some (.ok v))

namespace Follows

variable {strict live : Prop} {limit approx : Partial}

/-- Nothing more is expected where less is answered. -/
theorem lower {less : Partial} {o : Outcome Boxed} (h : Follows strict live limit approx o)
    (below : less.Below approx) : Follows strict live limit less o := by
  rcases below with rfl | rfl
  · cases o with
    | value v => exact h
    | fault e => exact ⟨h.1, fun _ v impossible => by cases impossible⟩
    | jump t v => exact h
    | exhausted => exact ⟨fun _ => rfl, fun _ v impossible => by cases impossible⟩
  · exact h

end Follows

namespace World

variable {w : World} {strict live : Prop} {m : Machine}

theorem runs_pure (h : w.Holds m) (v : Boxed) :
    w.Runs (Follows strict live (.value v.value) (.value v.value)) (pure v) m :=
  .of_eq h rfl rfl

/-- A result in a new box. -/
theorem runs_boxResult (h : w.Holds m) (r : Except Fault Value) :
    w.Runs (Follows strict live (some r) (some r)) (Run.boxResult r) m := by
  cases r with
  | ok v => exact ⟨h.later (.box m _) rfl rfl, .box m _, rfl, fun _ _ _ => rfl⟩
  | error e => exact .of_eq h rfl ⟨fun _ => rfl, fun _ v impossible => by cases impossible⟩

/-- One run after another, each following its meaning. -/
theorem Runs.andThen {x : Run Boxed} {f : Boxed → Run Boxed} {limit approx : Partial}
    {limit' approx' : Value → Partial} (below : approx.Below limit)
    (first : w.Runs (Follows strict live limit approx) x m)
    (second : ∀ v m', limit = some (.ok v.value) → w.Holds m' → Later m m' →
      w.Runs (Follows strict live (limit' v.value) (approx' v.value)) (f v) m') :
    w.Runs (Follows strict live (limit.andThen limit') (approx.andThen approx')) (x >>= f) m := by
  refine first.bind (fun v m' value holds later => ?_) ?_ ?_ ?_
  · have known : limit = some (.ok v.value) := value
    rw [known] at below ⊢
    refine (second v m' known holds later).weaken fun o expected => expected.lower ?_
    rcases below with rfl | rfl
    · exact .of_none _
    · exact .refl _
  · rintro e ⟨exact_, never⟩
    refine ⟨fun h => by rw [exact_ h]; rfl, fun h v answer => ?_⟩
    obtain ⟨u, operand, -⟩ := Partial.andThen_eq_ok.1 answer
    exact never h u operand
  · intro t v impossible
    exact impossible
  · rintro ⟨silent, never⟩
    refine ⟨fun h => by rw [silent h]; rfl, fun h v answer => ?_⟩
    obtain ⟨u, operand, -⟩ := Partial.andThen_eq_ok.1 answer
    exact never h u operand

/-! ## Cached calls -/

/-- The question that a call of a member on a typed argument asks of the cache. -/
theorem question (h : w.Holds m) {i : Installed w.options} (member : i ∈ w.members)
    {function argument : Boxed} (closure : function.value = .closure i.closure)
    (typed : argument.value.hasType i.definition.domain = true) :
    MemoCache.Question w.Answers function argument i.closure i.definition.domain where
  closure := closure
  typed := typed
  whole := i.definition.domain_whole
  comparable a r answer := by
    obtain ⟨j, member', same, fits, -⟩ := answer
    rw [← h.distinct j member' i member same]
    exact fits

/-- A cached call of a member answers as the member does. -/
theorem runs_lookupOrCompute (h : w.Holds m) {i : Installed w.options} (member : i ∈ w.members)
    {c : CacheId} (named : w.options.cache = some c) (caching : w.options.caching = true)
    {function argument : Boxed} (closure : function.value = .closure i.closure)
    (typed : argument.value.hasType i.definition.domain = true) {compute : Run Boxed} {approx : Partial}
    (below : approx.Below (i.definition.limit argument.value))
    (computed : ∀ m', w.Holds m' → Later m m' →
      w.Runs (Follows strict live (i.definition.limit argument.value) approx) compute m') :
    w.Runs (Follows strict live (i.definition.limit argument.value) approx)
      (Run.lookupOrCompute c function argument compute) m := by
  have answer : ∀ {r : Boxed}, w.Answers i.closure argument.value r.value →
      i.definition.limit argument.value = some (.ok r.value) := by
    rintro r ⟨j, member', same, -, answer⟩
    rw [← h.distinct j member' i member same]
    exact answer
  obtain ⟨d, named', inside, sound⟩ := h.cache caching
  rw [named] at named'
  cases named'
  have q := w.question h member closure typed
  obtain ⟨begun, cache', started, sound', grows, found⟩ := MemoCache.start_sound sound q
  have holds' := h.setCache inside grows sound'
  have later' := Later.setCache inside grows
  rcases found with ⟨r, rfl, right⟩ | ⟨ticket, rfl, mine, admitted⟩
  · have hit : w.Runs (Follows strict live (.value r.value) (.value r.value)) (pure r) _ :=
      w.runs_pure holds' r
    have run := hit.of_later later' (fun _ _ => rfl) (Run.lookupOrCompute_of_hit started compute)
    refine run.weaken fun o expected => ?_
    rw [answer right] at below ⊢
    exact expected.lower below
  · have rest : w.Runs (Follows strict live (i.definition.limit argument.value) approx) (do
        let result ← compute
        Run.onCache c fun cache => cache.finish ticket result) (m.setCache c cache') := by
      refine (computed _ holds' later').bind (fun r m' value holds later => ?_)
        (fun e => id) (fun t v => id) id
      have known : i.definition.limit argument.value = some (.ok r.value) := value
      -- the ticket is still good, however the tables have grown while the result was computed
      have still : (m'.cache c).Admits ticket i.closure := by
        refine MemoCache.Admits.grow ?_ (later.caches c)
        rw [Machine.cache_setCache_self inside]
        exact admitted
      obtain ⟨d, named', inside', sound''⟩ := holds.cache caching
      rw [named] at named'
      cases named'
      obtain ⟨kept, cache'', finished, sound''', grows', right⟩ :=
        MemoCache.finish_sound sound'' (w.question holds member closure typed) mine still
          ⟨i, member, rfl, typed, known⟩
      have last := Run.onCache_eq (m := m') (c := c) (f := fun cache => cache.finish ticket r) finished
      refine ⟨?_, ?_, ?_, ?_⟩ <;> rw [last]
      · exact holds.setCache inside' grows' sound'''
      · exact .setCache inside' grows'
      · exact answer right
      · exact fun _ _ _ => rfl
    exact rest.of_later later' (fun _ _ => rfl) (Run.lookupOrCompute_of_pending started compute)

/-! ## Split operations -/

end World

/-- What is expected of the outcome of two operands that are both evaluated. -/
def FollowsBoth (live : Prop) (limit approx limit' approx' : Partial) :
    Outcome (Boxed × Boxed) → Prop
  | .value (v, v') => limit = some (.ok v.value) ∧ limit' = some (.ok v'.value)
  | .jump _ _ => False
  | .fault _ | .exhausted =>
    live → ∀ v v', approx = some (.ok v) → approx' ≠ some (.ok v')

/-- Two outcomes together, each as expected. -/
theorem FollowsBoth.of_both {live : Prop} {limit approx limit' approx' : Partial}
    {o o' : Outcome Boxed} (left : Follows False live limit approx o)
    (right : Follows False live limit' approx' o') :
    FollowsBoth live limit approx limit' approx' (o.both o') := by
  have early : (live → ∀ v, approx ≠ some (.ok v)) →
      live → ∀ v v', approx = some (.ok v) → approx' ≠ some (.ok v') :=
    fun never alive v v' answer => absurd answer (never alive v)
  have late : (live → ∀ v, approx' ≠ some (.ok v)) →
      live → ∀ v v', approx = some (.ok v) → approx' ≠ some (.ok v') :=
    fun never alive v v' _ => never alive v'
  cases o with
  | value v =>
    cases o' with
    | value v' => exact ⟨left, right⟩
    | fault e => exact late right.2
    | jump t u => exact right
    | exhausted => exact late right.2
  | fault e => cases o' <;> exact early left.2
  | jump t u => exact left.elim
  | exhausted => exact early left.2

/-- A run that is put off until some later machine. -/
def World.Pending (w : World) (expected : Outcome Boxed → Prop) (x : Run Boxed) (m : Machine) :
    Prop :=
  ∀ m', w.Holds m' → Later m m' → w.Runs expected x m'

namespace World

variable {w : World} {live : Prop} {m : Machine}

theorem Pending.later {expected : Outcome Boxed → Prop} {x : Run Boxed} {m' : Machine}
    (h : w.Pending expected x m) (later : Later m m') : w.Pending expected x m' :=
  fun m'' holds later' => h m'' holds (later.trans later')

variable {limit approx limit' approx' : Partial} {left right : Run Boxed}

/-- Operands one after the other. -/
theorem runs_sequential (h : w.Holds m) (on : w.options.threading = true) {p : PoolId}
    (named : w.options.pool = some p)
    (first : w.Pending (Follows False live limit approx) left m)
    (second : w.Pending (Follows False live limit' approx') right m) :
    w.Runs (FollowsBoth live limit approx limit' approx') (Run.sequential p left right) m := by
  obtain ⟨inside, whole⟩ := h.pool_named on named
  have counted : w.Runs (FollowsBoth live limit approx limit' approx') (do
      let a ← left
      let b ← right
      pure (a, b)) (m.setPool p (m.pool p).countSequential) := by
    have later : Later m (m.setPool p (m.pool p).countSequential) := .setPool inside rfl
    have holds : w.Holds (m.setPool p (m.pool p).countSequential) := h.setPool inside rfl whole
    refine (first _ holds later).bind (fun a m' ofLeft holds' later' => ?_) ?_ (fun _ _ => id) ?_
    · refine (second m' holds' (later.trans later')).bind
        (fun b m'' ofRight holds'' _ => ?_) ?_ (fun _ _ => id) ?_
      · exact .of_eq holds'' rfl ⟨ofLeft, ofRight⟩
      · rintro e ⟨-, never⟩ alive v v' - answer
        exact never alive v' answer
      · rintro ⟨-, never⟩ alive v v' - answer
        exact never alive v' answer
    · rintro e ⟨-, never⟩ alive v v' answer
      exact absurd answer (never alive v)
    · rintro ⟨-, never⟩ alive v v' answer
      exact absurd answer (never alive v)
  refine counted.of_later (.setPool inside rfl) ?_ rfl
  -- nothing was reserved, so the slots are as before
  intro q named'
  rw [named] at named'
  cases named'
  rw [Machine.pool_setPool inside, if_pos rfl]
  rfl

/-- Two runs of which the second takes place unless the first is out of fuel, whatever becomes of the
first, and of which both outcomes count. -/
theorem runs_inTurn (combine : Outcome Boxed → Outcome Boxed → Outcome (Boxed × Boxed))
    (h : w.Holds m) {x y : Run Boxed} {z : Run (Boxed × Boxed)}
    {expected expected' : Outcome Boxed → Prop} {wanted : Outcome (Boxed × Boxed) → Prop}
    (first : w.Pending expected x m) (second : w.Pending expected' y m)
    (stops : ∀ m', x m = (.exhausted, m') → z m = (.exhausted, m'))
    (goes : ∀ o m', x m = (o, m') → o ≠ .exhausted → z m = (combine o (y m').1, (y m').2))
    (ends : ∀ o o', (combine o o').Ended → o'.Ended)
    (exhausted : expected .exhausted → wanted .exhausted)
    (together : ∀ o o', expected o → expected' o' → wanted (combine o o')) :
    w.Runs wanted z m := by
  obtain ⟨holds, later, outcome, slots⟩ := first m h (.refl m)
  rcases ended : x m with ⟨o, m'⟩
  rw [ended] at holds later outcome slots
  by_cases stopped : o = .exhausted
  · subst stopped
    have same := stops m' ended
    refine ⟨?_, ?_, ?_, ?_⟩ <;> rw [same]
    exacts [holds, later, exhausted outcome, fun impossible => impossible.elim]
  · have going : o.Ended := by cases o <;> trivial
    obtain ⟨holds', later', outcome', slots'⟩ := second m' holds later
    have same := goes o m' ended stopped
    refine ⟨?_, ?_, ?_, ?_⟩ <;> rw [same]
    · exact holds'
    · exact later.trans later'
    · exact together _ _ outcome outcome'
    · intro both p named
      exact (slots' (ends _ _ both) p named).trans (slots going p named)

/-- Operands in either order. -/
theorem runs_both (h : w.Holds m) (rightFirst : Bool)
    (first : w.Pending (Follows False live limit approx) left m)
    (second : w.Pending (Follows False live limit' approx') right m) :
    w.Runs (FollowsBoth live limit approx limit' approx') (Run.both rightFirst left right) m := by
  cases rightFirst with
  | true =>
    -- the operands change places, and with them the outcomes
    refine runs_inTurn (fun o' o => o.both o') h second first ?_ ?_ ?_ ?_ ?_
    · intro m' ended
      simp only [Run.both, if_true, ended]
    · intro o' m' ended going
      simp only [Run.both, if_true, ended]
    · intro o' o both
      cases o <;> trivial
    · intro outcome alive v v' _
      exact outcome.2 alive v'
    · intro o' o ofRight ofLeft
      exact .of_both ofLeft ofRight
  | false =>
    refine runs_inTurn Outcome.both h first second ?_ ?_ ?_ ?_ ?_
    · intro m' ended
      simp only [Run.both, Bool.false_eq_true, if_false, ended]
    · intro o m' ended going
      simp only [Run.both, Bool.false_eq_true, if_false, ended]
    · intro o o' both
      cases o' <;> first | trivial | (cases o <;> exact both)
    · intro outcome alive v v' answer
      exact absurd answer (outcome.2 alive v)
    · intro o o' ofLeft ofRight
      exact .of_both ofLeft ofRight

/-- A run after which two slots are given back, unless it is out of fuel. -/
theorem runs_releasing {x : Run (Boxed × Boxed)} {expected : Outcome (Boxed × Boxed) → Prop}
    (h : w.Runs expected x m) {p : PoolId} (named : w.options.pool = some p)
    (inside : p < (x m).2.pools.size) {n k : Int} (free : (m.pool p).available = .int n)
    (workers : (m.pool p).workers = .int k) (fits : n + 2 ≤ k) :
    let r := Run.releasing p WorkerPool.splitSlots x m
    w.Holds r.2 ∧ Later m r.2 ∧ expected r.1 ∧
      (r.1.Ended → (r.2.pool p).available = .int (n + 2)) := by
  obtain ⟨holds, later, outcome, slots⟩ := h
  rcases ended : x m with ⟨o, m'⟩
  rw [ended] at holds later outcome slots inside
  by_cases stopped : o = .exhausted
  · subst stopped
    have same : Run.releasing p WorkerPool.splitSlots x m = (.exhausted, m') := by
      unfold Run.releasing
      rw [ended]
    rw [same]
    exact ⟨holds, later, outcome, fun impossible => impossible.elim⟩
  · have going : o.Ended := by cases o <;> trivial
    have left : (m'.pool p).available = .int n := (slots going p named).trans free
    have same := Run.releasing_int ended stopped left
    have kept : (m'.pool p).workers = .int k := (later.workers p).trans workers
    rw [same]
    refine ⟨holds.setPool inside rfl ⟨n + 2, k, rfl, kept, fits⟩, later.trans (.setPool inside rfl),
      outcome, fun _ => ?_⟩
    rw [Machine.pool_setPool inside, if_pos rfl]

/-- The tasks of a split: a worker is given one, and both operands are run. -/
theorem runs_tasks (h : w.Holds m) (on : w.options.threading = true) {p : PoolId}
    (named : w.options.pool = some p) {k : Int} (workers : (m.pool p).workers = .int k) (staffed : 0 < k)
    (rightFirst : Bool) (first : w.Pending (Follows False live limit approx) left m)
    (second : w.Pending (Follows False live limit' approx') right m) :
    w.Runs (FollowsBoth live limit approx limit' approx') (do
      Run.submit p
      Run.both rightFirst left right) m := by
  obtain ⟨inside, whole⟩ := h.pool_named on named
  let counted : PoolStats := { (m.pool p).stats with submitted := (m.pool p).stats.submitted + 1 }
  let submitted : WorkerPool := { m.pool p with stats := counted }
  have later : Later m (m.setPool p submitted) := .setPool inside rfl
  have holds : w.Holds (m.setPool p submitted) := h.setPool inside rfl whole
  have submits : Run.submit p m = (.value (), m.setPool p submitted) := Run.submit_int workers staffed
  refine (w.runs_both holds rightFirst (first.later later) (second.later later)).of_later later ?_
    (Run.bind_of_value submits)
  intro q named'
  rw [named] at named'
  cases named'
  rw [Machine.pool_setPool inside, if_pos rfl]

/-- A split whose two slots have been taken. It gives them back, unless it is out of fuel. -/
theorem runs_split (h : w.Holds m) (on : w.options.threading = true) {p : PoolId}
    (named : w.options.pool = some p) {n k : Int} (free : (m.pool p).available = .int n)
    (workers : (m.pool p).workers = .int k) (fits : n + 2 ≤ k) (staffed : 0 < k)
    (first : w.Pending (Follows False live limit approx) left m)
    (second : w.Pending (Follows False live limit' approx') right m) :
    let r := Run.split p left right m
    w.Holds r.2 ∧ Later m r.2 ∧ FollowsBoth live limit approx limit' approx' r.1 ∧
      (r.1.Ended → (r.2.pool p).available = .int (n + 2)) := by
  obtain ⟨inside, whole⟩ := h.pool_named on named
  let rightFirst := (m.pool p).rightFirst (m.pool p).stats.parallel
  have begun : Later m (m.setPool p (m.pool p).countParallel) := .setPool inside rfl
  have holds : w.Holds (m.setPool p (m.pool p).countParallel) := h.setPool inside rfl whole
  have pool : (m.setPool p (m.pool p).countParallel).pool p = (m.pool p).countParallel := by
    rw [Machine.pool_setPool inside, if_pos rfl]
  have tasks := w.runs_tasks holds on named (by rw [pool]; exact workers) staffed rightFirst
    (first.later begun) (second.later begun)
  obtain ⟨holds', later, outcome, slots⟩ := w.runs_releasing tasks named
    (tasks.holds.pool_named on named).1 (by rw [pool]; exact free) (by rw [pool]; exact workers) fits
  have same : Run.split p left right m = Run.releasing p WorkerPool.splitSlots (do
      Run.submit p
      Run.both rightFirst left right) (m.setPool p (m.pool p).countParallel) := rfl
  rw [same]
  exact ⟨holds', begun.trans later, outcome, slots⟩

/-- Operands of which a worker takes one, if slots are free, and one after the other if not. The slots
of a split are given back. -/
theorem runs_operands (h : w.Holds m) (on : w.options.threading = true) {p : PoolId}
    (named : w.options.pool = some p)
    (first : w.Pending (Follows False live limit approx) left m)
    (second : w.Pending (Follows False live limit' approx') right m) :
    w.Runs (FollowsBoth live limit approx limit' approx') (Run.operands (some p) left right) m := by
  obtain ⟨inside, n, k, free, workers, fits⟩ := h.pool_named on named
  have reserved := Run.reserve_int free
  by_cases enough : (2 : Int) < n
  · rw [if_pos enough] at reserved
    let taken : WorkerPool := { m.pool p with available := .int (n - 2) }
    have later : Later m (m.setPool p taken) := .setPool inside rfl
    have holds : w.Holds (m.setPool p taken) :=
      h.setPool inside rfl ⟨n - 2, k, rfl, workers, by omega⟩
    have pool : (m.setPool p taken).pool p = taken := by rw [Machine.pool_setPool inside, if_pos rfl]
    obtain ⟨holds', later', outcome, slots⟩ := w.runs_split holds on named (by rw [pool])
      (by rw [pool]; exact workers) (by omega) (by omega) (first.later later) (second.later later)
    have same : Run.operands (some p) left right m = Run.split p left right (m.setPool p taken) :=
      Run.bind_of_value reserved
    rw [← same] at holds' later' outcome slots
    refine ⟨holds', later.trans later', outcome, fun ended q named' => ?_⟩
    rw [named] at named'
    cases named'
    rw [slots ended, free, Int.sub_add_cancel]
  · rw [if_neg enough] at reserved
    have same : Run.operands (some p) left right m = Run.sequential p left right m :=
      Run.bind_of_value reserved
    exact (w.runs_sequential h on named first second).of_later (.refl m) (fun _ _ => rfl) same

/-- A split operation on two pending operands. -/
theorem runs_splitBinary (h : w.Holds m) (on : w.options.threading = true) {p : PoolId}
    (named : w.options.pool = some p) {op : BinaryOp} {s : ValueType}
    (splittable : op.splittable = true) (quiet : live → op.isShortCircuit = false)
    (typed : ∀ {v}, limit = some (.ok v) → v.hasType s = true) (below : approx.Below limit)
    (below' : approx'.Below limit')
    (first : w.Pending (Follows False live limit approx) left m)
    (second : w.Pending (Follows False live limit' approx') right m) :
    w.Runs (Follows False live (op.join limit limit') (op.join approx approx'))
      (Run.splitBinary op left right (some p)) m := by
  unfold Run.splitBinary
  rw [if_pos splittable]
  -- a strict operator has no value unless both operands have one
  have never : (live → ∀ v v', approx = some (.ok v) → approx' ≠ some (.ok v')) →
      live → ∀ v, op.join approx approx' ≠ some (.ok v) := by
    intro early alive v answer
    obtain ⟨u, u', ofLeft, ofRight, -⟩ := BinaryOp.join_eq_ok_of_strict (quiet alive) answer
    exact early alive u u' ofLeft ofRight
  refine (w.runs_operands h on named first second).bind ?_
    (fun e early => ⟨False.elim, never early⟩) (fun _ _ => id)
    (fun early => ⟨False.elim, never early⟩)
  rintro ⟨a, b⟩ m' ⟨ofLeft, ofRight⟩ holds' -
  have joined : op.join limit limit' = some (op.apply a.value b.value) := by
    rw [ofLeft, ofRight]
    exact op.join_values (typed ofLeft) b.value
  rw [joined]
  refine (w.runs_boxResult holds' _).weaken fun o expected => expected.lower ?_
  rw [← joined]
  exact op.join_below below below'

end World

end Knot
