import Knot.Proofs.FirstOrder.Marking
import Knot.Proofs.Scopes
import Knot.Proofs.Tables

/-!
# Machines that hold compiled definitions

`Installed` is a compiled first-order definition: the closure that its recursive calls go to, the
frame that binds it, and the body. `World.Holds` is what is invariant while such closures run:

* every closure is where it was put, and is bound where its body looks for it;
* every entry of the memo cache is an answer of the definition that it belongs to;
* the pool counts whole slots, no more of them free than there are workers.

`Later` relates a machine to a later one in the same call: tables have only grown, and nothing that a
frame shows has changed. `World.Runs` joins both into a judgement on runs, with what is expected of
the outcome, and that a run that ends leaves as many slots free as it found.
-/

namespace Knot

/-! ## Compiled definitions -/

/-- A compiled first-order definition. -/
structure Installed (o : CompileOptions) where
  definition : FirstOrderDefinition
  /-- The variable that the recursive calls look up. -/
  bound : Parameter
  /-- The closure that it is bound to. -/
  closure : Nat
  /-- The frame that binds it. -/
  frame : FrameId
  body : Expr
  apart : definition.argument.uid ≠ bound.uid
  kernel : Kernel o (definition.body.connectsNoCalls = true) bound definition.argument
    definition.domain definition.codomain body definition.codomain
  meaning : SameMeaning definition.domain definition.codomain body definition.body

/-- The cache and the pool that the marks of a compilation go to. -/
def CompileOptions.context (o : CompileOptions) : Context := ⟨o.cache, o.pool⟩

namespace Installed

variable {o : CompileOptions}

/-- A frame shows the closure under the variable of the recursive calls. -/
def BoundIn (i : Installed o) (frame : Nat) (m : Machine) : Prop :=
  frame < m.frames.frames.size ∧
    ∃ box, m.frames.lookup frame i.bound.uid = some box ∧ box.value = .closure i.closure

/-- The closure is there, and bound in its frame. -/
structure In (i : Installed o) (m : Machine) : Prop where
  function : m.functions[i.closure]? =
    some (.closure [i.definition.argument.uid] i.body i.frame o.context)
  bound : i.BoundIn i.frame m

/-- A body is being evaluated in the frame: it shows the closure and the argument. -/
structure Scope (i : Installed o) (a : Value) (frame : Nat) (m : Machine) : Prop where
  bound : i.BoundIn frame m
  argument : ∃ box, m.frames.lookup frame i.definition.argument.uid = some box ∧ box.value = a

end Installed

/-! ## Pools -/

/-- A pool that counts whole slots, no more of them free than there are workers. -/
def WorkerPool.Whole (p : WorkerPool) : Prop :=
  ∃ n k : Int, p.available = .int n ∧ p.workers = .int k ∧ n ≤ k

/-! ## The invariant -/

/-- The definitions compiled with one choice of options. -/
structure World where
  options : CompileOptions
  members : List (Installed options)

namespace World

/-- An answer of the definition that a closure belongs to. -/
def Answers (w : World) (closure : Nat) (a r : Value) : Prop :=
  ∃ i ∈ w.members, i.closure = closure ∧ a.hasType i.definition.domain = true ∧
    i.definition.limit a = some (.ok r)

/-- The closures of a world are there, its cache holds answers only, and its pool is in order. -/
structure Holds (w : World) (m : Machine) : Prop where
  installed : ∀ i ∈ w.members, i.In m
  distinct : ∀ i ∈ w.members, ∀ j ∈ w.members, i.closure = j.closure → i = j
  cache : w.options.caching = true →
    ∃ c, w.options.cache = some c ∧ c < m.caches.size ∧ (m.cache c).Sound w.Answers
  pool : w.options.threading = true →
    ∃ p, w.options.pool = some p ∧ p < m.pools.size ∧ (m.pool p).Whole

/-- The pool of the splits is there, and counts whole slots. -/
theorem Holds.pool_named {w : World} {m : Machine} (h : w.Holds m) (on : w.options.threading = true)
    {p : PoolId} (named : w.options.pool = some p) : p < m.pools.size ∧ (m.pool p).Whole := by
  obtain ⟨q, named', inside, whole⟩ := h.pool on
  cases named.symm.trans named'
  exact ⟨inside, whole⟩

end World

/-! ## Later machines -/

/-- What a call leaves as it is: functions and what frames show, the settings, the sizes of pools;
and caches have only grown. -/
structure Later (m m' : Machine) : Prop where
  functions : ∀ (k : Nat) c, m.functions[k]? = some c → m'.functions[k]? = some c
  frames : m.frames.frames.size ≤ m'.frames.frames.size
  lookup : ∀ f < m.frames.frames.size, ∀ u, m'.frames.lookup f u = m.frames.lookup f u
  caches : ∀ c, (m.cache c).Grows (m'.cache c)
  settings : m'.settings = m.settings
  workers : ∀ p, (m'.pool p).workers = (m.pool p).workers

namespace Later

theorem refl (m : Machine) : Later m m :=
  ⟨fun _ _ => id, Nat.le_refl _, fun _ _ _ => rfl, fun _ => .refl _, rfl, fun _ => rfl⟩

theorem trans {m m' m'' : Machine} (first : Later m m') (second : Later m' m'') : Later m m'' where
  functions k c found := second.functions k c (first.functions k c found)
  frames := Nat.le_trans first.frames second.frames
  lookup f old u := by
    rw [second.lookup f (Nat.lt_of_lt_of_le old first.frames) u, first.lookup f old u]
  caches _ := (first.caches _).trans (second.caches _)
  settings := second.settings.trans first.settings
  workers p := (second.workers p).trans (first.workers p)

/-- A step that touches caches only, and lets them grow. -/
theorem setCache {m : Machine} {c : CacheId} (inside : c < m.caches.size) {value : MemoCache}
    (grows : (m.cache c).Grows value) : Later m (m.setCache c value) where
  functions _ _ := id
  frames := Nat.le_refl _
  lookup _ _ _ := rfl
  caches d := by
    rw [Machine.cache_setCache inside]
    by_cases same : d = c
    · subst same
      rw [if_pos rfl]
      exact grows
    · rw [if_neg same]
      exact .refl _
  settings := rfl
  workers _ := rfl

/-- A step that touches the counts and the free slots of a pool only. -/
theorem setPool {m : Machine} {p : PoolId} (inside : p < m.pools.size) {value : WorkerPool}
    (same : value.workers = (m.pool p).workers) : Later m (m.setPool p value) where
  functions _ _ := id
  frames := Nat.le_refl _
  lookup _ _ _ := rfl
  caches _ := .refl _
  settings := rfl
  workers q := by
    rw [Machine.pool_setPool inside]
    by_cases here : q = p
    · rw [if_pos here, here, same]
    · rw [if_neg here]

/-- A new frame. -/
theorem push (m : Machine) (parent : Option FrameId) (bindings : List (Nat × Boxed)) :
    Later m { m with frames := (m.frames.push parent bindings).2 } where
  functions _ _ := id
  frames := by
    unfold Frames.push
    simp only [Array.size_push]
    omega
  lookup f old u := Frames.lookup_push_old parent bindings old u
  caches _ := .refl _
  settings := rfl
  workers _ := rfl

/-- A new function. -/
theorem addFunction (m : Machine) (c : Callable) :
    Later m { m with functions := m.functions.push c } where
  functions k c found := by
    have inside := (Array.getElem?_eq_some_iff.1 found).1
    rw [Array.getElem?_push, if_neg (Nat.ne_of_lt inside), found]
  frames := Nat.le_refl _
  lookup _ _ _ := rfl
  caches _ := .refl _
  settings := rfl
  workers _ := rfl

/-- A message. -/
theorem log (m : Machine) (messages : Array String) : Later m { m with log := messages } :=
  ⟨fun _ _ => id, Nat.le_refl _, fun _ _ _ => rfl, fun _ => .refl _, rfl, fun _ => rfl⟩

/-- A step that only takes the identity of a new box. -/
theorem box (m : Machine) (n : Nat) : Later m { m with nextIdentity := n } :=
  ⟨fun _ _ => id, Nat.le_refl _, fun _ _ _ => rfl, fun _ => .refl _, rfl, fun _ => rfl⟩

end Later

namespace Installed

variable {o : CompileOptions} {i : Installed o} {m m' : Machine}

theorem BoundIn.later {frame : Nat} (h : i.BoundIn frame m) (later : Later m m') :
    i.BoundIn frame m' := by
  obtain ⟨old, box, found, value⟩ := h
  exact ⟨Nat.lt_of_lt_of_le old later.frames, box, by rw [later.lookup frame old]; exact found, value⟩

theorem In.later (h : i.In m) (later : Later m m') : i.In m' :=
  ⟨later.functions _ _ h.function, h.bound.later later⟩

theorem Scope.later {a : Value} {frame : Nat} (h : i.Scope a frame m) (later : Later m m') :
    i.Scope a frame m' := by
  obtain ⟨box, found, value⟩ := h.argument
  exact ⟨h.bound.later later, box, by rw [later.lookup frame h.bound.1]; exact found, value⟩

end Installed

/-- A world without members asks for an unused cache and a pool in order only. -/
theorem World.Holds.start {o : CompileOptions} {m : Machine}
    (cache : o.caching = true → ∃ c, o.cache = some c ∧ m.caches[c]? = some .empty)
    (pool : o.threading = true →
      ∃ p, o.pool = some p ∧ ∃ pool, m.pools[p]? = some pool ∧ pool.Whole) :
    (World.mk o []).Holds m where
  installed i member := absurd member List.not_mem_nil
  distinct i member := absurd member List.not_mem_nil
  cache caching := by
    obtain ⟨c, named, unused⟩ := cache caching
    refine ⟨c, named, (Array.getElem?_eq_some_iff.1 unused).1, ?_⟩
    unfold Machine.cache
    rw [unused]
    exact .unused
  pool threading := by
    obtain ⟨p, named, pool, there, whole⟩ := pool threading
    refine ⟨p, named, (Array.getElem?_eq_some_iff.1 there).1, ?_⟩
    unfold Machine.pool
    rw [there]
    exact whole

/-- The invariant of a later machine with the caches and the pools of the earlier one. -/
theorem World.Holds.later {w : World} {m m' : Machine} (h : w.Holds m) (later : Later m m')
    (caches : m'.caches = m.caches) (pools : m'.pools = m.pools) : w.Holds m' where
  installed i member := (h.installed i member).later later
  distinct := h.distinct
  cache on := by
    obtain ⟨c, named, inside, sound⟩ := h.cache on
    refine ⟨c, named, by rw [caches]; exact inside, ?_⟩
    unfold Machine.cache at sound ⊢
    rw [caches]
    exact sound
  pool on := by
    obtain ⟨p, named, inside, whole⟩ := h.pool on
    refine ⟨p, named, by rw [pools]; exact inside, ?_⟩
    unfold Machine.pool at whole ⊢
    rw [pools]
    exact whole

/-- The invariant after a change of a pool that leaves it in order. -/
theorem World.Holds.setPool {w : World} {m : Machine} (h : w.Holds m) {p : PoolId}
    (inside : p < m.pools.size) {value : WorkerPool} (same : value.workers = (m.pool p).workers)
    (whole : value.Whole) : w.Holds (m.setPool p value) where
  installed i member := (h.installed i member).later (.setPool inside same)
  distinct := h.distinct
  cache on := h.cache on
  pool on := by
    obtain ⟨q, named, inside', whole'⟩ := h.pool on
    refine ⟨q, named, by simpa [Machine.setPool] using inside', ?_⟩
    rw [Machine.pool_setPool inside]
    split
    · exact whole
    · exact whole'

/-- The invariant after a step of the cache that leaves it sound. -/
theorem World.Holds.setCache {w : World} {m : Machine} (h : w.Holds m) {c : CacheId}
    (inside : c < m.caches.size) {value : MemoCache} (grows : (m.cache c).Grows value)
    (sound : value.Sound w.Answers) : w.Holds (m.setCache c value) where
  installed i member := (h.installed i member).later (.setCache inside grows)
  distinct := h.distinct
  cache on := by
    obtain ⟨d, named, inside', sound'⟩ := h.cache on
    refine ⟨d, named, by simpa [Machine.setCache] using inside', ?_⟩
    rw [Machine.cache_setCache inside]
    split
    · exact sound
    · exact sound'
  pool on := h.pool on

end Knot
