import Knot.Proofs.Caching.Statistics

/-!
# Arguments that are no keys

A lookup for an argument that is no key, a list, cannot come to a result. When it ends depends on whether the
current generation knows the function (`Generation.Knows`):

* a known function is looked for together with the argument, so the lookup is refused at once. Nothing is
  computed, and the cache is as it was;
* another function is registered and the lookup counted as a miss. The result is computed, and only when it
  is to be stored is the argument refused.

A generation knows the functions that have been looked up in it, whatever has become of the lookups, and no
function that none of them meets (`CacheRun.registered_run`). `CacheRun.keyless_lookup` puts this together.
-/

namespace Knot

/-! ## Functions that are known -/

namespace Key

variable {α : Type} {sought : Key} {entries : List (Key × α)}

/-- What is not found meets no key. -/
theorem place?_eq_none_iff :
    sought.place? entries = .ok none ↔ ∀ k ∈ entries.map Prod.fst, k.meets sought = .ok false := by
  induction entries with
  | nil => simp [place?]
  | cons head rest ih =>
    obtain ⟨stored, a⟩ := head
    rw [place?_cons_eq_none, ih, List.map_cons, List.forall_mem_cons]

end Key

namespace Generation

variable {g g' : Generation} {function : Boxed}

/-- Whether a lookup of a function finds a table, or fails where it is looked for. -/
def Knows (g : Generation) (function : Boxed) : Prop :=
  ∀ k, function.key? = some k → g.place? k ≠ .ok none

/-- What is no key is refused before it could be unknown. -/
theorem Knows.of_keyless (keyless : function.key? = none) (g : Generation) : g.Knows function := by
  intro k key
  rw [keyless] at key
  cases key

theorem Knows.of_place {k : Key} {place : Nat} (key : function.key? = some k)
    (placed : g.place? k = .ok (some place)) : g.Knows function := by
  intro k' key' absent
  cases key.symm.trans key'
  rw [placed] at absent
  cases absent

/-- A function stays known while the generation grows. -/
theorem Knows.later (h : g.Knows function) (later : g.Extends g') : g'.Knows function := by
  intro k key absent
  have apart := Key.place?_eq_none_iff.1 absent
  exact h k key (Key.place?_eq_none_iff.2 fun k' member => apart k' (later.functions.mem member))

/-- A function that is unknown has a key, and there is no table for it. -/
theorem not_knows_iff : ¬g.Knows function ↔ ∃ k, function.key? = some k ∧ g.place? k = .ok none := by
  unfold Knows
  push Not
  rfl

end Generation

/-! ## The two steps of a lookup -/

namespace MemoCache

variable {c c' : MemoCache} {function argument : Boxed}

/-- What is no key is not the absent value. -/
theorem isAbsent_of_keyless (keyless : argument.key? = none) : isAbsent argument = false := by
  unfold isAbsent
  split
  next absent =>
    unfold Boxed.key? at keyless
    rw [absent] at keyless
    cases keyless
  next => rfl

/-- Whether a step makes a function known in the current generation, and registers no other one. -/
structure Registers (c c' : MemoCache) (function : Boxed) : Prop where
  knows : (c'.generation c.current).Knows function
  only : ∀ n, ∀ k ∈ (c'.generation n).tables.map Prod.fst,
    k ∈ (c.generation n).tables.map Prod.fst ∨ (n = c.current ∧ function.key? = some k)

/-- The first step of a lookup registers its function, unless it is bypassed. -/
theorem start_registers (inside : c.current < c.generations.size) {begun : Begun}
    (done : c.start function argument = .ok (begun, c')) (counted : begun ≠ .bypassed) :
    c.Registers c' function := by
  -- a step that finds the table of the function leaves all as it was
  have found {k : Key} {place : Nat} (same : c'.generations = c.generations)
      (key : keyOf function = .ok k) (placed : c.latest.place? k = .ok (some place)) :
      c.Registers c' function := by
    have alike : ∀ n, c'.generation n = c.generation n := by
      intro n
      rw [MemoCache.generation, same]
      rfl
    refine ⟨?_, fun n k member => ?_⟩
    · rw [alike]
      exact .of_place (keyOf_eq_ok.1 key) placed
    · rw [alike] at member
      exact .inl member
  rcases start_cases done with ⟨bypassed, -⟩ | ⟨r, -, same, held⟩ | ⟨place, -, same, k, key, placed⟩ |
    ⟨k, -, key, absent, new⟩
  · exact absurd bypassed counted
  · obtain ⟨k, place, -, key, placed, -⟩ := Generation.held_eq_some.1 held
    exact found same key placed
  · exact found same key placed
  · have generation : ∀ n, c'.generation n =
        if n = c.current then c.latest.register k else c.generation n := by
      intro n
      rw [MemoCache.generation, new]
      exact generation_modify inside _ n
    refine ⟨?_, fun n k' member => ?_⟩
    · rw [generation, if_pos rfl]
      exact .of_place (keyOf_eq_ok.1 key) (Key.place?_append_self k.meets_self absent [])
    · rw [generation] at member
      split at member
      next here =>
        subst here
        rw [Generation.register, List.map_append] at member
        rcases List.mem_append.1 member with old | last
        · exact .inl old
        · rw [List.mem_singleton.1 last]
          exact .inr ⟨rfl, keyOf_eq_ok.1 key⟩
      next => exact .inl member

/-- A lookup that is bypassed changes no generation. -/
theorem generations_of_bypassed (done : c.start function argument = .ok (.bypassed, c')) :
    c'.generations = c.generations := by
  rcases start_cases done with ⟨-, same⟩ | ⟨r, other, -⟩ | ⟨place, other, -⟩ | ⟨k, other, -⟩
  · exact same
  · cases other
  · cases other
  · cases other

/-- A lookup is refused at its first step only if its function is known already. -/
theorem registers_of_refused {fault : Fault} (refused : c.start function argument = .error fault) :
    c.Registers c function := by
  refine ⟨?_, fun _ _ old => .inl old⟩
  show c.latest.Knows function
  by_contra unknown
  obtain ⟨k, key, absent⟩ := Generation.not_knows_iff.1 unknown
  unfold start at refused
  split at refused
  · cases refused
  · rw [keyOf_eq_ok.2 key] at refused
    simp only [bind, Except.bind, absent] at refused
    cases refused

/-- The second step registers no function. -/
theorem finish_functions {t : Ticket} {r kept : Boxed} (leads : c.Leads t function)
    (done : c.finish t r = .ok (kept, c')) (n : Nat) :
    (c'.generation n).tables.map Prod.fst = (c.generation n).tables.map Prod.fst := by
  obtain ⟨a, -, ⟨-, same⟩ | ⟨-, -, same⟩⟩ := finish_cases done
  · rw [MemoCache.generation, same]
    rfl
  · have generation := generation_modify leads.inside.2 (fun g => g.insert t.place a r) n
    rw [MemoCache.generation, same]
    unfold MemoCache.generation at generation ⊢
    rw [generation]
    split
    next here =>
      subst here
      exact Generation.functions_insert _ _ _ _
    next => rfl

end MemoCache

/-! ## The functions of a run -/

namespace CacheRun

variable {s : CacheRun}

/-- Whether each generation knows the functions of its lookups, and has no other ones. -/
structure Registered (s : CacheRun) : Prop where
  known : ∀ l ∈ s.lookups, (s.cache.generation l.generation).Knows l.function
  owned : ∀ n, ∀ k ∈ (s.cache.generation n).tables.map Prod.fst,
    ∃ l ∈ s.lookups, l.generation = n ∧ l.function.key? = some k

namespace Registered

theorem unused : CacheRun.unused.Registered := by
  refine ⟨List.forall_mem_nil _, fun n k member => ?_⟩
  have nothing : CacheRun.unused.cache.generation n = .empty := by cases n <;> rfl
  rw [nothing] at member
  cases member

/-- Only the generations count. -/
theorem kept (h : s.Registered) {c : MemoCache} (same : c.generations = s.cache.generations) :
    CacheRun.Registered ⟨c, s.lookups⟩ := by
  have alike : ∀ n, c.generation n = s.cache.generation n := by
    intro n
    rw [MemoCache.generation, same]
    rfl
  refine ⟨fun l member => ?_, fun n k member => ?_⟩
  · exact (alike _).symm ▸ h.known l member
  · exact h.owned n k (alike n ▸ member)

/-- A lookup that begins registers its own function. -/
theorem began (h : s.Registered) {c : MemoCache} (later : s.cache.Extends c) {function : Boxed}
    (registers : s.cache.Registers c function) (argument : Boxed) (stage : Stage) :
    (s.began c function argument stage).Registered := by
  refine ⟨fun l member => ?_, fun n k member => ?_⟩
  · rcases List.mem_append.1 member with old | new
    · exact (h.known l old).later (later.generation _)
    · rw [List.mem_singleton.1 new]
      exact registers.knows
  · rcases registers.only n k member with old | ⟨rfl, key⟩
    · obtain ⟨l, present, mine⟩ := h.owned n k old
      exact ⟨l, List.mem_append_left _ present, mine⟩
    · exact ⟨_, List.mem_append_right _ (List.mem_singleton.2 rfl), rfl, key⟩

/-- A lookup that ends registers nothing. -/
theorem ended (h : s.Registered) {c : MemoCache} (later : s.cache.Extends c)
    (same : ∀ n, (c.generation n).tables.map Prod.fst = (s.cache.generation n).tables.map Prod.fst)
    (i : Nat) (stage : Stage) : (s.ended c i stage).Registered := by
  refine ⟨fun l member => ?_, fun n k member => ?_⟩
  · obtain ⟨j, there⟩ := List.mem_iff_getElem?.1 member
    rw [lookups_ended] at there
    split at there
    · obtain ⟨o, before, rfl⟩ := Option.map_eq_some_iff.1 there
      exact (h.known o (List.mem_of_getElem? before)).later (later.generation _)
    · exact (h.known l (List.mem_of_getElem? there)).later (later.generation _)
  · have before : k ∈ (s.cache.generation n).tables.map Prod.fst := same n ▸ member
    obtain ⟨l, present, generation, key⟩ := h.owned n k before
    obtain ⟨j, there⟩ := List.mem_iff_getElem?.1 present
    -- the lookup is there still, at another stage perhaps
    by_cases here : i = j
    · refine ⟨{ l with stage := stage }, List.mem_iff_getElem?.2 ⟨j, ?_⟩, generation, key⟩
      rw [lookups_ended, if_pos here, there]
      rfl
    · refine ⟨l, List.mem_iff_getElem?.2 ⟨j, ?_⟩, generation, key⟩
      rw [lookups_ended, if_neg here, there]

/-- A step registers the function of the lookup that it begins. -/
theorem step (h : s.Registered) (bound : s.Bound) (x : CacheEvent) : (s.step x).Registered := by
  have later := (bound.step x).2
  have failing (i : Nat) : (s.ended s.cache i .failed).Registered :=
    h.ended (.refl _) (fun _ => rfl) i .failed
  -- each event that has to do with a lookup leads to one of the lemmas `began`, `ended` and `kept`
  cases x with
  | start f a =>
    cases done : s.cache.start f a with
    | error fault =>
      have next : s.step (.start f a) = s.began s.cache f a .failed := by
        simp only [CacheRun.step, done]
      rw [next]
      exact h.began (.refl _) (MemoCache.registers_of_refused done) a _
    | ok result =>
      obtain ⟨begun, c⟩ := result
      have grows := MemoCache.start_extends done
      cases begun with
      | bypassed =>
        have next : s.step (.start f a) = ⟨c, s.lookups⟩ := by simp only [CacheRun.step, done]
        rw [next]
        exact h.kept (MemoCache.generations_of_bypassed done)
      | hit r =>
        have next : s.step (.start f a) = s.began c f a (.returned r) := by
          simp only [CacheRun.step, done]
        rw [next]
        exact h.began grows (MemoCache.start_registers bound.inside done (by rintro ⟨⟩)) a _
      | pending t =>
        have next : s.step (.start f a) = s.began c f a (.pending t) := by
          simp only [CacheRun.step, done]
        rw [next]
        exact h.began grows (MemoCache.start_registers bound.inside done (by rintro ⟨⟩)) a _
  | finish i r =>
    rcases step_finish_cases s i r with same | ⟨l, t, found, pending, failed | ⟨kept, c, done, next⟩⟩
    · rwa [same]
    · exact failed ▸ failing i
    · obtain ⟨-, -, leads⟩ := (bound.lookups l (List.mem_of_getElem? found)).pending t pending
      rw [next]
      exact h.ended (MemoCache.finish_extends leads done) (MemoCache.finish_functions leads done) i _
  | fail i =>
    rcases step_fail_cases s i with same | ⟨l, t, -, -, next⟩
    · rwa [same]
    · exact next ▸ failing i
  | reset =>
    refine ⟨fun l member => ?_, fun n k member => ?_⟩
    · exact (h.known l member).later (later.generation _)
    · rw [CacheRun.step, MemoCache.generation_reset] at member
      exact h.owned n k member

/-- And so do several steps. -/
theorem foldl (h : s.Registered) (bound : s.Bound) (events : List CacheEvent) :
    (events.foldl CacheRun.step s).Registered := by
  induction events generalizing s with
  | nil => exact h
  | cons x events ih => exact ih (h.step bound x) (bound.step x).1

end Registered

/-- In every run the functions that a generation knows are those of its lookups. -/
theorem registered_run (events : List CacheEvent) : (run events).Registered :=
  Registered.unused.foldl .unused events

end CacheRun

/-! ## Lookups that are refused -/

namespace MemoCache

variable {c : MemoCache} {function argument : Boxed}

/-- The cache in which a lookup of a new function has begun. -/
def registering (c : MemoCache) (k : Key) : MemoCache :=
  (c.counting fun s => { s with misses := s.misses + 1 }).modify c.current fun g => g.register k

/-- It has counted a miss, knows one function more, and keeps no other results. -/
theorem registering_counts (inside : c.current < c.generations.size) (k : Key) :
    (c.registering k).stats = { c.stats with misses := c.stats.misses + 1 } ∧
      (c.registering k).functions = c.functions + 1 ∧ (c.registering k).size = c.size := by
  have current : (c.registering k).current = c.current := by
    simp [registering, MemoCache.current, MemoCache.modify, counting]
  have latest : (c.registering k).latest = c.latest.register k := by
    unfold MemoCache.latest
    rw [current]
    exact (generation_modify (c := c.counting _) inside _ _).trans (if_pos rfl)
  refine ⟨rfl, ?_, ?_⟩
  · unfold MemoCache.functions
    rw [latest]
    simp [Generation.functions, Generation.register]
  · unfold MemoCache.size
    rw [latest, Generation.size_register]

/-- A lookup for what is no key is refused at its first step if the function is known, and it is of the
wrong kind unless the function could not be compared. -/
theorem start_of_known (present : isAbsent function = false) (keyless : argument.key? = none)
    (knows : c.latest.Knows function) :
    ∃ fault, c.start function argument = .error fault ∧
      ((∀ k, function.key? = some k → ∀ t ∈ c.latest.tables, t.1.Answers k) → fault = .wrongKind) := by
  have refuses : keyOf argument = .error .wrongKind := by simp only [keyOf, keyless]
  unfold start
  rw [present, isAbsent_of_keyless keyless, if_neg (by decide)]
  cases key : function.key? with
  | none =>
    have unusable : keyOf function = .error .wrongKind := by simp only [keyOf, key]
    rw [unusable]
    exact ⟨.wrongKind, rfl, fun _ => rfl⟩
  | some k =>
    rw [keyOf_eq_ok.2 key]
    -- the argument is looked at last, so a fault of the function comes first
    cases placed : c.latest.place? k with
    | error fault =>
      refine ⟨fault, by simp only [bind, Except.bind, placed], fun answers => ?_⟩
      obtain ⟨found, other⟩ := Key.place?_of_answers (answers k rfl)
      have other : c.latest.place? k = .ok found := other
      rw [placed] at other
      cases other
    | ok found =>
      cases found with
      | none => exact absurd placed (knows k key)
      | some place =>
        exact ⟨.wrongKind, by simp only [bind, Except.bind, placed, refuses], fun _ => rfl⟩

/-- A function that is unknown is registered whatever the argument. -/
theorem start_of_unknown (present : isAbsent function = false) (keyless : argument.key? = none)
    {k : Key} (key : function.key? = some k) (absent : c.latest.place? k = .ok none) :
    c.start function argument =
      .ok (.pending ⟨c.current, c.latest.functions, argument⟩, c.registering k) := by
  unfold start
  rw [present, isAbsent_of_keyless keyless, if_neg (by decide), keyOf_eq_ok.2 key]
  simp only [bind, Except.bind, absent]
  rfl

/-- What is no key is refused when a result is brought for it. -/
theorem finish_of_keyless {t : Ticket} (keyless : t.argument.key? = none) (r : Boxed) :
    c.finish t r = .error .wrongKind := by
  unfold finish
  simp only [keyOf, keyless]
  rfl

end MemoCache

namespace Run

variable {c : CacheId} {m : Machine} {function argument : Boxed}

/-- The lookup of an unknown function begins with a miss and one function more, and is refused once the result
has been computed. -/
theorem lookupOrCompute_of_unknown (present : MemoCache.isAbsent function = false)
    (keyless : argument.key? = none) (inside : (m.cache c).current < (m.cache c).generations.size)
    (unknown : ¬(m.cache c).latest.Knows function) :
    ∃ cache : MemoCache, cache.stats =
        { (m.cache c).stats with misses := (m.cache c).stats.misses + 1 } ∧
      cache.functions = (m.cache c).functions + 1 ∧ cache.size = (m.cache c).size ∧
      ∀ compute, lookupOrCompute c function argument compute m =
        (compute >>= fun _ => Run.fail .wrongKind) (m.setCache c cache) := by
  obtain ⟨k, key, absent⟩ := Generation.not_knows_iff.1 unknown
  obtain ⟨stats, functions, size⟩ := MemoCache.registering_counts inside k
  refine ⟨_, stats, functions, size, fun compute => ?_⟩
  let t : Ticket := ⟨(m.cache c).current, (m.cache c).latest.functions, argument⟩
  have goes : lookupOrCompute c function argument compute m =
      (compute >>= fun r => onCache c fun cache => cache.finish t r)
        (m.setCache c ((m.cache c).registering k)) :=
    lookupOrCompute_of_pending (MemoCache.start_of_unknown present keyless key absent) compute
  have refuses : (fun r => onCache c fun cache => cache.finish t r) =
      fun _ => (Run.fail .wrongKind : Run Boxed) := by
    funext r after
    simp only [onCache, MemoCache.finish_of_keyless (t := t) keyless r, fail]
  rw [goes, refuses]

end Run

/-! ## Any cache in use -/

namespace CacheRun

/-- What becomes of a lookup for an argument that is no key, in a cache `c` of a machine after some events. -/
structure KeylessLookup (events : List CacheEvent) (c : CacheId) (m : Machine)
    (function argument : Boxed) : Prop where
  /-- It is refused with nothing computed and nothing changed, whatever there was to compute, exactly where
  the function is known. -/
  untouched_iff : (∀ compute, ∃ fault,
    Run.lookupOrCompute c function argument compute m = (.fault fault, m)) ↔
      (m.cache c).latest.Knows function
  /-- A function is known that has been looked up since the last reset. -/
  called : ∀ l ∈ (run events).lookups, l.generation = (m.cache c).current → l.function = function →
    (m.cache c).latest.Knows function
  /-- A function that is no key either counts as known. -/
  neither : function.key? = none → (m.cache c).latest.Knows function
  /-- A function is unknown that is a key which no function looked up since the last reset meets. -/
  fresh : ∀ k, function.key? = some k →
    (∀ l ∈ (run events).lookups, l.generation = (m.cache c).current →
      ∀ k', l.function.key? = some k' → k'.meets k = .ok false) →
    ¬(m.cache c).latest.Knows function
  /-- A known function is refused since the argument is of the wrong kind, or the function is, unless the
  function cannot be compared with those looked up since the last reset. -/
  known : (m.cache c).latest.Knows function →
    (∀ l ∈ (run events).lookups, l.generation = (m.cache c).current → l.function.Comparable function) →
    ∀ compute, Run.lookupOrCompute c function argument compute m = (.fault .wrongKind, m)
  /-- An unknown function is registered and a miss counted; the computation takes place, and what it brings
  is refused as of the wrong kind. -/
  unknown : ¬(m.cache c).latest.Knows function →
    ∃ cache : MemoCache, cache.stats =
        { (m.cache c).stats with misses := (m.cache c).stats.misses + 1 } ∧
      cache.functions = (m.cache c).functions + 1 ∧ cache.size = (m.cache c).size ∧
      ∀ compute, Run.lookupOrCompute c function argument compute m =
        (compute >>= fun _ => Run.fail .wrongKind) (m.setCache c cache)

/-- In every cache that has been in use in whatever way, a lookup for an argument that is no key leaves all
as it was if its function is known, and only then. -/
theorem keyless_lookup (events : List CacheEvent) {c : CacheId} {m : Machine}
    (inside : c < m.caches.size) (reached : m.cache c = (run events).cache) {function argument : Boxed}
    (present : MemoCache.isAbsent function = false) (keyless : argument.key? = none) :
    KeylessLookup events c m function argument := by
  have registered := registered_run events
  have unknown := Run.lookupOrCompute_of_unknown present keyless (reached ▸ (bound_run events).inside)
  constructor
  case untouched_iff =>
    constructor
    · intro untouched
      by_contra new
      obtain ⟨cache, stats, -, -, goes⟩ := unknown new
      obtain ⟨fault, same⟩ := untouched (Run.pure function)
      -- a computation that does nothing leaves the miss behind
      rw [goes] at same
      have left : m.setCache c cache = m := congrArg Prod.snd same
      have now : m.cache c = cache := by
        have replaced := Machine.cache_setCache_self inside cache
        rwa [left] at replaced
      have counted := congrArg CacheStats.misses stats
      rw [← now] at counted
      exact Nat.succ_ne_self _ counted.symm
    · intro knows compute
      obtain ⟨fault, refused, -⟩ := MemoCache.start_of_known present keyless knows
      exact ⟨fault, Run.lookupOrCompute_of_refused refused compute⟩
  case called =>
    rintro l member generation rfl
    have knows := registered.known l member
    rwa [← reached, generation] at knows
  case neither => exact fun none => .of_keyless none _
  case fresh =>
    intro k key apart knows
    refine knows k key (Key.place?_eq_none_iff.2 fun k' member => ?_)
    rw [reached] at member
    obtain ⟨l, present, generation, mine⟩ := registered.owned _ k' member
    exact apart l present (by rw [generation, reached]) k' mine
  case known =>
    intro knows comparable compute
    obtain ⟨fault, refused, kind⟩ := MemoCache.start_of_known present keyless knows
    have wrong : fault = .wrongKind := by
      refine kind fun k key t inside => ?_
      rw [reached] at inside
      obtain ⟨l, member, generation, mine⟩ := registered.owned _ t.1 (List.mem_map_of_mem inside)
      exact comparable l member (by rw [generation, reached]) t.1 k mine key
    rw [← wrong]
    exact Run.lookupOrCompute_of_refused refused compute
  case unknown => exact unknown

/-- The empty list, which is no key. -/
def listed : Boxed := ⟨.list [], 4⟩

/-- The machine in whose cache the doubler has been looked up for a number. -/
def asked : Machine := (Machine.initial 1).setCache 0 (run [.start doubler fiveHundred]).cache

/-- A list is refused at once for a function that has been looked up for a number. -/
theorem keyless_lookup_doubler :
    0 < asked.caches.size ∧ asked.cache 0 = (run [.start doubler fiveHundred]).cache ∧
      MemoCache.isAbsent doubler = false ∧ listed.key? = none ∧
      KeylessLookup [.start doubler fiveHundred] 0 asked doubler listed ∧
      ∀ compute, Run.lookupOrCompute 0 doubler listed compute asked = (.fault .wrongKind, asked) := by
  have inside : 0 < asked.caches.size := by decide
  have refusal : KeylessLookup [.start doubler fiveHundred] 0 asked doubler listed :=
    keyless_lookup _ inside rfl rfl rfl
  refine ⟨inside, rfl, rfl, rfl, refusal, refusal.known (refusal.called _ List.mem_cons_self rfl rfl) ?_⟩
  intro l member generation
  rw [List.mem_singleton.1 member]
  exact Boxed.comparable_of_short trivial trivial

/-- A host function that reports its argument. -/
def tapping : Boxed := ⟨.host ⟨some "tid", .tap⟩, 0⟩

/-- The first lookup of a function for a list calls the function before it is refused, and leaves a miss and
a function more behind. -/
theorem refused_after_call :
    MemoCache.isAbsent tapping = false ∧ listed.key? = none ∧
      (Machine.initial 1).cache 0 = (run []).cache ∧
      ∃ m, Run.lookupOrCompute 0 tapping listed (Run.call 1 tapping [listed]) (Machine.initial 1) =
          (.fault .wrongKind, m) ∧
        m.journal = #[.reported [listed]] ∧ (m.cache 0).stats = ⟨0, 1, 0, 0, 0⟩ ∧
        (m.cache 0).functions = 1 ∧ (m.cache 0).size = 0 :=
  ⟨rfl, rfl, rfl, _, rfl, rfl, rfl, rfl, rfl⟩

end CacheRun

end Knot
