import Knot.Proofs.Caching.Comparisons
import Knot.Proofs.Caching.Histories
import Mathlib

/-!
# What a cache counts

The counts of a cache against what has happened to it, for every run of lookups and resets that overlap in
any way (`CacheRun.run`): lookups inside of the computations of others, computations that fail, and resets
while computations are under way.

Each step of a run changes the counts as it changes the number of the lookups that have begun and of the
results that are kept (`CacheRun.Bound.counts_step`), and so does a list of steps. What comes of this for a
cache that begins empty is `CacheRun.counts_exactly`:

* a lookup is a hit, a miss or bypassed, unless its keys are refused, and then it is counted nowhere;
* the bypassed ones are those of an absent function or argument;
* a store is counted for every result that a generation has come to keep, and for every computation that
  has brought the very box that was kept already. So there can be more stores than results
  (`CacheRun.stores_of_repeat`).
-/

namespace Knot

/-! ## Lookups and results -/

/-- The lookups that have been counted. -/
def CacheStats.lookups (s : CacheStats) : Nat := s.hits + s.misses + s.bypassed

namespace MemoCache

-- The zero of a sum is the literal, as in the size of a generation.
attribute [local instance (high)] Zero.ofOfNat0 in
/-- The number of results in all generations. -/
def kept (c : MemoCache) : Nat := (c.generations.toList.map Generation.size).sum

variable {c c' c'' : MemoCache} {n : Nat}

/-- A generation that gets bigger by some results. -/
theorem kept_modify (inside : n < c.generations.size) (f : Generation → Generation) {more : Nat}
    (grows : (f (c.generation n)).size = (c.generation n).size + more) :
    (c.modify n f).kept = c.kept + more := by
  obtain ⟨⟨generations⟩, stats⟩ := c
  unfold MemoCache.generation at grows
  unfold kept MemoCache.modify
  simp only [List.modify_toArray, List.size_toArray, List.getElem?_toArray] at inside grows ⊢
  -- along the list of the generations, with the place that changes
  induction generations generalizing n with
  | nil => exact absurd inside (Nat.not_lt_zero n)
  | cons g rest ih =>
    cases n with
    | zero =>
      simp only [List.getElem?_cons_zero, Option.getD_some] at grows
      simp only [List.modify_zero_cons, List.map_cons, List.sum_cons, grows]
      omega
    | succ n =>
      have further := ih (Nat.lt_of_succ_lt_succ inside) (by simpa using grows)
      simp only [List.modify_succ_cons, List.map_cons, List.sum_cons] at further ⊢
      omega

/-- A new generation keeps nothing. -/
theorem kept_reset (c : MemoCache) : c.reset.kept = c.kept := by
  simp [kept, MemoCache.reset, Generation.size, Generation.empty]

/-- Before the first reset all results are seen. -/
theorem kept_of_single (single : c.generations.size = 1) : c.kept = c.size := by
  obtain ⟨⟨generations⟩, stats⟩ := c
  obtain ⟨g, rfl⟩ := List.length_eq_one_iff.1 single
  simp [kept, MemoCache.size, latest, MemoCache.generation, current]

/-- How the counts change while lookups begin, some of them bypassed and some refused, and results are
kept, or brought again. -/
structure Counts (c c' : MemoCache) (begun bypassed refused repeated : Nat) : Prop where
  lookups : c'.stats.lookups + refused = c.stats.lookups + begun
  bypassed : c'.stats.bypassed = c.stats.bypassed + bypassed
  stores : c'.stats.stores + c.kept = c.stats.stores + c'.kept + repeated

theorem Counts.refl (c : MemoCache) : c.Counts c 0 0 0 0 := ⟨rfl, rfl, rfl⟩

theorem Counts.trans {i j k l i' j' k' l' : Nat} (first : c.Counts c' i j k l)
    (second : c'.Counts c'' i' j' k' l') : c.Counts c'' (i + i') (j + j') (k + k') (l + l') where
  lookups := by
    have := first.lookups
    have := second.lookups
    omega
  bypassed := by
    have := first.bypassed
    have := second.bypassed
    omega
  stores := by
    have := first.stores
    have := second.stores
    omega

/-! ## The two steps of a lookup -/

/-- The first step of a lookup counts it, once, and keeps no result. -/
theorem start_counts (inside : c.current < c.generations.size) {function argument : Boxed}
    {begun : Begun} (h : c.start function argument = .ok (begun, c')) :
    c.Counts c' 1 (isAbsent function || isAbsent argument).toNat 0 0 := by
  unfold start at h
  split at h
  next absent =>
    cases h
    rw [absent]
    exact ⟨rfl, rfl, rfl⟩
  next present =>
    rw [eq_false_of_ne_true present]
    -- one miss more, or one hit more, is one lookup more
    have more (hits misses bypassed : Nat) :
        hits + (misses + 1) + bypassed = hits + misses + bypassed + 1 ∧
        hits + 1 + misses + bypassed = hits + misses + bypassed + 1 := by omega
    obtain ⟨f, -, h⟩ := Except.bind_eq_ok.1 h
    obtain ⟨place, -, h⟩ := Except.bind_eq_ok.1 h
    cases place with
    | none =>
      cases h
      have empty : (c.latest.register f).size = c.latest.size + 0 := Generation.size_register _ f
      have same := kept_modify inside (fun g => g.register f) empty
      refine ⟨(more _ _ _).1, rfl, ?_⟩
      show c.stats.stores + c.kept = c.stats.stores + (c.modify c.current fun g => g.register f).kept + 0
      omega
    | some place =>
      obtain ⟨a, -, h⟩ := Except.bind_eq_ok.1 h
      obtain ⟨found, -, h⟩ := Except.bind_eq_ok.1 h
      cases found with
      | none =>
        cases h
        exact ⟨(more _ _ _).1, rfl, rfl⟩
      | some r =>
        cases h
        exact ⟨(more _ _ _).2, rfl, rfl⟩

/-- A lookup that is refused is none that is counted. -/
theorem refused_counts (c : MemoCache) : c.Counts c 1 0 1 0 := ⟨rfl, rfl, rfl⟩

/-- What is kept where a ticket leads to. -/
def keptFor (c : MemoCache) (t : Ticket) : Except Fault (Option Boxed) := do
  let a ← keyOf t.argument
  (c.generation t.generation).get? t.place a

/-- Whether a result that is brought is the very box that is kept already. -/
def repeats (c : MemoCache) (t : Ticket) (result : Boxed) : Bool :=
  match c.keptFor t with
  | .ok (some kept) => kept.same result
  | _ => false

/-- The second step of a lookup counts a store if it keeps a result, or if it brings the very box that
is kept. -/
theorem finish_counts {t : Ticket} {function result kept : Boxed} (leads : c.Leads t function)
    (h : c.finish t result = .ok (kept, c')) : c.Counts c' 0 0 0 (c.repeats t result).toNat := by
  obtain ⟨place, generation⟩ := leads.inside
  unfold finish at h
  obtain ⟨a, key, h⟩ := Except.bind_eq_ok.1 h
  obtain ⟨found, got, h⟩ := Except.bind_eq_ok.1 h
  have there : c.keptFor t = .ok found := by
    unfold keptFor
    rw [key]
    exact got
  unfold repeats
  rw [there]
  cases found with
  | some old =>
    cases h
    dsimp only
    split
    -- the result is kept already as the same object, so it is counted and adds nothing
    next same =>
      refine ⟨rfl, rfl, ?_⟩
      show c.stats.stores + 1 + c.kept = c.stats.stores + c.kept + (kept.same result).toNat
      rw [same, Bool.toNat_true]
      omega
    next apart =>
      rw [eq_false_of_ne_true apart]
      exact .refl c
  | none =>
    cases h
    have grown := kept_modify generation (fun g => g.insert t.place a result)
      (Generation.size_insert place a result)
    refine ⟨rfl, rfl, ?_⟩
    show c.stats.stores + 1 + c.kept =
      c.stats.stores + (c.modify t.generation fun g => g.insert t.place a result).kept + 0
    omega

/-- A result that cannot be looked up repeats nothing. -/
theorem repeats_of_error {t : Ticket} {result : Boxed} {fault : Fault}
    (h : c.finish t result = .error fault) : c.repeats t result = false := by
  unfold repeats
  cases there : c.keptFor t with
  | error other => rfl
  | ok found =>
    unfold keptFor at there
    obtain ⟨a, key, got⟩ := Except.bind_eq_ok.1 there
    unfold finish at h
    rw [key] at h
    simp only [bind, Except.bind, got] at h
    cases found <;> cases h

end MemoCache

/-! ## Events -/

namespace CacheEvent

/-- Whether a lookup begins. -/
def begins : CacheEvent → Bool
  | start _ _ => true
  | _ => false

/-- Whether a lookup begins whose function or argument is absent. -/
def bypasses : CacheEvent → Bool
  | start function argument => MemoCache.isAbsent function || MemoCache.isAbsent argument
  | _ => false

end CacheEvent

namespace CacheRun

@[simp] theorem cache_began (s : CacheRun) (c : MemoCache) (function argument : Boxed) (stage : Stage) :
    (s.began c function argument stage).cache = c := rfl

@[simp] theorem cache_ended (s : CacheRun) (c : MemoCache) (i : Nat) (stage : Stage) :
    (s.ended c i stage).cache = c := rfl

/-- Whether a lookup begins whose keys are refused: one of them is no key, or cannot be compared with
a key that is kept. -/
def refuses (s : CacheRun) : CacheEvent → Bool
  | .start function argument =>
    match s.cache.start function argument with
    | .ok _ => false
    | .error _ => true
  | _ => false

/-- Whether a lookup ends with the very box that is kept already. -/
def repeats (s : CacheRun) : CacheEvent → Bool
  | .finish i result =>
    match s.ticket? i with
    | some t => s.cache.repeats t result
    | none => false
  | _ => false

/-- How many of the events are of a kind, each judged by what has come of the ones before it. -/
def tally (kind : CacheRun → CacheEvent → Bool) (s : CacheRun) : List CacheEvent → Nat
  | [] => 0
  | x :: events => (kind s x).toNat + tally kind (s.step x) events

variable {s : CacheRun}

/-- The beginning of a lookup. -/
theorem Bound.counts_start (h : s.Bound) (function argument : Boxed) :
    s.cache.Counts (s.step (.start function argument)).cache 1
      (CacheEvent.bypasses (.start function argument)).toNat
      (s.refuses (.start function argument)).toNat 0 := by
  cases done : s.cache.start function argument with
  | error fault =>
    have refused : s.refuses (.start function argument) = true := by simp only [refuses, done]
    have next : (s.step (.start function argument)).cache = s.cache := by
      simp only [CacheRun.step, done, cache_began]
    -- what is bypassed is not refused
    have present : CacheEvent.bypasses (.start function argument) = false := by
      apply eq_false_of_ne_true
      intro absent
      have absent : (MemoCache.isAbsent function || MemoCache.isAbsent argument) = true := absent
      unfold MemoCache.start at done
      rw [if_pos absent] at done
      cases done
    rw [refused, present, next]
    exact s.cache.refused_counts
  | ok result =>
    obtain ⟨begun, c⟩ := result
    have accepted : s.refuses (.start function argument) = false := by simp only [refuses, done]
    have next : (s.step (.start function argument)).cache = c := by
      cases begun <;> simp only [CacheRun.step, done, cache_began]
    rw [accepted, next]
    exact MemoCache.start_counts h.inside done

/-- The end of a lookup. -/
theorem Bound.counts_finish (h : s.Bound) (i : Nat) (result : Boxed) :
    s.cache.Counts (s.step (.finish i result)).cache 0 0 0 (s.repeats (.finish i result)).toNat := by
  cases ongoing : s.ticket? i with
  | none =>
    have new : s.repeats (.finish i result) = false := by simp only [repeats, ongoing]
    have next : s.step (.finish i result) = s := by simp only [CacheRun.step, ongoing]
    rw [new, next]
    exact .refl s.cache
  | some t =>
    obtain ⟨l, found, pending⟩ := ticket?_eq_some.1 ongoing
    obtain ⟨-, -, leads⟩ := (h.lookups l (List.mem_of_getElem? found)).pending t pending
    have question : s.repeats (.finish i result) = s.cache.repeats t result := by
      simp only [repeats, ongoing]
    rw [question]
    cases done : s.cache.finish t result with
    | error fault =>
      have next : (s.step (.finish i result)).cache = s.cache := by
        simp only [CacheRun.step, ongoing, done, cache_ended]
      rw [MemoCache.repeats_of_error done, next]
      exact .refl s.cache
    | ok outcome =>
      obtain ⟨kept, c⟩ := outcome
      have next : (s.step (.finish i result)).cache = c := by
        simp only [CacheRun.step, ongoing, done, cache_ended]
      rw [next]
      exact MemoCache.finish_counts leads done

/-- What a step makes of the counts. -/
theorem Bound.counts_step (h : s.Bound) (x : CacheEvent) :
    s.cache.Counts (s.step x).cache x.begins.toNat x.bypasses.toNat (s.refuses x).toNat
      (s.repeats x).toNat := by
  cases x with
  | start function argument => exact h.counts_start function argument
  | finish i result => exact h.counts_finish i result
  | fail i =>
    have next : (s.step (.fail i)).cache = s.cache := by
      rcases step_fail_cases s i with same | ⟨l, t, -, -, next⟩
      · rw [same]
      · rw [next, cache_ended]
    rw [next]
    exact .refl s.cache
  | reset =>
    refine ⟨rfl, rfl, ?_⟩
    show s.cache.stats.stores + s.cache.kept = s.cache.stats.stores + s.cache.reset.kept + 0
    rw [MemoCache.kept_reset, Nat.add_zero]

/-- What a list of steps makes of them, by induction on the list. -/
theorem Bound.counts_foldl (h : s.Bound) (events : List CacheEvent) :
    s.cache.Counts (events.foldl CacheRun.step s).cache (events.countP CacheEvent.begins)
      (events.countP CacheEvent.bypasses) (tally refuses s events) (tally repeats s events) := by
  induction events generalizing s with
  | nil => exact .refl s.cache
  | cons x events ih =>
    have one (kind : CacheEvent → Bool) :
        (x :: events).countP kind = (kind x).toNat + events.countP kind := by
      rw [List.countP_cons]
      cases kind x <;> simp [Nat.add_comm]
    rw [one, one]
    exact (h.counts_step x).trans (ih (h.step x).1)

/-! ## Events that do not take place -/

/-- A kind of which there is no event, wherever the events are cut. -/
theorem tally_eq_zero {kind : CacheRun → CacheEvent → Bool} {events : List CacheEvent}
    (never : ∀ before x after, events = before ++ x :: after →
      kind (before.foldl CacheRun.step s) x = false) : tally kind s events = 0 := by
  induction events generalizing s with
  | nil => rfl
  | cons x events ih =>
    have first : kind s x = false := never [] x events rfl
    have rest : tally kind (s.step x) events = 0 := by
      apply ih
      intro before y after split
      exact never (x :: before) y after (by rw [split, List.cons_append])
    rw [tally, first, rest]
    rfl

/-- Whether the lookups among some events can all go about: the functions and the arguments are keys, and
can be compared with each other. -/
structure Usable (events : List CacheEvent) : Prop where
  keys : ∀ f a, .start f a ∈ events → CacheEvent.bypasses (.start f a) = false →
    (∃ k, f.key? = some k) ∧ ∃ k, a.key? = some k
  functions : ∀ f a g b, .start f a ∈ events → .start g b ∈ events → f.Comparable g
  arguments : ∀ f a g b, .start f a ∈ events → .start g b ∈ events → a.Comparable b

/-- Where all functions and arguments are keys and no long integers, all lookups can go about. -/
theorem Usable.of_short {events : List CacheEvent}
    (short : ∀ f a, .start f a ∈ events → f.value.Short ∧ a.value.Short)
    (keys : ∀ f a, .start f a ∈ events → (∃ k, f.key? = some k) ∧ ∃ k, a.key? = some k) :
    Usable events where
  keys f a member _ := keys f a member
  functions f a g b member member' := Boxed.comparable_of_short (short f a member).1 (short g b member').1
  arguments f a g b member member' := Boxed.comparable_of_short (short f a member).2 (short g b member').2

/-- Whether the keys of a cache, and the arguments of its lookups, have a property each. -/
structure Draws (P Q : Key → Prop) (s : CacheRun) : Prop where
  cache : s.cache.All P Q
  lookups : ∀ l ∈ s.lookups, ∀ k, l.argument.key? = some k → Q k

namespace Draws

variable {P Q : Key → Prop}

theorem unused : CacheRun.unused.Draws P Q := ⟨.empty, List.forall_mem_nil _⟩

/-- A lookup that begins brings its own argument. -/
theorem began (h : s.Draws P Q) {c : MemoCache} (cache : c.All P Q) {function argument : Boxed}
    (mine : ∀ k, argument.key? = some k → Q k) (stage : Stage) :
    (s.began c function argument stage).Draws P Q := by
  refine ⟨cache, fun l member => ?_⟩
  rcases List.mem_append.1 member with old | new
  · exact h.lookups l old
  · rw [List.mem_singleton.1 new]
    exact mine

/-- A lookup that ends keeps it. -/
theorem ended (h : s.Draws P Q) {c : MemoCache} (cache : c.All P Q) (i : Nat) (stage : Stage) :
    (s.ended c i stage).Draws P Q := by
  refine ⟨cache, fun l member => ?_⟩
  obtain ⟨j, there⟩ := List.mem_iff_getElem?.1 member
  rw [lookups_ended] at there
  split at there
  · obtain ⟨o, before, rfl⟩ := Option.map_eq_some_iff.1 there
    exact h.lookups o (List.mem_of_getElem? before)
  · exact h.lookups l (List.mem_of_getElem? there)

/-- A step brings the keys of the lookup that it begins. -/
theorem step (h : s.Draws P Q) (bound : s.Bound) {x : CacheEvent}
    (mine : ∀ f a, x = .start f a →
      (∀ k, f.key? = some k → P k) ∧ ∀ k, a.key? = some k → Q k) : (s.step x).Draws P Q := by
  cases x with
  | start f a =>
    obtain ⟨function, argument⟩ := mine f a rfl
    rcases step_start_cases s f a with failed | ⟨begun, c, done, next⟩
    · rw [failed]
      exact h.began h.cache argument _
    · have cache := h.cache.start done function
      rcases next with ⟨-, next⟩ | ⟨r, -, next⟩ | ⟨t, -, next⟩
      · rw [next]
        exact ⟨cache, h.lookups⟩
      · rw [next]
        exact h.began cache argument _
      · rw [next]
        exact h.began cache argument _
  | finish i r =>
    rcases step_finish_cases s i r with same | ⟨l, t, found, pending, failed | ⟨kept, c, done, next⟩⟩
    · rwa [same]
    · rw [failed]
      exact h.ended h.cache i _
    · have member := List.mem_of_getElem? found
      obtain ⟨-, argument, -⟩ := (bound.lookups l member).pending t pending
      -- a ticket is for the argument that its lookup began with
      have brought : ∀ k, t.argument.key? = some k → Q k := by
        rw [argument]
        exact h.lookups l member
      rw [next]
      exact h.ended (h.cache.finish done brought) i _
  | fail i =>
    rcases step_fail_cases s i with same | ⟨l, t, -, -, next⟩
    · rwa [same]
    · rw [next]
      exact h.ended h.cache i _
  | reset => exact ⟨h.cache.reset, h.lookups⟩

/-- So all keys are those of lookups that have begun. -/
theorem foldl (h : s.Draws P Q) (bound : s.Bound) {events : List CacheEvent}
    (mine : ∀ f a, .start f a ∈ events →
      (∀ k, f.key? = some k → P k) ∧ ∀ k, a.key? = some k → Q k) :
    (events.foldl CacheRun.step s).Draws P Q := by
  induction events generalizing s with
  | nil => exact h
  | cons x events ih =>
    have first : (s.step x).Draws P Q := by
      refine h.step bound fun f a same => mine f a ?_
      rw [same]
      exact List.mem_cons_self
    exact ih first (bound.step x).1 fun f a member => mine f a (List.mem_cons_of_mem _ member)

end Draws

/-- Where the keys can be used, no lookup is refused. -/
theorem Usable.refuses {events : List CacheEvent} (usable : Usable events) :
    tally CacheRun.refuses unused events = 0 := by
  refine tally_eq_zero fun before x after split => ?_
  cases x with
  | start f a =>
    have present : CacheEvent.start f a ∈ events := by simp [split]
    have earlier : ∀ x ∈ before, x ∈ events := by
      intro x member
      rw [split]
      exact List.mem_append_left _ member
    -- a lookup that is not bypassed meets the keys of lookups before it only
    have started : ∃ begun c, (run before).cache.start f a = .ok (begun, c) := by
      by_cases bypassed : CacheEvent.bypasses (.start f a) = true
      · exact ⟨_, _, if_pos bypassed⟩
      · obtain ⟨⟨k, functionKey⟩, l, argumentKey⟩ :=
          usable.keys f a present (eq_false_of_ne_true bypassed)
        have drawn : (run before).Draws (·.Answers k) (·.Answers l) := by
          refine Draws.unused.foldl .unused fun g b member => ⟨fun k' key => ?_, fun l' key => ?_⟩
          · exact usable.functions g b f a (earlier _ member) present k' k key functionKey
          · exact usable.arguments g b f a (earlier _ member) present l' l key argumentKey
        exact MemoCache.start_of_answers functionKey argumentKey drawn.cache
    obtain ⟨begun, c, done⟩ := started
    have done : (before.foldl CacheRun.step unused).cache.start f a = .ok (begun, c) := done
    simp only [CacheRun.refuses, done]
  | finish i r => rfl
  | fail i => rfl
  | reset => rfl

/-- Whether two events bring different boxes, if both bring one. -/
def Apart (x y : CacheEvent) : Prop :=
  ∀ i r j r', x = .finish i r → y = .finish j r' → r.same r' = false

/-- What is repeated has been brought before. -/
theorem brought_of_repeats {before : List CacheEvent} {i : Nat} {r : Boxed}
    (again : (run before).repeats (.finish i r) = true) :
    ∃ j kept, .finish j kept ∈ before ∧ kept.same r = true := by
  cases ongoing : (run before).ticket? i with
  | none => simp [repeats, ongoing] at again
  | some t =>
    simp only [repeats, ongoing] at again
    unfold MemoCache.repeats at again
    split at again
    next kept there =>
      obtain ⟨l, found, pending⟩ := ticket?_eq_some.1 ongoing
      obtain ⟨-, -, k, key, placed⟩ :=
        ((bound_run before).lookups l (List.mem_of_getElem? found)).pending t pending
      obtain ⟨a, argumentKey, got⟩ := Except.bind_eq_ok.1 there
      -- so the box that is kept is held for this lookup, and what is held has been brought
      have held : (run before).cache.heldIn t.generation l.function t.argument = .ok (some kept) :=
        Generation.held_eq_some.2 ⟨k, t.place, a, key, placed, argumentKey, got⟩
      obtain ⟨start, j, rest, -, split, -⟩ := stored held
      exact ⟨j, kept, by simp [split], again⟩
    next => cases again

/-- Where every box is brought once, nothing is repeated. -/
theorem repeats_of_apart {events : List CacheEvent} (apart : events.Pairwise Apart) :
    tally CacheRun.repeats unused events = 0 := by
  refine tally_eq_zero fun before x after split => ?_
  apply eq_false_of_ne_true
  intro again
  cases x with
  | finish i r =>
    obtain ⟨j, kept, member, same⟩ := brought_of_repeats again
    -- the two ends are apart, since one is among the events before the other
    rw [split] at apart
    have other := (List.pairwise_append.1 apart).2.2 _ member _ List.mem_cons_self
    rw [other j kept i r rfl rfl] at same
    cases same
  | start f a => cases again
  | fail i => cases again
  | reset => cases again

/-! ## The counts of a cache -/

/-- What is no reset leaves the cache as it is, or is a step of a lookup. -/
theorem cache_step {x : CacheEvent} (other : x ≠ .reset) :
    (s.step x).cache = s.cache ∨ s.cache.Step (s.step x).cache := by
  cases x with
  | start f a =>
    rcases step_start_cases s f a with failed | ⟨begun, c, done, next⟩
    · exact .inl (by rw [failed, cache_began])
    · rcases next with ⟨-, next⟩ | ⟨r, -, next⟩ | ⟨t, -, next⟩ <;> exact .inr (next ▸ .start done)
  | finish i r =>
    rcases step_finish_cases s i r with same | ⟨l, t, -, -, failed | ⟨kept, c, done, next⟩⟩
    · exact .inl (by rw [same])
    · exact .inl (by rw [failed, cache_ended])
    · exact .inr (next ▸ .finish done)
  | fail i =>
    rcases step_fail_cases s i with same | ⟨l, t, -, -, next⟩
    · exact .inl (by rw [same])
    · exact .inl (by rw [next, cache_ended])
  | reset => exact absurd rfl other

/-- So only a reset begins a generation. -/
theorem generations_foldl {events : List CacheEvent} (steady : .reset ∉ events) :
    (events.foldl CacheRun.step s).cache.generations.size = s.cache.generations.size := by
  induction events generalizing s with
  | nil => rfl
  | cons x events ih =>
    have other : x ≠ .reset := by
      intro reset
      exact steady (reset ▸ List.mem_cons_self)
    have first : (s.step x).cache.generations.size = s.cache.generations.size := by
      rcases cache_step other with same | step
      · rw [same]
      · exact step.size
    rw [List.foldl_cons, ih fun later => steady (List.mem_cons_of_mem x later), first]

/-- What the counts of a cache come to after some events. -/
structure CountsExactly (events : List CacheEvent) : Prop where
  /-- Every lookup is a hit, a miss or bypassed, unless its keys are refused. -/
  lookups : (run events).cache.stats.lookups + tally refuses unused events =
    events.countP CacheEvent.begins
  /-- None is refused where all functions and arguments are keys, and can be compared. -/
  usable : Usable events → tally refuses unused events = 0
  /-- The lookups that are bypassed are those of an absent function or argument. -/
  bypassed : (run events).cache.stats.bypassed = events.countP CacheEvent.bypasses
  /-- A store is counted for every result that is kept, and for every box that is brought again. -/
  stores : (run events).cache.stats.stores = (run events).cache.kept + tally repeats unused events
  /-- None is brought again where all computations bring boxes of their own. -/
  apart : events.Pairwise Apart → tally repeats unused events = 0
  /-- Without a reset the results that are kept are those that lookups see. -/
  steady : .reset ∉ events → (run events).cache.kept = (run events).cache.size

/-- The counts of a cache are exact, whatever happens to it and in whatever order. -/
theorem counts_exactly (events : List CacheEvent) : CountsExactly events := by
  have counts := Bound.unused.counts_foldl events
  constructor
  case lookups => exact counts.lookups.trans (Nat.zero_add _)
  case usable => exact fun usable => usable.refuses
  case bypassed => exact counts.bypassed.trans (Nat.zero_add _)
  case stores =>
    have stores := counts.stores
    have nothing : unused.cache.kept = 0 := rfl
    have unstored : unused.cache.stats.stores = 0 := rfl
    rw [nothing, unstored] at stores
    show (events.foldl CacheRun.step unused).cache.stats.stores = _
    unfold run
    omega
  case apart => exact repeats_of_apart
  case steady =>
    intro steady
    exact MemoCache.kept_of_single (generations_foldl steady)

/-- Two lookups that overlap and bring boxes of their own are two misses and one store. -/
theorem counts_exactly_overlapping :
    CountsExactly overlapping ∧ Usable overlapping ∧ overlapping.Pairwise Apart ∧ .reset ∉ overlapping ∧
      (run overlapping).cache.stats = ⟨0, 2, 1, 0, 0⟩ ∧ (run overlapping).cache.size = 1 := by
  have lookup : ∀ f a, .start f a ∈ overlapping →
      f = doubler ∧ (a = fiveHundred ∨ a = fiveHundredAgain) := by
    intro f a member
    simpa [overlapping, ← and_or_left] using member
  have short : IntType.Fits ⟨true, .w64⟩ 500 := by decide
  refine ⟨counts_exactly overlapping, .of_short ?_ ?_, ?_, by simp [overlapping], rfl, rfl⟩
  · intro f a member
    obtain ⟨rfl, rfl | rfl⟩ := lookup f a member <;> exact ⟨trivial, short⟩
  · intro f a member
    obtain ⟨rfl, rfl | rfl⟩ := lookup f a member <;> exact ⟨⟨_, rfl⟩, _, rfl⟩
  · have other : Boxed.same ⟨.int 1000, 3⟩ ⟨.int 1000, 4⟩ = false := rfl
    have last : Apart (.finish 1 ⟨.int 1000, 3⟩) (.finish 0 ⟨.int 1000, 4⟩) := by
      rintro i r j r' ⟨⟩ ⟨⟩
      exact other
    simpa [overlapping, Apart] using last

namespace Echoed

/-- A function from numbers to numbers, whether it is to look itself up, and its parameter. -/
def echo : Parameter := ⟨"echo", .func [.value .int32] (.value .int32), 1⟩
def again : Parameter := ⟨"again", .value .bool, 2⟩
def given : Parameter := ⟨"given", .value .int32, 3⟩

/-- A truth value that the variable takes. -/
def setAgain (b : Bool) : Expr :=
  .binary .assign (.parameter again) (.constant ⟨.scalar (.bool b), 0⟩ (.value .bool)) (.value .bool)

/-- The function returns its argument, the first time from a lookup of itself for that argument. -/
def body : Expr :=
  let lookup : Expr := .cached (.parameter echo) (.parameter given) (.value .int32) none
  .conditional (.parameter again) (.block [] [setAgain false, lookup] (.value .int32))
    (.parameter given) (.value .int32)

/-- The number that the function is looked up for. -/
def one : Boxed := ⟨.scalar (.wrapped ⟨true, .w32⟩ 1), 0⟩

/-- The tree that looks the function up. -/
def tree : Expr :=
  .block [echo, again]
    [.binary .assign (.parameter echo) (.lambda [.parameter given] body echo.type) echo.type,
      setAgain true,
      .cached (.parameter echo) (.constant one (.value .int32)) (.value .int32) none]
    (.value .int32)

/-- The function that the evaluation of the tree makes. -/
def function : Boxed := ⟨.closure 0, 0⟩

/-- Its lookups: the inner one ends first, and the outer one brings the very same box. -/
def events : List CacheEvent :=
  [.start function one, .start function one, .finish 1 one, .finish 0 one]

end Echoed

open Echoed in
/-- Two stores are counted for the one result that is kept: the tree ends in its constant, after two lookups
of which the inner one has stored it already. -/
theorem stores_of_repeat :
    (Run.evaluate 3 ⟨some 0, none⟩ tree (.initial 1)).1 = .value one ∧
      (Run.evaluate 3 ⟨some 0, none⟩ tree (.initial 1)).2.cache 0 = (run events).cache ∧
      Usable events ∧ .reset ∉ events ∧ (run events).cache.stats = ⟨0, 2, 2, 0, 0⟩ ∧
      (run events).cache.kept = 1 ∧ (run events).cache.size = 1 := by
  have lookup : ∀ f a, .start f a ∈ events → f = function ∧ a = one := by
    intro f a member
    simpa [events] using member
  refine ⟨by cbv, by cbv, .of_short ?_ ?_, by simp [events], by cbv, by cbv, by cbv⟩
  · intro f a member
    obtain ⟨rfl, rfl⟩ := lookup f a member
    exact ⟨trivial, trivial⟩
  · intro f a member
    obtain ⟨rfl, rfl⟩ := lookup f a member
    exact ⟨⟨_, rfl⟩, _, rfl⟩

end CacheRun

end Knot
