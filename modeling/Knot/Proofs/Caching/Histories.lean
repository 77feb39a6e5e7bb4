import Knot.Proofs.Caching.Runs
import Knot.Workload

/-!
# What runs do to a cache, as events

A run does to a cache of its machine what a list of events does (`Run.Does`), while other lookups are under
way, which stay as they are. A lookup in the cache is its beginning, what its computation does, and its end,
with a result or without one (`Run.Does.pending`), or its beginning alone. So everything that is evaluated or
called is a list of events for every cache (`Run.Plays.inherited`), and so are requests whose computations
make further requests, to any depth, and may fail (`CacheRequest.plays`).
-/

namespace Knot

/-- What the end of the computation of a lookup is for the cache. -/
def CacheEvent.ofOutcome (lookup : Nat) : Outcome Boxed → CacheEvent
  | .value r => .finish lookup r
  | .fault _ | .jump _ _ | .exhausted => .fail lookup

/-- A lookup after those that have begun before it. -/
theorem CacheRun.ticket?_append (lookups later : List Lookup) (cache : MemoCache) {l : Lookup} {t : Ticket}
    (pending : l.stage = .pending t) :
    CacheRun.ticket? ⟨cache, lookups ++ l :: later⟩ lookups.length = some t :=
  CacheRun.ticket?_eq_some.2 ⟨l, by simp, pending⟩

/-- Its end changes no other one. -/
theorem CacheRun.ended_append (lookups later : List Lookup) (cache cache' : MemoCache) (l : Lookup)
    (stage : Stage) :
    CacheRun.ended ⟨cache, lookups ++ l :: later⟩ cache' lookups.length stage =
      ⟨cache', lookups ++ { l with stage := stage } :: later⟩ := by
  have modified : (lookups ++ l :: later).modify lookups.length (fun l => { l with stage := stage }) =
      lookups ++ { l with stage := stage } :: later := by
    induction lookups with
    | nil => rfl
    | cons head rest ih => exact congrArg (head :: ·) ih
  unfold CacheRun.ended
  rw [modified]

namespace Run

/-- Whether some events do to a cache what a run does to it, and begin some lookups after those that are
there. -/
structure Does {α : Type} (c : CacheId) (x : Run α) (m : Machine) (s : CacheRun) (events : List CacheEvent)
    (later : List Lookup) : Prop where
  size : (x m).2.caches.size = m.caches.size
  events : events.foldl CacheRun.step s = ⟨(x m).2.cache c, s.lookups ++ later⟩

/-- Whether there are such events, on whatever machine and whatever lookups are under way. -/
def Plays {α : Type} (c : CacheId) (x : Run α) : Prop :=
  ∀ m s, c < m.caches.size → s.cache = m.cache c → ∃ events later, x.Does c m s events later

section

variable {α β : Type} {c : CacheId} {m : Machine} {s : CacheRun} {function argument : Boxed}
  {compute : Run Boxed} {cache : MemoCache} {events : List CacheEvent} {later : List Lookup}

/-! ## A lookup -/

/-- A lookup that is refused is its beginning. -/
theorem Does.refused (same : s.cache = m.cache c) {fault : Fault}
    (done : (m.cache c).start function argument = .error fault) :
    Does c (lookupOrCompute c function argument compute) m s [.start function argument]
      [⟨function, argument, s.cache.current, .failed⟩] := by
  have stopped := lookupOrCompute_of_refused done compute
  refine ⟨by rw [stopped], ?_⟩
  rw [stopped, List.foldl_cons, List.foldl_nil]
  simp only [CacheRun.step, same, done, CacheRun.began]

/-- A lookup that finds its result is its beginning as well. -/
theorem Does.hit (inside : c < m.caches.size) (same : s.cache = m.cache c) {r : Boxed}
    (done : (m.cache c).start function argument = .ok (.hit r, cache)) :
    Does c (lookupOrCompute c function argument compute) m s [.start function argument]
      [⟨function, argument, s.cache.current, .returned r⟩] := by
  have stopped := lookupOrCompute_of_hit done compute
  refine ⟨by simp [stopped, Machine.setCache], ?_⟩
  rw [stopped, List.foldl_cons, List.foldl_nil, Machine.cache_setCache_self inside]
  simp only [CacheRun.step, same, done, CacheRun.began]

/-- A lookup that is bypassed is its beginning and what the computation does. -/
theorem Does.bypassed (same : s.cache = m.cache c)
    (done : (m.cache c).start function argument = .ok (.bypassed, cache))
    (inner : Does c compute (m.setCache c cache) ⟨cache, s.lookups⟩ events later) :
    Does c (lookupOrCompute c function argument compute) m s (.start function argument :: events)
      later := by
  have goes := lookupOrCompute_of_bypassed done compute
  have first : s.step (.start function argument) = ⟨cache, s.lookups⟩ := by
    simp only [CacheRun.step, same, done]
  refine ⟨?_, ?_⟩
  · rw [goes, inner.size]
    simp [Machine.setCache]
  · rw [goes, List.foldl_cons, first]
    exact inner.events

/-- The end of a lookup that is under way, with the outcome of its computation. -/
theorem step_ofOutcome {m₁ m₂ : Machine} {o : Outcome Boxed} (inside : c < m₂.caches.size)
    (computed : compute m₁ = (o, m₂)) (lookups later : List Lookup) {l : Lookup} {t : Ticket}
    (pending : l.stage = .pending t) :
    ∃ stage m₃, ((compute >>= fun r => onCache c fun cache => cache.finish t r) m₁).2 = m₃ ∧
      m₃.caches.size = m₂.caches.size ∧
      CacheRun.step ⟨m₂.cache c, lookups ++ l :: later⟩ (.ofOutcome lookups.length o) =
        ⟨m₃.cache c, lookups ++ { l with stage := stage } :: later⟩ := by
  have under := CacheRun.ticket?_append lookups later (m₂.cache c) pending
  -- a computation without a result leaves the cache as it is
  have failed : CacheRun.step ⟨m₂.cache c, lookups ++ l :: later⟩ (.fail lookups.length) =
      ⟨m₂.cache c, lookups ++ { l with stage := .failed } :: later⟩ := by
    simp only [CacheRun.step, under, CacheRun.ended_append]
  cases o with
  | value r =>
    rw [bind_of_value computed]
    cases done : (m₂.cache c).finish t r with
    | error fault =>
      refine ⟨.failed, m₂, ?_, rfl, ?_⟩
      · simp only [onCache, done]
      · simp only [CacheRun.step, CacheEvent.ofOutcome, under, done, CacheRun.ended_append]
    | ok result =>
      obtain ⟨kept, cache⟩ := result
      refine ⟨.returned kept, m₂.setCache c cache, ?_, by simp [Machine.setCache], ?_⟩
      · simp only [onCache, done]
      · rw [Machine.cache_setCache_self inside]
        simp only [CacheRun.step, CacheEvent.ofOutcome, under, done, CacheRun.ended_append]
  | fault | jump | exhausted =>
    refine ⟨.failed, m₂, ?_, rfl, failed⟩
    show (Run.bind _ _ m₁).2 = m₂
    simp only [Run.bind, computed]

/-- Another lookup is its beginning, what the computation does, and the end of it. -/
theorem Does.pending (inside : c < m.caches.size) (same : s.cache = m.cache c) {t : Ticket}
    (done : (m.cache c).start function argument = .ok (.pending t, cache))
    (inner : Does c compute (m.setCache c cache) (s.began cache function argument (.pending t)) events
      later) :
    ∃ stage, Does c (lookupOrCompute c function argument compute) m s
      (.start function argument ::
        (events ++ [.ofOutcome s.lookups.length (compute (m.setCache c cache)).1]))
      (⟨function, argument, s.cache.current, stage⟩ :: later) := by
  have goes := lookupOrCompute_of_pending done compute
  have first : s.step (.start function argument) =
      s.began cache function argument (.pending t) := by
    simp only [CacheRun.step, same, done]
  -- after the events of the computation the lookup is under way still, behind those that were there
  have size : (compute (m.setCache c cache)).2.caches.size = m.caches.size := by
    rw [inner.size]
    simp [Machine.setCache]
  have before := inner.events
  generalize computed : compute (m.setCache c cache) = r at size before ⊢
  obtain ⟨o, m₂⟩ := r
  have still : c < m₂.caches.size := size.symm ▸ inside
  have under : (⟨function, argument, s.cache.current, .pending t⟩ : Lookup).stage = .pending t := rfl
  obtain ⟨stage, m₃, last, unchanged, ending⟩ := step_ofOutcome still computed s.lookups later under
  refine ⟨stage, ?_, ?_⟩
  · rw [goes, last, unchanged, size]
  · rw [goes, last, List.foldl_cons, first, List.foldl_append, before, List.foldl_cons, List.foldl_nil]
    simp only [CacheRun.began, List.append_assoc, List.singleton_append] at ending ⊢
    exact ending

/-! ## Runs -/

/-- A run without lookups is no event. -/
theorem Plays.of_uncached {x : Run α} (h : x.Uncached) : Plays c x := by
  intro m s inside same
  refine ⟨[], [], by rw [(h m).1], ?_⟩
  rw [List.foldl_nil, List.append_nil, Machine.cache_congr (h m).1, ← same]

/-- A run after another is the events of both. -/
theorem Plays.onward {x : Run α} {f : Outcome α → Run β} (first : Plays c x)
    (second : ∀ o, Plays c (f o)) : Plays c (x.onward f) := by
  intro m s inside same
  obtain ⟨events, later, size, played⟩ := first m s inside same
  rcases ended : x m with ⟨o, m'⟩
  rw [ended] at size played
  -- what comes of the second run, if it takes place
  have next (goes : x.onward f m = f o m') : ∃ events later, (x.onward f).Does c m s events later := by
    obtain ⟨events', later', size', played'⟩ :=
      second o m' ⟨m'.cache c, s.lookups ++ later⟩ (size.symm ▸ inside) rfl
    refine ⟨events ++ events', later ++ later', ?_, ?_⟩
    · rw [goes]
      exact size'.trans size
    · rw [goes, List.foldl_append, played, ← List.append_assoc]
      exact played'
  cases o with
  | exhausted =>
    have goes : x.onward f m = (.exhausted, m') := by simp only [Run.onward, ended]
    exact ⟨events, later, by rw [goes]; exact size, by rw [goes]; exact played⟩
  | value | fault | jump => exact next (by simp only [Run.onward, ended])

theorem Plays.composes : Composes (Plays c) := ⟨.of_uncached, .onward⟩

/-- A question to a cache is no event. -/
theorem Plays.asked {f : MemoCache → Except Fault α} :
    Plays c (onCache c fun cache => (f cache).map fun r => (r, cache)) := by
  intro m s inside same
  have kept : ((onCache c fun cache => (f cache).map fun r => (r, cache)) m).2.caches.size = m.caches.size ∧
      ((onCache c fun cache => (f cache).map fun r => (r, cache)) m).2.cache c = m.cache c := by
    cases found : f (m.cache c) with
    | error fault => simp only [onCache, found, Except.map, and_self]
    | ok r =>
      simp only [onCache, found, Except.map]
      refine ⟨by simp [Machine.setCache], ?_⟩
      rw [Machine.cache_setCache_self inside]
  refine ⟨[], [], kept.1, ?_⟩
  rw [List.foldl_nil, List.append_nil, kept.2, ← same]

/-- Resetting a cache is an event. -/
theorem Plays.resetCache : Plays c (Run.resetCache c) := by
  intro m s inside same
  have reset : (Run.resetCache c m).2.caches = (m.setCache c (m.cache c).reset).caches := rfl
  refine ⟨[.reset], [], by simp [reset, Machine.setCache], ?_⟩
  rw [Machine.cache_congr reset, Machine.cache_setCache_self inside, List.append_nil, ← same]
  rfl

/-- A step of another cache is no event. -/
theorem Plays.elsewhere {d : CacheId} (other : c ≠ d) (f : MemoCache → Except Fault (α × MemoCache)) :
    Plays c (onCache d f) := by
  intro m s inside same
  have kept : (onCache d f m).2.caches.size = m.caches.size ∧ (onCache d f m).2.cache c = m.cache c := by
    cases done : f (m.cache d) with
    | error fault => simp only [onCache, done, and_self]
    | ok result =>
      simp only [onCache, done]
      exact ⟨by simp [Machine.setCache], Machine.cache_setCache_of_ne other _⟩
  refine ⟨[], [], kept.1, ?_⟩
  rw [List.foldl_nil, List.append_nil, kept.2, ← same]

/-- A lookup is events if its computation is, in whatever cache it takes place. -/
theorem Plays.lookupOrCompute {d : CacheId} (h : Plays c compute) :
    Plays c (Run.lookupOrCompute d function argument compute) := by
  by_cases other : c ≠ d
  · refine composes.bind (.elsewhere other _) fun begun => ?_
    cases begun with
    | bypassed => exact h
    | hit r => exact .of_uncached (.of_pure r)
    | pending t => exact composes.bind h fun r => .elsewhere other _
  · have here : d = c := (not_not.1 other).symm
    subst here
    intro m s inside same
    have still (cache : MemoCache) : d < (m.setCache d cache).caches.size := by
      simpa [Machine.setCache] using inside
    have now (cache : MemoCache) : (m.setCache d cache).cache d = cache := by
      rw [Machine.cache_setCache_self inside]
    cases done : (m.cache d).start function argument with
    | error fault => exact ⟨_, _, .refused same done⟩
    | ok result =>
      obtain ⟨begun, cache⟩ := result
      cases begun with
      | bypassed =>
        obtain ⟨events, later, inner⟩ := h _ ⟨cache, s.lookups⟩ (still cache) (now cache).symm
        exact ⟨_, _, .bypassed same done inner⟩
      | hit r => exact ⟨_, _, .hit inside same done⟩
      | pending t =>
        obtain ⟨events, later, inner⟩ :=
          h _ (s.began cache function argument (.pending t)) (still cache) (now cache).symm
        obtain ⟨stage, lookup⟩ := Does.pending inside same done inner
        exact ⟨_, _, lookup⟩

/-- So all that is evaluated or called is events. -/
theorem Plays.inherited : Inherited (Plays c) := ⟨composes, .lookupOrCompute⟩

end

end Run

/-! ## Requests -/

namespace CacheRequest

open Run

variable {c : CacheId}

/-- A record is no event. -/
theorem plays_recorded {x : Run CacheReply} (h : Plays c x) : Plays c (recorded x) := by
  intro m s inside same
  obtain ⟨events, later, size, played⟩ := h m s inside same
  have kept : (recorded x m).2.caches = (x m).2.caches := by
    unfold recorded
    rcases x m with ⟨o, m'⟩
    cases o <;> rfl
  refine ⟨events, later, by rw [kept, size], ?_⟩
  rw [Machine.cache_congr kept]
  exact played

theorem plays_conclude (v : Option Value) : Plays c (conclude v) := by
  cases v with
  | none => exact .of_uncached (.fail _)
  | some v => exact .of_uncached ((Uncached.box v).bind fun _ => .newObject _ _)

theorem plays_content (result : Boxed) : Plays c (content result) := by
  unfold content
  split
  · exact .of_uncached (.read _)
  · exact .of_uncached (.of_pure _)

mutual

/-- A request is events for the cache. -/
theorem plays [Host] [Host.IsUncached] (fuel : Nat) : ∀ r : CacheRequest, Plays c (r.run fuel c)
  | .call function argument compute =>
    Plays.composes.bind (plays_option fuel function argument compute).lookupOrCompute fun result =>
      Plays.composes.bind (plays_content result) fun _ => .of_uncached (.of_pure _)
  | .lookup _ _ _ =>
    Plays.composes.bind .asked fun _ =>
      Plays.composes.bind (plays_content _) fun _ => .of_uncached (.of_pure _)
  | .contains _ _ => Plays.composes.bind .asked fun _ => .of_uncached (.of_pure _)
  | .reset => Plays.composes.bind .resetCache fun _ => .of_uncached (.of_pure _)

/-- So is what computes its result. -/
theorem plays_option [Host] [Host.IsUncached] (fuel : Nat) (function argument : Boxed) :
    ∀ compute, Plays c (runOption fuel c function argument compute)
  | some computation => plays_computation fuel computation
  | none => Plays.inherited.call fuel function [argument]

theorem plays_computation [Host] [Host.IsUncached] (fuel : Nat) : ∀ x : Computation, Plays c
    (runComputation fuel c x)
  | .steps requests result =>
    Plays.composes.bind (plays_all fuel requests) fun _ => plays_conclude result

/-- And so are several requests. -/
theorem plays_all [Host] [Host.IsUncached] (fuel : Nat) : ∀ requests, Plays c (runAll fuel c requests)
  | [] => .of_uncached (.of_pure _)
  | r :: rest => Plays.composes.bind (plays_recorded (plays fuel r)) fun _ => plays_all fuel rest

end

/-- Requests to a cache that has not been used are a run of it. -/
theorem exists_run [Host] [Host.IsUncached] (fuel : Nat) (requests : List CacheRequest) {m : Machine}
    (inside : c < m.caches.size) (unused : m.cache c = .empty) :
    ∃ events, (runAll fuel c requests m).2.cache c = (CacheRun.run events).cache := by
  obtain ⟨events, later, -, played⟩ := plays_all fuel requests m .unused inside unused.symm
  exact ⟨events, congrArg CacheRun.cache played.symm⟩

end CacheRequest

end Knot
