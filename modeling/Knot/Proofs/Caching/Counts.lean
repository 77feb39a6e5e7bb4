import Knot.Proofs.Caching.Steps

/-!
# What lookups count

A lookup that finds nothing counts a miss and holds no more than before (`MemoCache.Missed`); when its result
comes and there is still none, a store is counted, there is one result more, and it is held for the argument
and for no other one (`MemoCache.Stored`). A lookup that finds a result counts a hit and changes nothing else.
-/

namespace Knot

/-! ## Keys -/

/-- A key does not tell two boxes of a closure apart. -/
theorem Key.alike_of_closure (stored : Key) {id : Nat} {b b' : Boxed} (value : b.value = .closure id)
    (value' : b'.value = .closure id) : stored.Alike b b' := by
  have keyed : ∀ {c : Boxed} {k : Key}, c.value = .closure id → c.key? = some k →
      k = ⟨.function id, c⟩ := by
    intro c k shape key
    unfold Boxed.key? at key
    rw [shape] at key
    exact (Option.some.inj key).symm
  intro k k' key key'
  rw [keyed value key, keyed value' key']
  have same : stored.box.same b = stored.box.same b' := by
    unfold Boxed.same
    rw [value, value']
    cases stored.box.value with
    | scalar s => cases s <;> rfl
    | _ => rfl
  unfold meets
  rw [value, value']
  simp only [same]

namespace Generation

variable {g : Generation} {function argument : Boxed}

/-- Two boxes of a closure are one function. -/
theorem held_congr_function (g : Generation) {id : Nat} {f f' : Boxed} (value : f.value = .closure id)
    (value' : f'.value = .closure id) (argument : Boxed) : g.held f argument = g.held f' argument := by
  have keyed : ∀ {c : Boxed}, c.value = .closure id → MemoCache.keyOf c = .ok ⟨.function id, c⟩ := by
    intro c shape
    unfold MemoCache.keyOf Boxed.key?
    rw [shape]
    rfl
  have found : g.place? ⟨.function id, f⟩ = g.place? ⟨.function id, f'⟩ :=
    Key.place?_congr fun e _ => e.1.alike_of_closure value value' _ _
      (MemoCache.keyOf_eq_ok.1 (keyed value)) (MemoCache.keyOf_eq_ok.1 (keyed value'))
  unfold held
  rw [keyed value, keyed value']
  show (do let place ← g.place? ⟨.function id, f⟩; _) = (do let place ← g.place? ⟨.function id, f'⟩; _)
  rw [found]

/-- A registered function holds for an argument what its table holds. -/
theorem held_of_place {k a : Key} {place : Nat} (key : MemoCache.keyOf function = .ok k)
    (placed : g.place? k = .ok (some place)) (argumentKey : MemoCache.keyOf argument = .ok a) :
    g.held function argument = g.get? place a := by
  unfold held
  simp only [key, placed, argumentKey, bind, Except.bind]

/-- An unknown function holds nothing. -/
theorem held_of_unplaced {k : Key} (key : MemoCache.keyOf function = .ok k)
    (unplaced : g.place? k = .ok none) : g.held function argument = .ok none := by
  unfold held
  simp only [key, unplaced, bind, Except.bind]
  rfl

/-- A function that has just been registered holds nothing either. -/
theorem held_register_self {k a : Key} (key : MemoCache.keyOf function = .ok k)
    (unplaced : g.place? k = .ok none) (argumentKey : MemoCache.keyOf argument = .ok a) :
    (g.register k).held function argument = .ok none := by
  have placed : (g.register k).place? k = .ok (some g.tables.length) :=
    Key.place?_append_self k.meets_self unplaced []
  have empty : g.table g.tables.length = [] := by
    unfold table
    rw [List.getElem?_eq_none (Nat.le_refl _)]
    rfl
  rw [held_of_place key placed argumentKey]
  unfold get?
  rw [table_register, empty]
  rfl

/-- A result is held for its argument only. -/
theorem held_insert_of_apart {k a b : Key} {place : Nat} {r : Boxed}
    (key : MemoCache.keyOf function = .ok k) (placed : g.place? k = .ok (some place))
    (argumentKey : MemoCache.keyOf argument = .ok b) (apart : a.meets b = .ok false) :
    (g.insert place a r).held function argument = g.held function argument := by
  have inside : place < g.tables.length := Key.place?_lt placed
  have placed' : (g.insert place a r).place? k = .ok (some place) :=
    Key.place?_of_prefix ((functions_insert g place a r).symm ▸ List.prefix_refl _) placed
  rw [held_of_place key placed' argumentKey, held_of_place key placed argumentKey]
  unfold get?
  rw [table_insert g place place a r inside, if_pos rfl]
  -- the new entry comes last, and does not answer
  induction g.table place with
  | nil => exact Key.find?_cons_of_apart apart
  | cons head rest ih =>
    obtain ⟨stored, v⟩ := head
    rw [List.cons_append, Key.find?, Key.find?, ih]

/-- Registering a function adds no result. -/
theorem size_register (g : Generation) (k : Key) : (g.register k).size = g.size := by
  unfold size register
  simp

/-- A result in a table that is there is one more. -/
theorem size_insert {place : Nat} (inside : place < g.tables.length) (a : Key) (r : Boxed) :
    (g.insert place a r).size = g.size + 1 := by
  obtain ⟨tables⟩ := g
  unfold size insert
  induction tables generalizing place with
  | nil => exact absurd inside (Nat.not_lt_zero place)
  | cons head rest ih =>
    cases place with
    | zero =>
      simp only [List.modify_zero_cons, List.map_cons, List.sum_cons, List.length_append,
        List.length_singleton]
      omega
    | succ place =>
      have further := ih (Nat.lt_of_succ_lt_succ inside)
      simp only [List.modify_succ_cons, List.map_cons, List.sum_cons] at further ⊢
      omega

end Generation

/-! ## Lookups -/

namespace MemoCache

variable {c c' : MemoCache} {function argument r kept : Boxed} {ticket : Ticket}

/-- What a lookup that has found nothing has made of a cache: nothing was held, and still is not, for the
function and any argument that is a key; and a miss is counted. -/
structure Missed (c : MemoCache) (function argument : Boxed) (ticket : Ticket) (c' : MemoCache) : Prop where
  generation : ticket.generation = c.current
  mine : ticket.argument = argument
  leads : c'.Leads ticket function
  absent : c.heldIn c.current function argument = .ok none
  held : ∀ b k, keyOf b = .ok k → c'.heldIn c.current function b = c.heldIn c.current function b
  stats : c'.stats = { c.stats with misses := c.stats.misses + 1 }
  size : c'.size = c.size

/-- A lookup that finds nothing does only that. -/
theorem missed_of_start (inside : c.current < c.generations.size)
    (h : c.start function argument = .ok (.pending ticket, c')) :
    c.Missed function argument ticket c' := by
  obtain ⟨generation, mine, leads⟩ := start_leads inside h
  unfold start at h
  split at h
  next => cases h
  next =>
    obtain ⟨f, key, h⟩ := Except.bind_eq_ok.1 h
    obtain ⟨place, placed, h⟩ := Except.bind_eq_ok.1 h
    cases place with
    | none =>
      cases h
      -- an unknown function gets an empty table, which changes neither what is held nor the size
      have registered : ((c.counting fun s => { s with misses := s.misses + 1 }).modify c.current
          fun g => g.register f).generation c.current = c.latest.register f :=
        (generation_modify inside _ _).trans (if_pos rfl)
      refine ⟨generation, mine, leads, Generation.held_of_unplaced key placed, ?_, rfl, ?_⟩
      · intro b k argumentKey
        unfold heldIn
        rw [registered]
        exact (Generation.held_register_self key placed argumentKey).trans
          (Generation.held_of_unplaced key placed).symm
      · show (MemoCache.generation _ _).size = _
        have current : ((c.counting fun s => { s with misses := s.misses + 1 }).modify c.current
            fun g => g.register f).current = c.current := by
          unfold MemoCache.current MemoCache.modify
          rw [Array.size_modify]
          rfl
        rw [current, registered]
        exact Generation.size_register _ f
    | some place =>
      obtain ⟨a, argumentKey, h⟩ := Except.bind_eq_ok.1 h
      obtain ⟨found, got, h⟩ := Except.bind_eq_ok.1 h
      cases found with
      | some r => cases h
      | none =>
        cases h
        have absent : c.heldIn c.current function argument = .ok none :=
          (Generation.held_of_place key placed argumentKey).trans got
        exact ⟨generation, mine, leads, absent, fun b k _ => rfl, rfl, rfl⟩

/-- A lookup that finds a result counts a hit, and that is all. -/
theorem start_hit (h : c.start function argument = .ok (.hit r, c')) :
    c' = c.counting fun s => { s with hits := s.hits + 1 } := by
  unfold start at h
  split at h
  next => cases h
  next =>
    obtain ⟨f, key, h⟩ := Except.bind_eq_ok.1 h
    obtain ⟨place, placed, h⟩ := Except.bind_eq_ok.1 h
    cases place with
    | none => cases h
    | some place =>
      obtain ⟨a, argumentKey, h⟩ := Except.bind_eq_ok.1 h
      obtain ⟨found, got, h⟩ := Except.bind_eq_ok.1 h
      cases found with
      | some r => cases h; rfl
      | none => cases h

/-- What a result that has been stored has made of a cache: it is held for the argument, what was held for
others is held, a store is counted, and there is one result more. -/
structure Stored (c : MemoCache) (function : Boxed) (ticket : Ticket) (r : Boxed) (c' : MemoCache) :
    Prop where
  held : c'.heldIn ticket.generation function ticket.argument = .ok (some r)
  others : ∀ a b k, keyOf ticket.argument = .ok a → keyOf b = .ok k → a.meets k = .ok false →
    c'.heldIn ticket.generation function b = c.heldIn ticket.generation function b
  stats : c'.stats = { c.stats with stores := c.stats.stores + 1 }
  size : ticket.generation = c.current → c'.size = c.size + 1

/-- Where nothing is held, the end of a lookup does just that. -/
theorem stored_of_finish (leads : c.Leads ticket function)
    (absent : c.heldIn ticket.generation function ticket.argument = .ok none)
    (h : c.finish ticket r = .ok (kept, c')) : kept = r ∧ c.Stored function ticket r c' := by
  obtain ⟨place, generation⟩ := leads.inside
  have returned := finish_returns leads h
  obtain ⟨f, key, placed⟩ := leads
  unfold finish at h
  obtain ⟨a, argumentKey, h⟩ := Except.bind_eq_ok.1 h
  obtain ⟨found, got, h⟩ := Except.bind_eq_ok.1 h
  -- the result found there would be returned instead, so nothing may be held yet
  have nothing : found = none := by
    unfold heldIn at absent
    rw [Generation.held_of_place key placed argumentKey, got] at absent
    exact Except.ok.inj absent
  subst nothing
  cases h
  have changed : ∀ n, ((c.counting fun s => { s with stores := s.stores + 1 }).modify ticket.generation
      fun g => g.insert ticket.place a r).generation n =
        if n = ticket.generation then (c.generation ticket.generation).insert ticket.place a r
        else c.generation n := generation_modify generation _
  refine ⟨rfl, returned, fun a' b k argumentKey' bKey apart => ?_, rfl, fun latest => ?_⟩
  · rw [argumentKey] at argumentKey'
    cases argumentKey'
    unfold heldIn
    rw [changed, if_pos rfl]
    exact Generation.held_insert_of_apart key placed bKey apart
  · have current : ((c.counting fun s => { s with stores := s.stores + 1 }).modify ticket.generation
        fun g => g.insert ticket.place a r).current = c.current := by
      unfold MemoCache.current MemoCache.modify
      rw [Array.size_modify]
      rfl
    show (MemoCache.generation _ _).size = _
    rw [current, changed, if_pos latest.symm, latest]
    rw [latest] at place
    exact Generation.size_insert place a r

/-- What was held for another number of the type of the argument is held as well: the keys of numbers that are
not floating differ with them. -/
theorem Stored.heldIn_of_ne (stored : c.Stored function ticket r c') {t : ValueType} (whole : t.isFloat = false)
    (typed : ticket.argument.value.hasType t = true) {b : Boxed} (ofType : b.value.hasType t = true)
    (other : b.value ≠ ticket.argument.value) :
    c'.heldIn ticket.generation function b = c.heldIn ticket.generation function b := by
  obtain ⟨number, shape, -⟩ := Value.hasType_iff.1 typed
  obtain ⟨number', shape', -⟩ := Value.hasType_iff.1 ofType
  have keyed : ∀ {b : Boxed} {n : Scalar}, b.value = .scalar n →
      keyOf b = .ok ⟨.ofExact (Number.scalar n).exact, b⟩ := by
    intro b n scalar
    unfold keyOf Boxed.key?
    rw [scalar]
    rfl
  have agrees : Key.Agrees ⟨.ofExact (Number.scalar number').exact, b⟩
      ⟨.ofExact (Number.scalar number).exact, ticket.argument⟩ :=
    Key.agrees_of_hasType whole typed ofType
  obtain ⟨met, verdict, equal⟩ := agrees
  have apart : met = false := Bool.eq_false_iff.2 fun yes => other (equal yes).symm
  rw [apart] at verdict
  exact stored.others _ _ _ (keyed shape) (keyed shape') verdict

end MemoCache

end Knot
