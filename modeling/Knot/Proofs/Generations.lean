import Knot.Memo
import Knot.Proofs.Builders
import Mathlib.Data.List.Infix

/-!
# Generations of a memo cache

Lookups that overlap in any way, with resets between their steps: a run of a cache is a list of
events (`CacheEvent`), each of which begins a lookup, ends one, or resets the cache, and
`CacheRun.run` says what becomes of the cache and of the lookups.

Generations only grow (`MemoCache.Extends`), so what a generation holds for a function and an
argument it holds for ever. Every lookup is bound to the generation that it began in
(`CacheRun.Bound`), and each result that is held was brought by a lookup bound to its generation
(`CacheRun.stored`). `CacheRun.agreement` puts this together.
-/

namespace Knot

/-! ## Entries in order -/

namespace Key

variable {α : Type} {sought : Key} {entries more : List (Key × α)}

/-- A key is at the head, or further on if it is not there. -/
theorem place?_cons_eq_some {stored : Key} {a : α} {p : Nat} :
    sought.place? ((stored, a) :: entries) = .ok (some p) ↔
      (stored.meets sought = .ok true ∧ p = 0) ∨
        (stored.meets sought = .ok false ∧
          ∃ q, sought.place? entries = .ok (some q) ∧ p = q + 1) := by
  rw [place?]
  cases met : stored.meets sought with
  | error f => simp [bind, Except.bind]
  | ok found =>
    cases found with
    | true => simp [bind, Except.bind, pure, Except.pure, eq_comm]
    | false =>
      cases sought.place? entries with
      | error f => simp [bind, Except.bind]
      | ok q => cases q <;> simp [bind, Except.bind, pure, Except.pure, eq_comm]

theorem place?_cons_eq_none {stored : Key} {a : α} :
    sought.place? ((stored, a) :: entries) = .ok none ↔
      stored.meets sought = .ok false ∧ sought.place? entries = .ok none := by
  rw [place?]
  cases met : stored.meets sought with
  | error f => simp [bind, Except.bind]
  | ok found =>
    cases found with
    | true => simp [bind, Except.bind, pure, Except.pure]
    | false =>
      cases sought.place? entries with
      | error f => simp [bind, Except.bind]
      | ok q => cases q <;> simp [bind, Except.bind, pure, Except.pure]

/-- The place of a key depends on the keys before it only. -/
theorem place?_of_prefix {p : Nat} (keys : entries.map Prod.fst <+: more.map Prod.fst)
    (found : sought.place? entries = .ok (some p)) : sought.place? more = .ok (some p) := by
  induction entries generalizing more p with
  | nil => cases found
  | cons head rest ih =>
    cases more with
    | nil => simp at keys
    | cons head' rest' =>
      obtain ⟨stored, a⟩ := head
      obtain ⟨stored', a'⟩ := head'
      simp only [List.map_cons, List.cons_prefix_cons] at keys
      obtain ⟨rfl, keys⟩ := keys
      refine place?_cons_eq_some.2 ((place?_cons_eq_some.1 found).imp id ?_)
      rintro ⟨apart, q, later, rfl⟩
      exact ⟨apart, q, ih keys later, rfl⟩

theorem place?_lt {p : Nat} (found : sought.place? entries = .ok (some p)) : p < entries.length := by
  induction entries generalizing p with
  | nil => cases found
  | cons head rest ih =>
    rcases place?_cons_eq_some.1 found with ⟨-, rfl⟩ | ⟨-, q, later, rfl⟩
    · exact Nat.succ_pos _
    · exact Nat.succ_lt_succ (ih later)

/-- A key that is not found is found where it is added at the end. -/
theorem place?_append_self (itself : sought.meets sought = .ok true)
    (absent : sought.place? entries = .ok none) (a : α) :
    sought.place? (entries ++ [(sought, a)]) = .ok (some entries.length) := by
  induction entries with
  | nil => exact place?_cons_eq_some.2 (.inl ⟨itself, rfl⟩)
  | cons head rest ih =>
    obtain ⟨apart, later⟩ := place?_cons_eq_none.1 absent
    exact place?_cons_eq_some.2 (.inr ⟨apart, rest.length, ih later, rfl⟩)

/-- A place in the first part of a list is found there. -/
theorem place?_of_append {p : Nat} (found : sought.place? (entries ++ more) = .ok (some p))
    (inside : p < entries.length) : sought.place? entries = .ok (some p) := by
  induction entries generalizing p with
  | nil => exact absurd inside (Nat.not_lt_zero p)
  | cons head rest ih =>
    refine place?_cons_eq_some.2 ((place?_cons_eq_some.1 found).imp id ?_)
    rintro ⟨apart, q, later, rfl⟩
    exact ⟨apart, q, ih later (Nat.lt_of_succ_lt_succ inside), rfl⟩

theorem find?_cons_eq_some {stored : Key} {a r : α} :
    sought.find? ((stored, a) :: entries) = .ok (some r) ↔
      (stored.meets sought = .ok true ∧ a = r) ∨
        (stored.meets sought = .ok false ∧ sought.find? entries = .ok (some r)) := by
  rw [find?]
  cases met : stored.meets sought with
  | error f => simp [bind, Except.bind]
  | ok found => cases found <;> simp [bind, Except.bind, pure, Except.pure]

theorem find?_cons_of_apart {stored : Key} {a : α} (apart : stored.meets sought = .ok false) :
    sought.find? ((stored, a) :: entries) = sought.find? entries := by
  rw [find?, apart]
  rfl

/-- What is found in a list with one entry more was found before, or it is the entry. -/
theorem find?_append_one {stored : Key} {a r : α}
    (found : sought.find? (entries ++ [(stored, a)]) = .ok (some r)) :
    sought.find? entries = .ok (some r) ∨ (sought.find? entries = .ok none ∧ a = r) := by
  induction entries with
  | nil =>
    rcases find?_cons_eq_some.1 found with ⟨-, same⟩ | ⟨-, none⟩
    · exact .inr ⟨rfl, same⟩
    · cases none
  | cons head rest ih =>
    rcases find?_cons_eq_some.1 found with here | ⟨apart, later⟩
    · exact .inl (find?_cons_eq_some.2 (.inl here))
    · rw [find?_cons_of_apart apart]
      exact ih later

theorem find?_append_self (itself : sought.meets sought = .ok true)
    (absent : sought.find? entries = .ok none) (a : α) :
    sought.find? (entries ++ [(sought, a)]) = .ok (some a) := by
  rw [find?_append_of_none _ absent, find?, itself]
  rfl

/-- Whether a key cannot tell two boxes apart. -/
def Alike (stored : Key) (b b' : Boxed) : Prop :=
  ∀ s s', b.key? = some s → b'.key? = some s' → stored.meets s = stored.meets s'

theorem place?_congr {s s' : Key} (alike : ∀ e ∈ entries, e.1.meets s = e.1.meets s') :
    s.place? entries = s'.place? entries := by
  induction entries with
  | nil => rfl
  | cons head rest ih =>
    obtain ⟨first, later⟩ := List.forall_mem_cons.1 alike
    obtain ⟨stored, a⟩ := head
    have first : stored.meets s = stored.meets s' := first
    unfold place?
    rw [first, ih later]

theorem find?_congr {s s' : Key} (alike : ∀ e ∈ entries, e.1.meets s = e.1.meets s') :
    s.find? entries = s'.find? entries := by
  rw [find?_eq_place?, find?_eq_place?, place?_congr alike]

end Key

/-- A box is the same as itself. -/
theorem Boxed.same_refl (b : Boxed) : b.same b = true := by
  unfold same
  cases b.value with
  | scalar s => cases s <;> simp
  | _ => simp

theorem MemoCache.keyOf_eq_ok {b : Boxed} {k : Key} : keyOf b = .ok k ↔ b.key? = some k := by
  unfold keyOf
  cases b.key? <;> simp

/-- The key of a box meets itself. -/
theorem Key.meets_self (k : Key) : k.meets k = .ok true := meets_of_same k.box.same_refl

/-! ## What a generation holds -/

namespace Generation

theorem mem_table {g : Generation} {place : Nat} {e : Key × Boxed} (inside : e ∈ g.table place) :
    ∃ t ∈ g.tables, e ∈ t.2 := by
  unfold table at inside
  cases found : g.tables[place]? with
  | none => simp [found] at inside
  | some t => exact ⟨t, List.mem_of_getElem? found, by simpa [found] using inside⟩

/-- What is kept for a function and an argument, if anything is. -/
def held (g : Generation) (function argument : Boxed) : Except Fault (Option Boxed) := do
  let f ← MemoCache.keyOf function
  match ← g.place? f with
  | none => pure none
  | some place =>
    let a ← MemoCache.keyOf argument
    g.get? place a

/-- Something is kept if it is in the table of the function. -/
theorem held_eq_some {g : Generation} {function argument r : Boxed} :
    g.held function argument = .ok (some r) ↔
      ∃ f place a, MemoCache.keyOf function = .ok f ∧ g.place? f = .ok (some place) ∧
        MemoCache.keyOf argument = .ok a ∧ g.get? place a = .ok (some r) := by
  unfold held
  cases MemoCache.keyOf function with
  | error fault => simp [bind, Except.bind]
  | ok f =>
    simp only [bind, Except.bind]
    cases placed : g.place? f with
    | error fault => simp [placed]
    | ok found =>
      cases found with
      | none => simp [placed, pure, Except.pure]
      | some place =>
        cases MemoCache.keyOf argument with
        | error fault => simp
        | ok a => simp [placed]

/-- Whether a generation has only grown into another: at the end of the list of its functions, and at
the ends of its tables. -/
structure Extends (g g' : Generation) : Prop where
  functions : g.tables.map Prod.fst <+: g'.tables.map Prod.fst
  tables : ∀ place, g.table place <+: g'.table place

theorem Extends.refl (g : Generation) : g.Extends g :=
  ⟨List.prefix_refl _, fun _ => List.prefix_refl _⟩

theorem Extends.trans {g g' g'' : Generation} (first : g.Extends g') (second : g'.Extends g'') :
    g.Extends g'' :=
  ⟨first.functions.trans second.functions, fun p => (first.tables p).trans (second.tables p)⟩

/-- A new function comes last. -/
theorem extends_register (g : Generation) (f : Key) : g.Extends (g.register f) := by
  refine ⟨?_, fun p => ?_⟩
  · rw [register, List.map_append]
    exact List.prefix_append _ _
  · rw [table_register]

/-- A result changes no function. -/
theorem functions_insert (g : Generation) (place : Nat) (a : Key) (r : Boxed) :
    (g.insert place a r).tables.map Prod.fst = g.tables.map Prod.fst := by
  refine List.ext_getElem? fun p => ?_
  rw [insert, List.getElem?_map, List.getElem?_map, List.getElem?_modify]
  cases g.tables[p]? with
  | none => simp
  | some t => by_cases same : place = p <;> simp [same]

/-- A new result comes last in its table. -/
theorem extends_insert (g : Generation) {place : Nat} (inside : place < g.tables.length) (a : Key)
    (r : Boxed) : g.Extends (g.insert place a r) := by
  refine ⟨(functions_insert g place a r).symm ▸ List.prefix_refl _, fun p => ?_⟩
  rw [table_insert g place p a r inside]
  split
  next same =>
    subst same
    exact List.prefix_append _ _
  next => exact List.prefix_refl _

/-- What is held stays held. -/
theorem Extends.held {g g' : Generation} (h : g.Extends g') {function argument r : Boxed}
    (kept : g.held function argument = .ok (some r)) : g'.held function argument = .ok (some r) := by
  obtain ⟨f, place, a, functionKey, placed, argumentKey, found⟩ := held_eq_some.1 kept
  refine held_eq_some.2 ⟨f, place, a, functionKey, Key.place?_of_prefix h.functions placed,
    argumentKey, ?_⟩
  obtain ⟨rest, longer⟩ := h.tables place
  unfold get? at found ⊢
  rw [← longer]
  exact Key.find?_append_of_some rest found

/-- A new function holds nothing. -/
theorem held_of_register {g : Generation} {k : Key} {function argument r : Boxed}
    (kept : (g.register k).held function argument = .ok (some r)) :
    g.held function argument = .ok (some r) := by
  obtain ⟨f, place, a, functionKey, placed, argumentKey, found⟩ := held_eq_some.1 kept
  unfold get? at found
  rw [table_register] at found
  have inside : place < g.tables.length := by
    by_contra beyond
    have empty : g.table place = [] := by
      rw [table, List.getElem?_eq_none (Nat.le_of_not_lt beyond)]
      rfl
    rw [empty] at found
    cases found
  exact held_eq_some.2 ⟨f, place, a, functionKey, Key.place?_of_append placed inside, argumentKey,
    found⟩

/-- What is held after a result has come was held before, or is the result. -/
theorem held_of_insert {g : Generation} {p : Nat} {k : Key} {new function argument r : Boxed}
    (inside : p < g.tables.length)
    (kept : (g.insert p k new).held function argument = .ok (some r)) :
    g.held function argument = .ok (some r) ∨
      (g.held function argument = .ok none ∧ new = r) := by
  obtain ⟨f, place, a, functionKey, placed, argumentKey, found⟩ := held_eq_some.1 kept
  have placed : g.place? f = .ok (some place) :=
    Key.place?_of_prefix (functions_insert g p k new ▸ List.prefix_refl _) placed
  have before : ∀ x, g.get? place a = .ok x → g.held function argument = .ok x := by
    intro x got
    unfold held
    simp only [functionKey, bind, Except.bind, placed, argumentKey, got]
  unfold get? at found
  rw [table_insert g p place k new inside] at found
  split at found
  next same =>
    subst same
    rcases Key.find?_append_one found with old | ⟨none, same⟩
    · exact .inl (before _ old)
    · exact .inr ⟨before _ none, same⟩
  next => exact .inl (before _ found)

/-- Whether the functions and the arguments of a generation cannot tell two lookups apart. -/
structure Alike (g : Generation) (function argument function' argument' : Boxed) : Prop where
  functions : ∀ t ∈ g.tables, t.1.Alike function function'
  arguments : ∀ t ∈ g.tables, ∀ e ∈ t.2, e.1.Alike argument argument'

/-- Lookups that cannot be told apart find the same. -/
theorem Alike.held {g : Generation} {function argument function' argument' r r' : Boxed}
    (alike : g.Alike function argument function' argument')
    (kept : g.held function argument = .ok (some r))
    (kept' : g.held function' argument' = .ok (some r')) : r = r' := by
  obtain ⟨f, place, a, functionKey, placed, argumentKey, found⟩ := held_eq_some.1 kept
  obtain ⟨f', place', a', functionKey', placed', argumentKey', found'⟩ := held_eq_some.1 kept'
  have functions : ∀ t ∈ g.tables, t.1.meets f = t.1.meets f' := fun t inside =>
    alike.functions t inside f f' (MemoCache.keyOf_eq_ok.1 functionKey)
      (MemoCache.keyOf_eq_ok.1 functionKey')
  have arguments : ∀ e ∈ g.table place, e.1.meets a = e.1.meets a' := by
    intro e inside
    obtain ⟨t, member, within⟩ := mem_table inside
    exact alike.arguments t member e within a a' (MemoCache.keyOf_eq_ok.1 argumentKey)
      (MemoCache.keyOf_eq_ok.1 argumentKey')
  unfold place? at placed placed'
  rw [Key.place?_congr functions, placed'] at placed
  cases placed
  unfold get? at found found'
  rw [Key.find?_congr arguments, found'] at found
  cases found
  rfl

end Generation

/-! ## Runs -/

namespace MemoCache

/-- What a generation of a number holds for a function and an argument. -/
def heldIn (c : MemoCache) (n : Nat) (function argument : Boxed) : Except Fault (Option Boxed) :=
  (c.generation n).held function argument

/-- Lookups see what the current generation holds. -/
theorem peek_eq_heldIn (c : MemoCache) (function argument : Boxed) :
    c.peek function argument = c.heldIn c.current function argument := rfl

/-- Whether a cache has only grown into another. -/
structure Extends (c c' : MemoCache) : Prop where
  size : c.generations.size ≤ c'.generations.size
  generation : ∀ n, (c.generation n).Extends (c'.generation n)

variable {c c' : MemoCache}

theorem Extends.current (h : c.Extends c') : c.current ≤ c'.current := Nat.sub_le_sub_right h.size 1

theorem Extends.refl (c : MemoCache) : c.Extends c := ⟨Nat.le_refl _, fun _ => .refl _⟩

theorem Extends.trans {c'' : MemoCache} (first : c.Extends c') (second : c'.Extends c'') :
    c.Extends c'' :=
  ⟨first.size.trans second.size, fun n => (first.generation n).trans (second.generation n)⟩

/-- What is held in a generation stays held. -/
theorem Extends.heldIn (h : c.Extends c') {n : Nat} {function argument r : Boxed}
    (kept : c.heldIn n function argument = .ok (some r)) :
    c'.heldIn n function argument = .ok (some r) := (h.generation n).held kept

/-- Only the generations count. -/
theorem Extends.of_eq (same : c'.generations = c.generations) : c.Extends c' := by
  refine ⟨Nat.le_of_eq (congrArg _ same.symm), fun n => ?_⟩
  rw [MemoCache.generation, MemoCache.generation, same]
  exact .refl _

theorem heldIn_of_eq (same : c'.generations = c.generations) (n : Nat) (function argument : Boxed) :
    c'.heldIn n function argument = c.heldIn n function argument := by
  rw [heldIn, heldIn, MemoCache.generation, MemoCache.generation, same]

theorem extends_modify {n : Nat} {f : Generation → Generation}
    (grows : (c.generation n).Extends (f (c.generation n))) : c.Extends (c.modify n f) := by
  refine ⟨?_, fun k => ?_⟩
  · rw [MemoCache.modify, Array.size_modify]
  · unfold MemoCache.generation MemoCache.modify at *
    simp only [Array.getElem?_modify]
    by_cases here : n = k
    · subst here
      cases found : c.generations[n]? with
      | none => simpa [found] using Generation.Extends.refl _
      | some g => simpa [found] using grows
    · rw [if_neg here]
      exact .refl _

theorem generation_modify {n : Nat} (inside : n < c.generations.size) (f : Generation → Generation)
    (k : Nat) :
    (c.modify n f).generation k = if k = n then f (c.generation n) else c.generation k := by
  unfold MemoCache.generation MemoCache.modify
  simp only [Array.getElem?_modify]
  by_cases here : n = k
  · subst here
    simp [Array.getElem?_eq_getElem inside]
  · rw [if_neg here, if_neg fun same => here same.symm]

/-- A new generation is empty. -/
theorem generation_reset (n : Nat) : c.reset.generation n = c.generation n := by
  unfold MemoCache.generation MemoCache.reset
  simp only [Array.getElem?_push]
  split
  next last => rw [last, Array.getElem?_eq_none (Nat.le_refl _)]; rfl
  next => rfl

theorem current_reset (begun : 0 < c.generations.size) : c.reset.current = c.current + 1 := by
  simp only [MemoCache.current, MemoCache.reset, Array.size_push]
  omega

theorem extends_reset (c : MemoCache) : c.Extends c.reset := by
  refine ⟨?_, fun n => ?_⟩
  · rw [MemoCache.reset, Array.size_push]
    exact Nat.le_succ _
  · rw [generation_reset]
    exact .refl _

/-- Whether a ticket leads to the table of a function. -/
def Leads (c : MemoCache) (t : Ticket) (function : Boxed) : Prop :=
  ∃ k, keyOf function = .ok k ∧ (c.generation t.generation).place? k = .ok (some t.place)

theorem Leads.later {t : Ticket} {function : Boxed} (h : c.Leads t function)
    (later : c.Extends c') : c'.Leads t function := by
  obtain ⟨k, key, placed⟩ := h
  exact ⟨k, key, Key.place?_of_prefix (later.generation _).functions placed⟩

/-- What the first step of a lookup can do. -/
theorem start_cases {function argument : Boxed} {begun : Begun}
    (h : c.start function argument = .ok (begun, c')) :
    (begun = .bypassed ∧ c'.generations = c.generations) ∨
    (∃ r, begun = .hit r ∧ c'.generations = c.generations ∧
      c.heldIn c.current function argument = .ok (some r)) ∨
    (∃ place, begun = .pending ⟨c.current, place, argument⟩ ∧ c'.generations = c.generations ∧
      c.Leads ⟨c.current, place, argument⟩ function) ∨
    (∃ k, begun = .pending ⟨c.current, c.latest.functions, argument⟩ ∧ keyOf function = .ok k ∧
      c.latest.place? k = .ok none ∧
      c'.generations = (c.modify c.current fun g => g.register k).generations) := by
  unfold start at h
  split at h
  next =>
    cases h
    exact .inl ⟨rfl, rfl⟩
  next =>
    refine .inr ?_
    obtain ⟨k, key, h⟩ := Except.bind_eq_ok.1 h
    obtain ⟨found, placed, h⟩ := Except.bind_eq_ok.1 h
    cases found with
    -- an unknown function is registered, and the ticket leads to its table
    | none =>
      cases h
      exact .inr (.inr ⟨k, rfl, key, placed, rfl⟩)
    | some place =>
      obtain ⟨a, argumentKey, h⟩ := Except.bind_eq_ok.1 h
      obtain ⟨kept, got, h⟩ := Except.bind_eq_ok.1 h
      cases kept with
      | none =>
        cases h
        exact .inr (.inl ⟨place, rfl, rfl, k, key, placed⟩)
      | some r =>
        cases h
        have held := Generation.held_eq_some.2 ⟨k, place, a, key, placed, argumentKey, got⟩
        exact .inl ⟨r, rfl, rfl, held⟩

/-- What the second step of a lookup can do. -/
theorem finish_cases {t : Ticket} {r kept : Boxed} (h : c.finish t r = .ok (kept, c')) :
    ∃ a, keyOf t.argument = .ok a ∧
      (((c.generation t.generation).get? t.place a = .ok (some kept) ∧
        c'.generations = c.generations) ∨
      ((c.generation t.generation).get? t.place a = .ok none ∧ kept = r ∧
        c'.generations = (c.modify t.generation fun g => g.insert t.place a r).generations)) := by
  unfold finish at h
  obtain ⟨a, key, h⟩ := Except.bind_eq_ok.1 h
  obtain ⟨found, got, h⟩ := Except.bind_eq_ok.1 h
  refine ⟨a, key, ?_⟩
  cases found with
  | none =>
    cases h
    exact .inr ⟨got, rfl, rfl⟩
  | some old =>
    cases h
    refine .inl ⟨got, ?_⟩
    split <;> rfl

/-- The first step of a lookup adds at most an empty table. -/
theorem start_extends {function argument : Boxed} {begun : Begun}
    (h : c.start function argument = .ok (begun, c')) : c.Extends c' := by
  rcases start_cases h with ⟨-, same⟩ | ⟨r, -, same, -⟩ | ⟨place, -, same, -⟩ | ⟨k, -, -, -, same⟩
  · exact .of_eq same
  · exact .of_eq same
  · exact .of_eq same
  · exact (extends_modify (Generation.extends_register _ k)).trans (.of_eq same)

/-- What a lookup finds at its beginning is held. -/
theorem start_returns {function argument r : Boxed}
    (h : c.start function argument = .ok (.hit r, c')) :
    c'.heldIn c.current function argument = .ok (some r) := by
  rcases start_cases h with ⟨none, -⟩ | ⟨v, same, kept, held⟩ | ⟨place, none, -⟩ | ⟨k, none, -⟩
  · cases none
  · cases same
    rwa [heldIn_of_eq kept]
  · cases none
  · cases none

/-- So what is held after it was held before. -/
theorem start_held (inside : c.current < c.generations.size) {function argument : Boxed}
    {begun : Begun} (h : c.start function argument = .ok (begun, c')) {n : Nat} {f a r : Boxed}
    (kept : c'.heldIn n f a = .ok (some r)) : c.heldIn n f a = .ok (some r) := by
  rcases start_cases h with ⟨-, same⟩ | ⟨r, -, same, -⟩ | ⟨place, -, same, -⟩ | ⟨k, -, -, -, same⟩
  · rwa [heldIn_of_eq same] at kept
  · rwa [heldIn_of_eq same] at kept
  · rwa [heldIn_of_eq same] at kept
  · rw [heldIn_of_eq same, heldIn, generation_modify inside] at kept
    split at kept
    next here =>
      subst here
      exact Generation.held_of_register kept
    next => exact kept

/-- A ticket leads to the table of its function. -/
theorem start_leads (inside : c.current < c.generations.size) {function argument : Boxed}
    {t : Ticket} (h : c.start function argument = .ok (.pending t, c')) :
    t.generation = c.current ∧ t.argument = argument ∧ c'.Leads t function := by
  rcases start_cases h with ⟨none, -⟩ | ⟨r, none, -⟩ | ⟨place, same, kept, leads⟩ |
    ⟨k, same, key, absent, new⟩
  · cases none
  · cases none
  · cases same
    exact ⟨rfl, rfl, leads.later (.of_eq kept)⟩
  · cases same
    refine ⟨rfl, rfl, k, key, ?_⟩
    have generation : c'.generation c.current = c.latest.register k := by
      rw [MemoCache.generation, new]
      exact (generation_modify inside _ _).trans (if_pos rfl)
    rw [generation]
    exact Key.place?_append_self k.meets_self absent []

/-- The table that a ticket leads to is there. -/
theorem Leads.inside {t : Ticket} {function : Boxed} (h : c.Leads t function) :
    t.place < (c.generation t.generation).tables.length ∧ t.generation < c.generations.size := by
  obtain ⟨k, -, placed⟩ := h
  have place := Key.place?_lt placed
  refine ⟨place, ?_⟩
  by_contra beyond
  have empty : c.generation t.generation = .empty := by
    rw [MemoCache.generation, Array.getElem?_eq_none (Nat.le_of_not_lt beyond)]
    rfl
  rw [empty] at place
  exact absurd place (Nat.not_lt_zero _)

/-- The second step of a lookup adds at most a result. -/
theorem finish_extends {t : Ticket} {function r kept : Boxed} (leads : c.Leads t function)
    (h : c.finish t r = .ok (kept, c')) : c.Extends c' := by
  obtain ⟨a, -, ⟨-, same⟩ | ⟨-, -, same⟩⟩ := finish_cases h
  · exact .of_eq same
  · exact (extends_modify (Generation.extends_insert _ leads.inside.1 a r)).trans (.of_eq same)

/-- What a lookup returns is held from then on. -/
theorem finish_returns {t : Ticket} {function r kept : Boxed} (leads : c.Leads t function)
    (h : c.finish t r = .ok (kept, c')) :
    c'.heldIn t.generation function t.argument = .ok (some kept) := by
  obtain ⟨k, key, placed⟩ := leads.later (finish_extends leads h)
  obtain ⟨place, generation⟩ := leads.inside
  refine Generation.held_eq_some.2 ⟨k, t.place, ?_⟩
  obtain ⟨a, argumentKey, ⟨got, same⟩ | ⟨absent, rfl, same⟩⟩ := finish_cases h
  · refine ⟨a, key, placed, argumentKey, ?_⟩
    rwa [MemoCache.generation, same]
  · refine ⟨a, key, placed, argumentKey, ?_⟩
    have new : c'.generation t.generation = (c.generation t.generation).insert t.place a kept := by
      rw [MemoCache.generation, same]
      exact (generation_modify generation _ _).trans (if_pos rfl)
    rw [new, Generation.get?, Generation.table_insert _ _ _ _ _ place, if_pos rfl]
    exact Key.find?_append_self a.meets_self absent kept

/-- What is held after it was held before, or it is the result that was brought, and it is
returned. -/
theorem finish_held {t : Ticket} {function r kept : Boxed} (leads : c.Leads t function)
    (h : c.finish t r = .ok (kept, c')) {n : Nat} {f a x : Boxed}
    (held : c'.heldIn n f a = .ok (some x)) :
    c.heldIn n f a = .ok (some x) ∨
      (c.heldIn n f a = .ok none ∧ n = t.generation ∧ r = x ∧ kept = x) := by
  obtain ⟨place, generation⟩ := leads.inside
  obtain ⟨b, -, ⟨-, same⟩ | ⟨-, rfl, same⟩⟩ := finish_cases h
  · exact .inl (heldIn_of_eq same n f a ▸ held)
  · rw [heldIn_of_eq same, heldIn, generation_modify generation] at held
    split at held
    next here =>
      subst here
      rcases Generation.held_of_insert place held with old | ⟨none, rfl⟩
      · exact .inl old
      · exact .inr ⟨none, rfl, rfl, rfl⟩
    next => exact .inl held

end MemoCache

/-- What can happen to a cache. Lookups are numbered in the order in which they begin. -/
inductive CacheEvent where
  | start (function argument : Boxed)
  /-- The computation of a lookup gave a result. -/
  | finish (lookup : Nat) (result : Boxed)
  /-- The computation of a lookup failed. -/
  | fail (lookup : Nat)
  | reset

/-- How far a lookup has come. -/
inductive Stage where
  | pending (ticket : Ticket)
  | returned (result : Boxed)
  | failed

/-- A lookup, with the generation that it began in. -/
structure Lookup where
  function : Boxed
  argument : Boxed
  generation : Nat
  stage : Stage

namespace Lookup

/-- Whether a lookup is another one at a later time: it is about the same and of the same generation,
and if it had ended, it has ended so. -/
structure Becomes (l l' : Lookup) : Prop where
  function : l'.function = l.function
  argument : l'.argument = l.argument
  generation : l'.generation = l.generation
  ended : (∀ t, l.stage ≠ .pending t) → l'.stage = l.stage

theorem Becomes.refl (l : Lookup) : l.Becomes l := ⟨rfl, rfl, rfl, fun _ => rfl⟩

theorem Becomes.trans {l l' l'' : Lookup} (first : l.Becomes l') (second : l'.Becomes l'') :
    l.Becomes l'' := by
  refine ⟨second.function.trans first.function, second.argument.trans first.argument,
    second.generation.trans first.generation, fun settled => ?_⟩
  have same := first.ended settled
  exact (second.ended fun t => same ▸ settled t).trans same

/-- What ties a lookup to its generation: a ticket is one for a table of that generation, and a result
that was returned is held there. -/
structure BoundTo (l : Lookup) (c : MemoCache) : Prop where
  begun : l.generation ≤ c.current
  pending : ∀ t, l.stage = .pending t →
    t.generation = l.generation ∧ t.argument = l.argument ∧ c.Leads t l.function
  returned : ∀ r, l.stage = .returned r → c.heldIn l.generation l.function l.argument = .ok (some r)

/-- What has been tied stays tied while the cache grows. -/
theorem BoundTo.later {l : Lookup} {c c' : MemoCache} (h : l.BoundTo c) (later : c.Extends c') :
    l.BoundTo c' := by
  refine ⟨h.begun.trans later.current, fun t waiting => ?_, fun r ended => ?_⟩
  · obtain ⟨generation, argument, leads⟩ := h.pending t waiting
    exact ⟨generation, argument, leads.later later⟩
  · exact later.heldIn (h.returned r ended)

end Lookup

/-- A cache and the lookups that have begun. -/
structure CacheRun where
  cache : MemoCache
  lookups : List Lookup

namespace CacheRun

/-- A cache that has never been used. -/
def unused : CacheRun := ⟨.empty, []⟩

/-- A lookup has begun. -/
def began (s : CacheRun) (c : MemoCache) (function argument : Boxed) (stage : Stage) : CacheRun :=
  ⟨c, s.lookups ++ [⟨function, argument, s.cache.current, stage⟩]⟩

/-- A lookup has ended. -/
def ended (s : CacheRun) (c : MemoCache) (i : Nat) (stage : Stage) : CacheRun :=
  ⟨c, s.lookups.modify i fun l => { l with stage := stage }⟩

/-- The ticket of a lookup that has begun and not ended. -/
def ticket? (s : CacheRun) (i : Nat) : Option Ticket :=
  match s.lookups[i]? with
  | some ⟨_, _, _, .pending t⟩ => some t
  | _ => none

/-- The next event. A lookup that is bypassed is none of the cache, and only a lookup that has begun
and not ended can end. A lookup fails if its keys cannot be compared. -/
def step (s : CacheRun) : CacheEvent → CacheRun
  | .start function argument =>
    match s.cache.start function argument with
    | .error _ => s.began s.cache function argument .failed
    | .ok (.bypassed, c) => ⟨c, s.lookups⟩
    | .ok (.hit r, c) => s.began c function argument (.returned r)
    | .ok (.pending t, c) => s.began c function argument (.pending t)
  | .finish i r =>
    match s.ticket? i with
    | none => s
    | some t =>
      match s.cache.finish t r with
      | .error _ => s.ended s.cache i .failed
      | .ok (kept, c) => s.ended c i (.returned kept)
  | .fail i =>
    match s.ticket? i with
    | none => s
    | some _ => s.ended s.cache i .failed
  | .reset => ⟨s.cache.reset, s.lookups⟩

/-- What a list of events makes of a cache that has never been used. -/
def run (events : List CacheEvent) : CacheRun := events.foldl step unused

/-! ## Lookups in a run -/

theorem ticket?_eq_some {s : CacheRun} {i : Nat} {t : Ticket} :
    s.ticket? i = some t ↔ ∃ l, s.lookups[i]? = some l ∧ l.stage = .pending t := by
  unfold ticket?
  rcases s.lookups[i]? with - | ⟨f, a, n, t' | r | -⟩ <;> simp

/-- What the end of a computation can do. -/
theorem step_finish_cases (s : CacheRun) (i : Nat) (r : Boxed) :
    s.step (.finish i r) = s ∨ ∃ l t, s.lookups[i]? = some l ∧ l.stage = .pending t ∧
      (s.step (.finish i r) = s.ended s.cache i .failed ∨
        ∃ kept c, s.cache.finish t r = .ok (kept, c) ∧
          s.step (.finish i r) = s.ended c i (.returned kept)) := by
  cases ongoing : s.ticket? i with
  | none => simp [step, ongoing]
  | some t =>
    obtain ⟨l, found, pending⟩ := ticket?_eq_some.1 ongoing
    refine .inr ⟨l, t, found, pending, ?_⟩
    cases done : s.cache.finish t r with
    | error fault => exact .inl (by simp [step, ongoing, done])
    | ok result => exact .inr ⟨result.1, result.2, rfl, by simp [step, ongoing, done]⟩

/-- What a failure of a computation can do. -/
theorem step_fail_cases (s : CacheRun) (i : Nat) :
    s.step (.fail i) = s ∨ ∃ l t, s.lookups[i]? = some l ∧ l.stage = .pending t ∧
      s.step (.fail i) = s.ended s.cache i .failed := by
  cases ongoing : s.ticket? i with
  | none => simp [step, ongoing]
  | some t =>
    obtain ⟨l, found, pending⟩ := ticket?_eq_some.1 ongoing
    exact .inr ⟨l, t, found, pending, by simp [step, ongoing]⟩

/-- What the beginning of a lookup can do. -/
theorem step_start_cases (s : CacheRun) (function argument : Boxed) :
    s.step (.start function argument) = s.began s.cache function argument .failed ∨
    ∃ begun c, s.cache.start function argument = .ok (begun, c) ∧
      ((begun = .bypassed ∧ s.step (.start function argument) = ⟨c, s.lookups⟩) ∨
      (∃ r, begun = .hit r ∧
        s.step (.start function argument) = s.began c function argument (.returned r)) ∨
      (∃ t, begun = .pending t ∧
        s.step (.start function argument) = s.began c function argument (.pending t))) := by
  cases done : s.cache.start function argument with
  | error fault => simp [step, done]
  | ok result =>
    obtain ⟨begun, c⟩ := result
    refine .inr ⟨begun, c, rfl, ?_⟩
    cases begun <;> simp [step, done]

/-- The lookup that ends gets another stage. -/
theorem lookups_ended (s : CacheRun) (c : MemoCache) (i j : Nat) (stage : Stage) :
    (s.ended c i stage).lookups[j]? =
      if i = j then (s.lookups[j]?).map fun l => { l with stage := stage } else s.lookups[j]? := by
  simp only [ended, List.getElem?_modify]
  split
  · rfl
  · exact id_map' _

/-- A lookup that has begun stays the lookup that it is. -/
theorem lookups_step {s : CacheRun} {i : Nat} {l : Lookup} (found : s.lookups[i]? = some l)
    (x : CacheEvent) : ∃ l', (s.step x).lookups[i]? = some l' ∧ l.Becomes l' := by
  have kept : ∃ l', s.lookups[i]? = some l' ∧ l.Becomes l' := ⟨l, found, .refl l⟩
  have beginning (c : MemoCache) (f a : Boxed) (stage : Stage) :
      ∃ l', (s.began c f a stage).lookups[i]? = some l' ∧ l.Becomes l' := by
    refine ⟨l, ?_, .refl l⟩
    exact (List.getElem?_append_left (List.getElem?_eq_some_iff.1 found).1).trans found
  have ending (c : MemoCache) (j : Nat) (stage : Stage) {o : Lookup} {t : Ticket}
      (other : s.lookups[j]? = some o) (pending : o.stage = .pending t) :
      ∃ l', (s.ended c j stage).lookups[i]? = some l' ∧ l.Becomes l' := by
    rw [lookups_ended]
    split
    next here =>
      subst here
      cases found.symm.trans other
      exact ⟨{ l with stage := stage }, by rw [found]; rfl, rfl, rfl, rfl,
        fun settled => absurd pending (settled t)⟩
    next => exact kept
  -- an event begins a lookup, ends one, or leaves the lookups as they are
  cases x with
  | start f a =>
    rcases step_start_cases s f a with failed | ⟨begun, c, -, ⟨-, next⟩ | ⟨r, -, next⟩ | ⟨t, -, next⟩⟩
    · exact failed ▸ beginning _ _ _ _
    · exact next ▸ kept
    · exact next ▸ beginning _ _ _ _
    · exact next ▸ beginning _ _ _ _
  | finish j r =>
    rcases step_finish_cases s j r with same | ⟨o, t, other, pending, failed | ⟨v, c, -, next⟩⟩
    · exact same.symm ▸ kept
    · exact failed ▸ ending _ _ _ other pending
    · exact next ▸ ending _ _ _ other pending
  | fail j =>
    rcases step_fail_cases s j with same | ⟨o, t, other, pending, next⟩
    · exact same.symm ▸ kept
    · exact next ▸ ending _ _ _ other pending
  | reset => exact kept

/-! ## What every run keeps -/

/-- That there is a generation, and every lookup is tied to its own. -/
structure Bound (s : CacheRun) : Prop where
  begun : 0 < s.cache.generations.size
  lookups : ∀ l ∈ s.lookups, l.BoundTo s.cache

theorem Bound.inside {s : CacheRun} (h : s.Bound) : s.cache.current < s.cache.generations.size := by
  have := h.begun
  unfold MemoCache.current
  omega

theorem Bound.unused : unused.Bound := ⟨Nat.one_pos, List.forall_mem_nil _⟩

/-- A lookup that begins is tied to the current generation. -/
theorem Bound.began {s : CacheRun} (h : s.Bound) {c : MemoCache} (later : s.cache.Extends c)
    (begun : 0 < c.generations.size) {function argument : Boxed} {stage : Stage}
    (new : Lookup.BoundTo ⟨function, argument, s.cache.current, stage⟩ c) :
    (s.began c function argument stage).Bound := by
  refine ⟨begun, fun l member => ?_⟩
  rcases List.mem_append.1 member with old | last
  · exact (h.lookups l old).later later
  · rw [List.mem_singleton.1 last]
    exact new

/-- A lookup that ends stays tied. -/
theorem Bound.ended {s : CacheRun} (h : s.Bound) {c : MemoCache} (later : s.cache.Extends c)
    (begun : 0 < c.generations.size) {i : Nat} {l : Lookup} (found : s.lookups[i]? = some l)
    {stage : Stage} (new : ({ l with stage := stage } : Lookup).BoundTo c) :
    (s.ended c i stage).Bound := by
  refine ⟨begun, fun o member => ?_⟩
  obtain ⟨j, there⟩ := List.mem_iff_getElem?.1 member
  rw [lookups_ended] at there
  split at there
  next here =>
    subst here
    rw [found] at there
    cases there
    exact new
  next => exact (h.lookups o (List.mem_of_getElem? there)).later later

/-- A step keeps every lookup tied to its generation, and the cache only grows. -/
theorem Bound.step {s : CacheRun} (h : s.Bound) (x : CacheEvent) :
    (s.step x).Bound ∧ s.cache.Extends (s.step x).cache := by
  have same : s.Bound ∧ s.cache.Extends s.cache := ⟨h, .refl _⟩
  -- a lookup that fails is tied to nothing
  have failing {j : Nat} {l : Lookup} (found : s.lookups[j]? = some l) :
      (s.ended s.cache j .failed).Bound := by
    have tied := h.lookups l (List.mem_of_getElem? found)
    exact h.ended (.refl _) h.begun found ⟨tied.begun, by rintro t ⟨⟩, by rintro r ⟨⟩⟩
  cases x with
  | start f a =>
    rcases step_start_cases s f a with failed | ⟨begun, c, done, next⟩
    · rw [failed]
      have tied : Lookup.BoundTo ⟨f, a, s.cache.current, .failed⟩ s.cache :=
        ⟨Nat.le_refl _, by rintro t ⟨⟩, by rintro r ⟨⟩⟩
      exact ⟨h.began (.refl _) h.begun tied, .refl _⟩
    · have later := MemoCache.start_extends done
      have begun := Nat.lt_of_lt_of_le h.begun later.size
      rcases next with ⟨-, next⟩ | ⟨r, rfl, next⟩ | ⟨t, rfl, next⟩
      · rw [next]
        exact ⟨⟨begun, fun l member => (h.lookups l member).later later⟩, later⟩
      · rw [next]
        refine ⟨h.began later begun ⟨later.current, by rintro t ⟨⟩, ?_⟩, later⟩
        rintro r' ⟨⟩
        exact MemoCache.start_returns done
      · rw [next]
        refine ⟨h.began later begun ⟨later.current, ?_, by rintro r ⟨⟩⟩, later⟩
        rintro t' ⟨⟩
        exact MemoCache.start_leads h.inside done
  | finish j r =>
    rcases step_finish_cases s j r with kept | ⟨l, t, found, pending, failed | ⟨v, c, done, next⟩⟩
    · exact kept.symm ▸ same
    · exact failed.symm ▸ ⟨failing found, .refl _⟩
    · rw [next]
      have tied := h.lookups l (List.mem_of_getElem? found)
      obtain ⟨generation, argument, leads⟩ := tied.pending t pending
      have later := MemoCache.finish_extends leads done
      have begun := Nat.lt_of_lt_of_le h.begun later.size
      refine ⟨h.ended later begun found ⟨tied.begun.trans later.current, by rintro t' ⟨⟩, ?_⟩, later⟩
      rintro v' ⟨⟩
      rw [← generation, ← argument]
      exact MemoCache.finish_returns leads done
  | fail j =>
    rcases step_fail_cases s j with kept | ⟨l, t, found, pending, next⟩
    · exact kept.symm ▸ same
    · exact next.symm ▸ ⟨failing found, .refl _⟩
  | reset =>
    have later := MemoCache.extends_reset s.cache
    have begun : 0 < (s.step .reset).cache.generations.size := Nat.lt_of_lt_of_le h.begun later.size
    exact ⟨⟨begun, fun l member => (h.lookups l member).later later⟩, later⟩

/-- A run keeps every lookup tied to its generation, and the cache only grows. -/
theorem Bound.foldl {s : CacheRun} (h : s.Bound) (events : List CacheEvent) :
    (events.foldl CacheRun.step s).Bound ∧ s.cache.Extends (events.foldl CacheRun.step s).cache := by
  induction events generalizing s with
  | nil => exact ⟨h, .refl _⟩
  | cons x events ih =>
    obtain ⟨next, grows⟩ := h.step x
    obtain ⟨last, later⟩ := ih next
    exact ⟨last, grows.trans later⟩

theorem run_append (events more : List CacheEvent) :
    run (events ++ more) = more.foldl step (run events) := List.foldl_append

theorem bound_run (events : List CacheEvent) : (run events).Bound := (Bound.unused.foldl events).1

/-- What a generation holds after some events it holds after any more. -/
theorem heldIn_run {events : List CacheEvent} {n : Nat} {function argument r : Boxed}
    (held : (run events).cache.heldIn n function argument = .ok (some r)) (more : List CacheEvent) :
    (run (events ++ more)).cache.heldIn n function argument = .ok (some r) := by
  rw [run_append]
  exact ((bound_run events).foldl more).2.heldIn held

/-- A lookup that has begun stays the lookup that it is. -/
theorem lookups_run {events : List CacheEvent} {i : Nat} {l : Lookup}
    (found : (run events).lookups[i]? = some l) (more : List CacheEvent) :
    ∃ l', (run (events ++ more)).lookups[i]? = some l' ∧ l.Becomes l' := by
  rw [run_append]
  generalize run events = s at found
  induction more generalizing s l with
  | nil => exact ⟨l, found, .refl l⟩
  | cons x more ih =>
    obtain ⟨l', found', becomes⟩ := lookups_step found x
    obtain ⟨l'', found'', later⟩ := ih _ found'
    exact ⟨l'', found'', becomes.trans later⟩

/-! ## Where results come from -/

/-- What is held after a step was held before, or a lookup of that generation brought it, and it is
what that lookup returned. -/
theorem step_held {s : CacheRun} (h : s.Bound) {x : CacheEvent} {n : Nat} {f a r : Boxed}
    (held : (s.step x).cache.heldIn n f a = .ok (some r)) :
    s.cache.heldIn n f a = .ok (some r) ∨ (s.cache.heldIn n f a = .ok none ∧
      ∃ i l, x = .finish i r ∧ (s.step x).lookups[i]? = some l ∧ l.generation = n ∧
        l.stage = .returned r) := by
  -- only a lookup that ends may add to what is held, and then what it has returned
  cases x with
  | start g b =>
    refine .inl ?_
    rcases step_start_cases s g b with failed | ⟨begun, c, done, next⟩
    · rwa [failed] at held
    · refine MemoCache.start_held h.inside done ?_
      rcases next with ⟨-, next⟩ | ⟨v, -, next⟩ | ⟨t, -, next⟩
      · rwa [next] at held
      · rwa [next] at held
      · rwa [next] at held
  | finish j v =>
    rcases step_finish_cases s j v with same | ⟨l, t, found, pending, failed | ⟨kept, c, done, next⟩⟩
    · exact .inl (same ▸ held)
    · exact .inl (by rwa [failed] at held)
    · obtain ⟨generation, -, leads⟩ := (h.lookups l (List.mem_of_getElem? found)).pending t pending
      rw [next] at held ⊢
      rcases MemoCache.finish_held leads done held with old | ⟨none, same, rfl, rfl⟩
      · exact .inl old
      · refine .inr ⟨none, j, { l with stage := .returned kept }, rfl, ?_, ?_, rfl⟩
        · rw [lookups_ended, if_pos rfl, found]
          rfl
        · exact generation.symm.trans same.symm
  | fail j =>
    rcases step_fail_cases s j with same | ⟨l, t, -, -, next⟩
    · exact .inl (same ▸ held)
    · exact .inl (by rwa [next] at held)
  | reset =>
    refine .inl ?_
    rw [CacheRun.step, MemoCache.heldIn, MemoCache.generation_reset] at held
    exact held

/-- Whether the end of a lookup, with the result `r` and after some events, is where a generation
comes to hold the result. -/
def Stores (events : List CacheEvent) (i n : Nat) (function argument r : Boxed) : Prop :=
  (run events).cache.heldIn n function argument = .ok none ∧
    (run (events ++ [.finish i r])).cache.heldIn n function argument = .ok (some r)

/-- A result that a generation holds was brought by a lookup bound to the generation. -/
theorem stored {events : List CacheEvent} {n : Nat} {function argument r : Boxed}
    (held : (run events).cache.heldIn n function argument = .ok (some r)) :
    ∃ before i after l, events = before ++ .finish i r :: after ∧
      Stores before i n function argument r ∧ (run events).lookups[i]? = some l ∧
      l.generation = n ∧ l.stage = .returned r := by
  induction events using List.reverseRecOn with
  | nil =>
    obtain ⟨k, place, -, -, placed, -⟩ := Generation.held_eq_some.1 held
    have nothing : ∀ n, MemoCache.empty.generation n = .empty := by
      intro n
      cases n <;> rfl
    have placed : (MemoCache.empty.generation n).place? k = .ok (some place) := placed
    rw [nothing] at placed
    cases placed
  | append_singleton events x ih =>
    have next : run (events ++ [x]) = (run events).step x := run_append events [x]
    rw [next] at held
    rcases step_held (bound_run events) held with old | ⟨none, i, l, rfl, found, generation, stage⟩
    · obtain ⟨before, i, after, l, rfl, stores, found, generation, stage⟩ := ih old
      obtain ⟨l', found', becomes⟩ := lookups_run found [x]
      refine ⟨before, i, after ++ [x], l', ?_, stores, found', ?_, ?_⟩
      · rw [List.append_assoc, List.cons_append]
      · rw [becomes.generation, generation]
      · rw [becomes.ended (by rw [stage]; rintro t ⟨⟩), stage]
    · rw [← next] at held found
      exact ⟨events, i, [], l, rfl, ⟨none, held⟩, found, generation, stage⟩

/-- A lookup that belongs to a generation after a reset began after it. -/
theorem began_after_reset {before after : List CacheEvent} {i : Nat} {l : Lookup}
    (found : (run (before ++ .reset :: after)).lookups[i]? = some l)
    (late : (run before).cache.current < l.generation) : (run before).lookups.length ≤ i := by
  by_contra early
  obtain ⟨o, there⟩ : ∃ o, (run before).lookups[i]? = some o :=
    ⟨_, List.getElem?_eq_getElem (Nat.lt_of_not_le early)⟩
  obtain ⟨l', found', becomes⟩ := lookups_run there (.reset :: after)
  cases found.symm.trans found'
  have generation := ((bound_run before).lookups o (List.mem_of_getElem? there)).begun
  rw [becomes.generation] at late
  omega

theorem current_lt_of_reset (before after : List CacheEvent) :
    (run before).cache.current < (run (before ++ .reset :: after)).cache.current := by
  have bound := bound_run before
  have later := ((bound.step .reset).1.foldl after).2.current
  have new : ((run before).step .reset).cache.current = (run before).cache.current + 1 :=
    MemoCache.current_reset bound.begun
  rw [run_append, List.foldl_cons]
  omega

/-- The end of a lookup that has failed stores nothing. -/
theorem cache_of_failed {before after : List CacheEvent} {x : CacheEvent} {i : Nat} {l : Lookup}
    (found : (run (before ++ x :: after)).lookups[i]? = some l) (stage : l.stage = .failed)
    (mine : x = .fail i ∨ ∃ r, x = .finish i r) :
    (run (before ++ [x])).cache = (run before).cache := by
  rw [run_append before [x], List.foldl_cons, List.foldl_nil]
  rcases mine with rfl | ⟨r, rfl⟩
  · rcases step_fail_cases (run before) i with same | ⟨o, t, -, -, next⟩
    · rw [same]
    · rw [next]
      rfl
  · rcases step_finish_cases (run before) i r with same | ⟨o, t, there, -, failed | ⟨v, c, -, next⟩⟩
    · rw [same]
    · rw [failed]
      rfl
    · -- a lookup that has returned has not failed
      have settled : (run (before ++ [.finish i r])).lookups[i]? =
          some { o with stage := .returned v } := by
        rw [run_append, List.foldl_cons, List.foldl_nil, next, lookups_ended, if_pos rfl, there]
        rfl
      obtain ⟨l', found', becomes⟩ := lookups_run settled after
      rw [List.append_assoc, List.singleton_append] at found'
      cases found.symm.trans found'
      have same := becomes.ended (by rintro t ⟨⟩)
      rw [stage] at same
      cases same

/-- What every run of a cache keeps to. -/
structure Agreement (events : List CacheEvent) : Prop where
  /-- What a generation holds for a function and an argument it holds for ever. -/
  held : ∀ more n function argument r,
    (run events).cache.heldIn n function argument = .ok (some r) →
      (run (events ++ more)).cache.heldIn n function argument = .ok (some r)
  /-- Two lookups of one generation that the kept keys cannot tell apart return the same result, the
  one that is held. -/
  agree : ∀ l ∈ (run events).lookups, ∀ l' ∈ (run events).lookups, ∀ r r',
    l.stage = .returned r → l'.stage = .returned r' → l.generation = l'.generation →
      ((run events).cache.generation l.generation).Alike l.function l.argument
        l'.function l'.argument →
      r = r' ∧ (run events).cache.heldIn l.generation l.function l.argument = .ok (some r)
  /-- What is seen after a reset was stored by a lookup that began after the reset. -/
  fresh : ∀ before after, events = before ++ .reset :: after → ∀ function argument r,
    (run events).cache.peek function argument = .ok (some r) →
      ∃ i l, (run before).lookups.length ≤ i ∧ (run events).lookups[i]? = some l ∧
        l.stage = .returned r ∧ ∃ start rest, events = start ++ .finish i r :: rest ∧
          Stores start i (run events).cache.current function argument r
  /-- The end of a lookup that failed left the cache as it was. -/
  failed : ∀ (i : Nat) l, (run events).lookups[i]? = some l → l.stage = .failed →
    ∀ before x after, events = before ++ x :: after → (x = .fail i ∨ ∃ r, x = .finish i r) →
      (run (before ++ [x])).cache = (run before).cache

/-- Whatever happens to a cache, in whatever order. -/
theorem agreement (events : List CacheEvent) : Agreement events := by
  constructor
  case held => exact fun more n function argument r held => heldIn_run held more
  case agree =>
    intro l member l' member' r r' returned returned' same alike
    have bound := bound_run events
    have held := (bound.lookups l member).returned r returned
    have held' := (bound.lookups l' member').returned r' returned'
    rw [← same] at held'
    exact ⟨alike.held held held', held⟩
  case fresh =>
    rintro before after rfl function argument r seen
    rw [MemoCache.peek_eq_heldIn] at seen
    obtain ⟨start, i, rest, l, split, stores, found, generation, stage⟩ := stored seen
    have late := current_lt_of_reset before after
    rw [← generation] at late
    exact ⟨i, l, began_after_reset found late, found, stage, start, rest, split, stores⟩
  case failed =>
    rintro i l found stage before x after rfl mine
    exact cache_of_failed found stage mine

/-! ## Two lookups for one number -/

/-- A function, and two boxes of the number 500. -/
def doubler : Boxed := ⟨.closure 0, 0⟩
def fiveHundred : Boxed := ⟨.int 500, 1⟩
def fiveHundredAgain : Boxed := ⟨.int 500, 2⟩

/-- Two lookups for one number overlap, and the one that began last ends first. -/
def overlapping : List CacheEvent :=
  [.start doubler fiveHundred, .start doubler fiveHundredAgain, .finish 1 ⟨.int 1000, 3⟩,
    .finish 0 ⟨.int 1000, 4⟩]

/-- The lookup that ends last returns the result of the other one. -/
theorem agreement_overlapping :
    Agreement overlapping ∧
    (run overlapping).lookups = [⟨doubler, fiveHundred, 0, .returned ⟨.int 1000, 3⟩⟩,
      ⟨doubler, fiveHundredAgain, 0, .returned ⟨.int 1000, 3⟩⟩] :=
  ⟨agreement overlapping, rfl⟩

/-! ## Equal keys that can be told apart -/

/-- A power of two, the same number as a float, and an integer that the float is equal to as well. -/
def power : Boxed := ⟨.int (2 ^ (120 : Nat)), 1⟩
def floatPower : Boxed := ⟨.scalar (.float .double ⟨BitVec.ofNat 64 0x4770000000000000⟩), 2⟩
def nearPower : Boxed := ⟨.int (2 ^ (120 : Nat) + 2 ^ (61 : Nat) - 1), 3⟩

/-- Three lookups one after the other, each for a number that is equal to the one before. -/
def powers : List CacheEvent :=
  [.start doubler power, .finish 0 power, .start doubler floatPower, .start doubler nearPower,
    .finish 2 nearPower]

/-- Two lookups of one generation, of one function and for equal arguments, return different
results: equality of numbers is not transitive, and only the first of the two arguments is equal to
the key that is kept. -/
theorem disagreement_powers :
    ∃ l l' r r' k k', l ∈ (run powers).lookups ∧ l' ∈ (run powers).lookups ∧
      l.generation = l'.generation ∧ l.function = l'.function ∧
      l.argument.key? = some k ∧ l'.argument.key? = some k' ∧ k.meets k' = .ok true ∧
      l.stage = .returned r ∧ l'.stage = .returned r' ∧ r ≠ r' := by
  have lookups : (run powers).lookups = [⟨doubler, power, 0, .returned power⟩,
      ⟨doubler, floatPower, 0, .returned power⟩,
      ⟨doubler, nearPower, 0, .returned nearPower⟩] := rfl
  refine ⟨⟨doubler, floatPower, 0, .returned power⟩, ⟨doubler, nearPower, 0, .returned nearPower⟩,
    power, nearPower, _, _, ?_, ?_, rfl, rfl, rfl, rfl, rfl, rfl, rfl, ?_⟩
  · simp [lookups]
  · simp [lookups]
  · simp [power, nearPower]

end CacheRun

end Knot
