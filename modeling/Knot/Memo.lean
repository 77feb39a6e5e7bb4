import Knot.Value.Key

/-!
# Memo caches

A memo cache keeps results by function and argument. A lookup has two steps, so that lookups
may overlap: `start` answers from the store or hands out a ticket, and `finish` brings the
result that was computed on the ticket. The first result that arrives for a key is kept and
is what every later `finish` for that key returns.

Entries are kept in the order in which they came, and the first whose key meets the one looked for
answers. Nothing is taken out or put in front, so what is found once is found ever after.

A reset starts a new, empty generation. A ticket is bound to the generation in which it was
handed out, so a result computed across a reset goes to the old generation and is never seen
after the reset.

Functions and arguments that are absent bypass the cache. An argument that is no key is
noticed where it is looked up or stored, and not before.
-/

namespace Knot

/-! ## Tables -/

namespace Key

/-- What the first entry holds whose key is the one looked for. -/
def find? {α : Type} (sought : Key) : List (Key × α) → Except Fault (Option α)
  | [] => .ok none
  | (stored, a) :: rest => do
    if ← stored.meets sought then pure (some a) else sought.find? rest

/-- The place of the first entry whose key is the one looked for. -/
def place? {α : Type} (sought : Key) : List (Key × α) → Except Fault (Option Nat)
  | [] => .ok none
  | (stored, _) :: rest => do
    if ← stored.meets sought then pure (some 0)
    else do
      let p ← sought.place? rest
      pure (p.map (· + 1))

variable {α : Type}

/-- What is found is what stands at the place that is found. -/
theorem find?_eq_place? (sought : Key) (entries : List (Key × α)) :
    sought.find? entries =
      (sought.place? entries).map fun p => p.bind fun i => (entries[i]?).map Prod.snd := by
  induction entries with
  | nil => rfl
  | cons head rest ih =>
    obtain ⟨stored, a⟩ := head
    rw [find?, place?, ih]
    cases stored.meets sought with
    | error f => rfl
    | ok met =>
      cases met with
      | true => rfl
      | false =>
        cases sought.place? rest with
        | error f => rfl
        | ok p => cases p <;> rfl

/-- What is found stays found when entries are added. -/
theorem find?_append_of_some {sought : Key} {a : α} {entries : List (Key × α)}
    (more : List (Key × α)) (h : sought.find? entries = .ok (some a)) :
    sought.find? (entries ++ more) = .ok (some a) := by
  induction entries with
  | nil => simp [find?] at h
  | cons head rest ih =>
    obtain ⟨stored, b⟩ := head
    simp only [find?, List.cons_append] at h ⊢
    cases met : stored.meets sought with
    | error f => simp [met, bind, Except.bind] at h
    | ok found =>
      cases found with
      | true => simpa [met, bind, Except.bind] using h
      | false =>
        simp only [met, bind, Except.bind, Bool.false_eq_true, if_false] at h ⊢
        exact ih h

/-- What is not found is looked for among the entries that are added. -/
theorem find?_append_of_none {sought : Key} {entries : List (Key × α)}
    (more : List (Key × α)) (h : sought.find? entries = .ok none) :
    sought.find? (entries ++ more) = sought.find? more := by
  induction entries with
  | nil => rfl
  | cons head rest ih =>
    obtain ⟨stored, b⟩ := head
    simp only [find?, List.cons_append] at h ⊢
    cases met : stored.meets sought with
    | error f => simp [met, bind, Except.bind] at h
    | ok found =>
      cases found with
      | true => simp [met, bind, Except.bind, pure, Except.pure] at h
      | false =>
        simp only [met, bind, Except.bind, Bool.false_eq_true, if_false] at h ⊢
        exact ih h

end Key

/-! ## Generations -/

/-- The results kept for one function, by argument. -/
abbrev ResultTable := List (Key × Boxed)

/-- The results kept between two resets, by function. -/
structure Generation where
  tables : List (Key × ResultTable)

namespace Generation

def empty : Generation := ⟨[]⟩

/-- The place of the table of a function, if the function has been registered. -/
def place? (g : Generation) (function : Key) : Except Fault (Option Nat) :=
  function.place? g.tables

/-- The table at a place. -/
def table (g : Generation) (place : Nat) : ResultTable :=
  ((g.tables[place]?).map fun t => t.2).getD []

/-- The result kept for an argument in the table at a place. -/
def get? (g : Generation) (place : Nat) (argument : Key) : Except Fault (Option Boxed) :=
  argument.find? (g.table place)

/-- The generation with an empty table for a new function. -/
def register (g : Generation) (function : Key) : Generation := ⟨g.tables ++ [(function, [])]⟩

/-- The generation with a result for an argument in the table at a place. -/
def insert (g : Generation) (place : Nat) (argument : Key) (result : Boxed) : Generation :=
  ⟨g.tables.modify place fun t => (t.1, t.2 ++ [(argument, result)])⟩

/-- The number of registered functions. -/
def functions (g : Generation) : Nat := g.tables.length

-- The zero of a sum is the literal, also where the algebra of semirings is at hand.
attribute [local instance (high)] Zero.ofOfNat0 in
/-- The number of results. -/
def size (g : Generation) : Nat := (g.tables.map fun t => t.2.length).sum

/-- Registering a function changes no table. -/
theorem table_register (g : Generation) (function : Key) (place : Nat) :
    (g.register function).table place = g.table place := by
  rcases Nat.lt_trichotomy place g.tables.length with h | h | h
  · simp [table, register, List.getElem?_append_left h]
  · subst h
    simp [table, register]
  · have absent : g.tables[place]? = none := List.getElem?_eq_none (Nat.le_of_lt h)
    have beyond : (g.register function).tables[place]? = none :=
      List.getElem?_eq_none (by rw [register, List.length_append]; exact h)
    rw [table, table, absent, beyond]

/-- A result goes to the end of its table, and the other tables stay as they are. -/
theorem table_insert (g : Generation) (place p : Nat) (argument : Key) (result : Boxed)
    (inside : place < g.tables.length) :
    (g.insert place argument result).table p =
      if p = place then g.table place ++ [(argument, result)] else g.table p := by
  by_cases h : p = place
  · subst h
    simp [table, insert, inside]
  · have apart : place ≠ p := fun same => h same.symm
    simp [table, insert, h, apart]

end Generation

/-! ## The cache -/

/-- What a cache counts. -/
structure CacheStats where
  hits : Nat
  misses : Nat
  stores : Nat
  bypassed : Nat
  resets : Nat
deriving DecidableEq, Repr

/-- A memo cache: its generations, the oldest first, and its counts. -/
structure MemoCache where
  generations : Array Generation
  stats : CacheStats

/-- The right to bring a result: where it goes, and for what. -/
structure Ticket where
  generation : Nat
  /-- The place of the table of the function. -/
  place : Nat
  argument : Boxed

/-- What a lookup begins with. -/
inductive Begun where
  /-- The function or the argument is absent: compute, and keep nothing. -/
  | bypassed
  | hit (result : Boxed)
  | pending (ticket : Ticket)

namespace MemoCache

/-- The cache that has never been used. -/
def empty : MemoCache := ⟨#[.empty], ⟨0, 0, 0, 0, 0⟩⟩

/-- The number of the generation that lookups see. -/
def current (c : MemoCache) : Nat := c.generations.size - 1

/-- The generation of a number. -/
def generation (c : MemoCache) (n : Nat) : Generation := (c.generations[n]?).getD .empty

/-- The cache with one generation changed. -/
def modify (c : MemoCache) (n : Nat) (f : Generation → Generation) : MemoCache :=
  { c with generations := c.generations.modify n f }

/-- The cache with its counts changed. -/
def counting (c : MemoCache) (f : CacheStats → CacheStats) : MemoCache :=
  { c with stats := f c.stats }

/-- The key of a value, which has to be one. -/
def keyOf (b : Boxed) : Except Fault Key :=
  match b.key? with
  | some k => .ok k
  | none => .error .wrongKind

/-- Whether a value is the absent value. -/
def isAbsent (b : Boxed) : Bool :=
  match b.value with
  | .none => true
  | _ => false

/-- The generation that lookups see. -/
def latest (c : MemoCache) : Generation := c.generation c.current

/-- The first step of a lookup. -/
def start (c : MemoCache) (function argument : Boxed) : Except Fault (Begun × MemoCache) :=
  if isAbsent function || isAbsent argument then
    .ok (.bypassed, c.counting fun s => { s with bypassed := s.bypassed + 1 })
  else do
    let f ← keyOf function
    let missed := c.counting fun s => { s with misses := s.misses + 1 }
    match ← c.latest.place? f with
    | none =>
      let ticket : Ticket := ⟨c.current, c.latest.functions, argument⟩
      pure (.pending ticket, missed.modify c.current fun g => g.register f)
    | some place =>
      let a ← keyOf argument
      match ← c.latest.get? place a with
      | some result => pure (.hit result, c.counting fun s => { s with hits := s.hits + 1 })
      | none => pure (.pending ⟨c.current, place, argument⟩, missed)

/-- The second step of a lookup: the result that is kept, which is the one brought only if none was
kept before. A store is counted when the kept result is the very one brought. -/
def finish (c : MemoCache) (ticket : Ticket) (result : Boxed) :
    Except Fault (Boxed × MemoCache) := do
  let a ← keyOf ticket.argument
  let stored := c.counting fun s => { s with stores := s.stores + 1 }
  match ← (c.generation ticket.generation).get? ticket.place a with
  | some kept => pure (kept, if kept.same result then stored else c)
  | none =>
    pure (result, stored.modify ticket.generation fun g => g.insert ticket.place a result)

/-- The kept result for a function and an argument, if there is one. Nothing is counted. -/
def peek (c : MemoCache) (function argument : Boxed) : Except Fault (Option Boxed) := do
  let f ← keyOf function
  match ← c.latest.place? f with
  | none => pure none
  | some place =>
    let a ← keyOf argument
    c.latest.get? place a

/-- Whether a result is kept for a function and an argument. -/
def contains (c : MemoCache) (function argument : Boxed) : Except Fault Bool :=
  (c.peek function argument).map fun found => found.isSome

/-- The cache with a new generation. -/
def reset (c : MemoCache) : MemoCache :=
  { generations := c.generations.push .empty
    stats := { c.stats with resets := c.stats.resets + 1 } }

/-- The number of results that lookups see. -/
def size (c : MemoCache) : Nat := c.latest.size

/-- The number of functions that lookups see. -/
def functions (c : MemoCache) : Nat := c.latest.functions

/-- The share of hits among the lookups that were not bypassed. -/
def hitRate (c : MemoCache) : Floating .double :=
  let total := c.stats.hits + c.stats.misses
  if total = 0 then .zero false
  else (Floating.ofInt c.stats.hits).div (.ofInt total)

end MemoCache

end Knot
