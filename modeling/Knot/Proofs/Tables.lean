import Knot.Memo
import Knot.Proofs.Operators

/-!
# Sound memo tables

A memo cache is sound when each of its entries is an answer: `MemoCache.Sound answers` says that
every table belongs to a closure and that `answers closure argument result` holds of every entry of
it, in every generation. Nothing else is known of `answers` here.

The two steps of a lookup find answers only and keep a cache sound (`MemoCache.start_sound`,
`MemoCache.finish_sound`), provided that the argument can be compared with the arguments in the
table. A ticket stays good while other lookups take place: a table keeps its place and its function
(`MemoCache.Grows`).
-/

namespace Knot

/-- Two integers or truth values of a type can be compared, and are equal only if they are the same. -/
theorem Scalar.equal_agrees {a b : Scalar} (whole : a.type.isFloat = false) (same : a.type = b.type) :
    ∃ met, (Value.scalar a).equal (.scalar b) = .ok met ∧ (met = true → a = b) := by
  cases a with
  | bool x =>
    cases b with
    | bool y =>
      refine ⟨_, rfl, fun met => ?_⟩
      cases x <;> cases y <;> first | rfl | cases met
    | int u w => cases same
    | float p z => cases same
  | int u x =>
    cases b with
    | bool y => cases same
    | int u' y =>
      cases same
      refine ⟨_, rfl, fun met => ?_⟩
      change Comparison.eq.onMeeting (.exact (.ofInt x.toInt) (.ofInt y.toInt)) = true at met
      rw [Comparison.onMeeting_ofInt] at met
      obtain ⟨x, fits⟩ := x
      obtain ⟨y, fits'⟩ := y
      cases of_decide_eq_true met
      rfl
    | float p z => cases same
  | float p x => cases whole

namespace Key

/-- Whether a key can be compared with one that is looked for, and meets it by an equal value
only. -/
def Agrees (sought stored : Key) : Prop :=
  ∃ met, stored.meets sought = .ok met ∧ (met = true → stored.box.value = sought.box.value)

variable {α : Type} {sought : Key} {entries : List (Key × α)}

/-- The place found among keys that can be compared is that of an entry for the value looked for. -/
theorem place?_agrees (agree : ∀ e ∈ entries, sought.Agrees e.1) :
    ∃ found, sought.place? entries = .ok found ∧
      ∀ p, found = some p → ∃ e, entries[p]? = some e ∧ e.1.box.value = sought.box.value := by
  induction entries with
  | nil => exact ⟨none, rfl, by simp⟩
  | cons head rest ih =>
    obtain ⟨stored, b⟩ := head
    obtain ⟨met, question, equal⟩ := agree (stored, b) List.mem_cons_self
    obtain ⟨found, later, entry⟩ := ih fun e inside => agree e (List.mem_cons_of_mem _ inside)
    unfold place?
    rw [question]
    cases met with
    | true =>
      refine ⟨some 0, rfl, fun p same => ?_⟩
      cases same
      exact ⟨(stored, b), rfl, equal rfl⟩
    | false =>
      refine ⟨found.map (· + 1), by simp [bind, Except.bind, later, pure, Except.pure], ?_⟩
      intro p same
      obtain ⟨q, there, rfl⟩ := Option.map_eq_some_iff.1 same
      exact entry q there

/-- So what is found among them is held for the value looked for. -/
theorem find?_agrees (agree : ∀ e ∈ entries, sought.Agrees e.1) :
    ∃ found, sought.find? entries = .ok found ∧
      ∀ a, found = some a → ∃ k, (k, a) ∈ entries ∧ k.box.value = sought.box.value := by
  obtain ⟨found, placed, entry⟩ := place?_agrees agree
  rw [find?_eq_place?, placed]
  refine ⟨_, rfl, fun a same => ?_⟩
  obtain ⟨p, rfl, held⟩ := Option.bind_eq_some_iff.1 same
  obtain ⟨e, there, value⟩ := entry p rfl
  rw [there] at held
  cases held
  exact ⟨e.1, List.mem_of_getElem? there, value⟩

/-- Two keys agree if one box holds one value only, and if the values can be compared and are equal only when
they are the same. -/
theorem agrees_of_equal {stored : Key}
    (boxes : stored.box.same sought.box = true → stored.box.value = sought.box.value)
    (values : ∃ met, stored.box.value.equal sought.box.value = .ok met ∧
      (met = true → stored.box.value = sought.box.value)) : sought.Agrees stored := by
  unfold Agrees meets
  split
  next same => exact ⟨true, rfl, fun _ => boxes same⟩
  next =>
    split
    next => exact values
    next => exact ⟨false, rfl, by simp⟩

/-- A closure is equal to itself only. -/
theorem agrees_of_closure {stored : Key} {i : Nat} (closure : sought.box.value = .closure i) :
    sought.Agrees stored := by
  refine agrees_of_equal (fun same => ?_) ?_
  · unfold Boxed.same at same
    rw [closure] at same
    cases shape : stored.box.value <;> simp_all
  · rw [closure]
    cases stored.box.value with
    | closure j => exact ⟨_, rfl, fun met => congrArg _ (of_decide_eq_true met)⟩
    | _ => exact ⟨false, rfl, fun impossible => by cases impossible⟩

/-- Nothing else is equal to a closure. -/
theorem agrees_of_stored_closure {stored : Key} {i : Nat} (closure : stored.box.value = .closure i) :
    sought.Agrees stored := by
  refine agrees_of_equal (fun same => ?_) ?_
  · unfold Boxed.same at same
    rw [closure] at same
    cases shape : sought.box.value <;> simp_all
  · rw [closure]
    cases sought.box.value with
    | closure j => exact ⟨_, rfl, fun met => congrArg _ (of_decide_eq_true met)⟩
    | _ => exact ⟨false, rfl, fun impossible => by cases impossible⟩

/-- Two integers or truth values of a type are compared as scalars. -/
theorem agrees_of_hasType {stored : Key} {t : ValueType} (whole : t.isFloat = false)
    (left : stored.box.value.hasType t = true) (right : sought.box.value.hasType t = true) :
    sought.Agrees stored := by
  obtain ⟨a, shape, ofType⟩ := Value.hasType_iff.1 left
  obtain ⟨b, shape', ofType'⟩ := Value.hasType_iff.1 right
  subst ofType
  refine agrees_of_equal (fun same => ?_) ?_
  · simp only [Boxed.same, shape, shape'] at same
    cases a <;> cases b <;> simp_all
  · rw [shape, shape']
    obtain ⟨met, question, equal⟩ := Scalar.equal_agrees whole ofType'.symm
    exact ⟨met, question, fun yes => by rw [equal yes]⟩

end Key

/-! ## Generations -/

namespace Generation

variable {answers : Nat → Value → Value → Prop} {g : Generation}

/-- Every table belongs to a closure and holds answers of it only. -/
def Sound (answers : Nat → Value → Value → Prop) (g : Generation) : Prop :=
  ∀ (p : Nat) t, g.tables[p]? = some t →
    ∃ i, t.1.box.value = .closure i ∧ ∀ e ∈ t.2, answers i e.1.box.value e.2.value

/-- The table at a place belongs to a closure. -/
def Owns (g : Generation) (place i : Nat) : Prop :=
  ∃ t, g.tables[place]? = some t ∧ t.1.box.value = .closure i

theorem Sound.empty : Generation.empty.Sound answers := by
  intro p t found
  cases found

/-- A new table holds nothing. -/
theorem Sound.register (sound : g.Sound answers) {f : Key} {i : Nat} (h : f.box.value = .closure i) :
    (g.register f).Sound answers := by
  intro p t found
  unfold Generation.register at found
  rw [List.getElem?_append] at found
  split at found
  · exact sound p t found
  · have new := List.mem_singleton.1 (List.mem_of_getElem? found)
    rw [new]
    exact ⟨i, h, by simp⟩

theorem owns_register {f : Key} {i : Nat} (h : f.box.value = .closure i) :
    (g.register f).Owns g.functions i :=
  ⟨(f, []), by simp [Generation.register, Generation.functions], h⟩

theorem Owns.register {place i : Nat} (owned : g.Owns place i) (f : Key) :
    (g.register f).Owns place i := by
  obtain ⟨t, found, h⟩ := owned
  exact ⟨t, List.getElem?_append_left (List.getElem?_eq_some_iff.1 found).1 ▸ found, h⟩

/-- An answer in the table of its closure. -/
theorem Sound.insert (sound : g.Sound answers) {place i : Nat} (owned : g.Owns place i) {a : Key}
    {r : Boxed} (answer : answers i a.box.value r.value) : (g.insert place a r).Sound answers := by
  intro p t found
  unfold Generation.insert at found
  rw [List.getElem?_modify] at found
  split at found
  next here =>
    subst here
    obtain ⟨old, there, rfl⟩ := Option.map_eq_some_iff.1 found
    obtain ⟨owner, known, value⟩ := owned
    rw [there] at known
    cases known
    obtain ⟨j, value', entries⟩ := sound _ _ there
    rw [value] at value'
    cases value'
    refine ⟨i, value, fun e inside => ?_⟩
    rcases List.mem_append.1 inside with before | new
    · exact entries e before
    · rw [List.mem_singleton.1 new]
      exact answer
  next =>
    rw [id_map'] at found
    exact sound p t found

theorem Owns.insert {place i : Nat} (owned : g.Owns place i) (p : Nat) (a : Key) (r : Boxed) :
    (g.insert p a r).Owns place i := by
  obtain ⟨t, found, h⟩ := owned
  unfold Owns Generation.insert
  rw [List.getElem?_modify, found]
  split
  · exact ⟨_, rfl, h⟩
  · exact ⟨_, rfl, h⟩

end Generation

/-! ## Lookups -/

namespace MemoCache

variable {answers : Nat → Value → Value → Prop} {c : MemoCache}

/-- There is a generation, and every entry of every generation is an answer. -/
structure Sound (answers : Nat → Value → Value → Prop) (c : MemoCache) : Prop where
  begun : 0 < c.generations.size
  entries : ∀ (n : Nat) g, c.generations[n]? = some g → g.Sound answers

/-- More may count as an answer. -/
theorem Sound.mono {more : Nat → Value → Value → Prop} (sound : c.Sound answers)
    (implied : ∀ i a r, answers i a r → more i a r) : c.Sound more := by
  refine ⟨sound.begun, fun n g found p t there => ?_⟩
  obtain ⟨i, owner, entries⟩ := sound.entries n g found p t there
  exact ⟨i, owner, fun e inside => implied i _ _ (entries e inside)⟩

/-- Tables keep their places and the closures that they belong to. -/
def Grows (c c' : MemoCache) : Prop :=
  ∀ (n : Nat) g, c.generations[n]? = some g →
    ∃ g', c'.generations[n]? = some g' ∧ ∀ place i, g.Owns place i → g'.Owns place i

theorem Grows.refl (c : MemoCache) : c.Grows c := fun _ g found => ⟨g, found, fun _ _ => id⟩

theorem Grows.trans {c' c'' : MemoCache} (first : c.Grows c') (second : c'.Grows c'') :
    c.Grows c'' := by
  intro n g found
  obtain ⟨g', found', keeps⟩ := first n g found
  obtain ⟨g'', found'', keeps'⟩ := second n g' found'
  exact ⟨g'', found'', fun place i owned => keeps' place i (keeps place i owned)⟩

/-- A ticket for a closure: the table that it leads to belongs to the closure. -/
def Admits (c : MemoCache) (ticket : Ticket) (i : Nat) : Prop :=
  ∃ g, c.generations[ticket.generation]? = some g ∧ g.Owns ticket.place i

theorem Admits.grow {c' : MemoCache} {ticket : Ticket} {i : Nat} (h : c.Admits ticket i)
    (grows : c.Grows c') : c'.Admits ticket i := by
  obtain ⟨g, found, owned⟩ := h
  obtain ⟨g', found', keeps⟩ := grows _ g found
  exact ⟨g', found', keeps _ _ owned⟩

/-- The generation that lookups see is one of those there are. -/
theorem Sound.latest (sound : c.Sound answers) : c.generations[c.current]? = some c.latest := by
  have inside : c.current < c.generations.size := by
    have := sound.begun
    unfold current
    omega
  unfold MemoCache.latest generation
  rw [Array.getElem?_eq_getElem inside, Option.getD_some]

/-- A change of one generation that keeps it sound. -/
theorem Sound.modify (sound : c.Sound answers) {n : Nat} {f : Generation → Generation}
    (kept : ∀ g, c.generations[n]? = some g → (f g).Sound answers) : (c.modify n f).Sound answers := by
  refine ⟨by simpa [MemoCache.modify] using sound.begun, fun k g found => ?_⟩
  unfold MemoCache.modify at found
  simp only [Array.getElem?_modify] at found
  split at found
  next here =>
    obtain ⟨old, there, rfl⟩ := Option.map_eq_some_iff.1 found
    exact kept old (here ▸ there)
  next => exact sound.entries k g found

theorem Grows.modify {n : Nat} {f : Generation → Generation}
    (kept : ∀ g place i, g.Owns place i → (f g).Owns place i) : c.Grows (c.modify n f) := by
  intro k g found
  unfold MemoCache.modify
  simp only [Array.getElem?_modify, found]
  split
  · exact ⟨f g, rfl, fun place i => kept g place i⟩
  · exact ⟨g, rfl, fun _ _ => id⟩

theorem Sound.counting (sound : c.Sound answers) (f : CacheStats → CacheStats) :
    (c.counting f).Sound answers := ⟨sound.begun, sound.entries⟩

theorem Grows.counting (f : CacheStats → CacheStats) : c.Grows (c.counting f) := Grows.refl c

/-- An empty generation holds no entry. -/
theorem Sound.reset (sound : c.Sound answers) : c.reset.Sound answers := by
  refine ⟨by simp [MemoCache.reset], fun n g found => ?_⟩
  unfold MemoCache.reset at found
  simp only [Array.getElem?_push] at found
  split at found
  · cases found
    exact .empty
  · exact sound.entries n g found

theorem Grows.reset (c : MemoCache) : c.Grows c.reset := by
  intro n g found
  refine ⟨g, ?_, fun _ _ => id⟩
  have inside := (Array.getElem?_eq_some_iff.1 found).1
  unfold MemoCache.reset
  rw [Array.getElem?_push, if_neg (Nat.ne_of_lt inside), found]

/-- The cache that has never been used holds no entry. -/
theorem Sound.unused : MemoCache.empty.Sound answers := by
  refine ⟨Nat.one_pos, fun n g found => ?_⟩
  cases n with
  | zero => cases found; exact .empty
  | succ n => cases found

/-! ## The two steps of a lookup -/

/-- A closure and a typed argument, and that the arguments in the table of the closure can be compared
with it. -/
structure Question (answers : Nat → Value → Value → Prop) (function argument : Boxed) (i : Nat)
    (t : ValueType) : Prop where
  closure : function.value = .closure i
  typed : argument.value.hasType t = true
  whole : t.isFloat = false
  comparable : ∀ a r, answers i a r → a.hasType t = true

variable {function argument : Boxed} {i : Nat} {t : ValueType}

/-- The function and the argument of a question are keys. -/
theorem Question.keys (q : Question answers function argument i t) :
    isAbsent function = false ∧ isAbsent argument = false ∧
    (∃ f, keyOf function = .ok f ∧ f.box = function) ∧
    ∃ a, keyOf argument = .ok a ∧ a.box = argument := by
  obtain ⟨s, shape, -⟩ := Value.hasType_iff.1 q.typed
  refine ⟨?_, ?_, ?_, ?_⟩
  · unfold isAbsent
    rw [q.closure]
  · unfold isAbsent
    rw [shape]
  · refine ⟨⟨.function i, function⟩, ?_, rfl⟩
    unfold keyOf Boxed.key?
    rw [q.closure]
    rfl
  · refine ⟨⟨.ofExact (Number.scalar s).exact, argument⟩, ?_, rfl⟩
    unfold keyOf Boxed.key?
    rw [shape]
    rfl

/-- What is found in a table of the closure is an answer. -/
theorem Question.find (q : Question answers function argument i t) {g : Generation}
    (sound : g.Sound answers) {place : Nat} (owned : g.Owns place i) {a : Key}
    (key : a.box = argument) :
    ∃ found, g.get? place a = .ok found ∧
      ∀ r, found = some r → answers i argument.value r.value := by
  obtain ⟨table, there, owner⟩ := owned
  obtain ⟨j, owner', entries⟩ := sound place table there
  rw [owner] at owner'
  cases owner'
  -- all keys of the table are of one type, on which equality and hashing agree
  have agree : ∀ e ∈ table.2, a.Agrees e.1 := by
    intro e inside
    refine Key.agrees_of_hasType q.whole (q.comparable _ _ (entries e inside)) ?_
    rw [key]
    exact q.typed
  obtain ⟨found, looked, entry⟩ := Key.find?_agrees agree
  refine ⟨found, ?_, fun r same => ?_⟩
  · unfold Generation.get? Generation.table
    rw [there]
    exact looked
  · obtain ⟨k, inside, value⟩ := entry r same
    have answer := entries _ inside
    rw [value, key] at answer
    exact answer

/-- A lookup begins with an answer, or with a ticket for the closure. -/
theorem start_sound (sound : c.Sound answers) (q : Question answers function argument i t) :
    ∃ begun c', c.start function argument = .ok (begun, c') ∧ c'.Sound answers ∧ c.Grows c' ∧
      ((∃ r, begun = .hit r ∧ answers i argument.value r.value) ∨
        ∃ ticket, begun = .pending ticket ∧ ticket.argument = argument ∧ c'.Admits ticket i) := by
  obtain ⟨present, present', ⟨f, functionKey, box⟩, a, argumentKey, box'⟩ := q.keys
  have latest := sound.latest
  have generation := sound.entries _ _ latest
  have closure : f.box.value = .closure i := by rw [box]; exact q.closure
  have agree : ∀ e ∈ c.latest.tables, f.Agrees e.1 := fun _ _ => Key.agrees_of_closure closure
  obtain ⟨place?, looked, table⟩ := Key.place?_agrees agree
  have looked : c.latest.place? f = .ok place? := looked
  unfold start
  simp only [present, present', Bool.or_false, Bool.false_eq_true, if_false, functionKey, bind,
    Except.bind, looked]
  cases place? with
  | none =>
    -- the closure is new to the generation, and gets an empty table
    refine ⟨_, _, rfl, (sound.counting _).modify ?_, Grows.modify ?_, .inr ⟨_, rfl, rfl, ?_⟩⟩
    · intro g there
      exact (sound.entries _ _ there).register closure
    · intro g place j owned
      exact owned.register f
    · refine ⟨c.latest.register f, ?_, Generation.owns_register closure⟩
      unfold MemoCache.modify MemoCache.counting
      simp only [Array.getElem?_modify, if_true, latest, Option.map_some]
  | some place =>
    obtain ⟨e, there, owner⟩ := table place rfl
    have owned : c.latest.Owns place i := ⟨e, there, owner.trans closure⟩
    obtain ⟨found, looked', answer⟩ := q.find generation owned box'
    simp only [argumentKey, looked']
    cases found with
    | some r =>
      exact ⟨_, _, rfl, sound.counting _, .counting _, .inl ⟨r, rfl, answer r rfl⟩⟩
    | none =>
      exact ⟨_, _, rfl, sound.counting _, .counting _, .inr ⟨_, rfl, rfl, c.latest, latest, owned⟩⟩

/-- A lookup ends with an answer, and keeps an answer that is brought. -/
theorem finish_sound (sound : c.Sound answers) (q : Question answers function argument i t)
    {ticket : Ticket} (mine : ticket.argument = argument) (admitted : c.Admits ticket i)
    {r : Boxed} (answer : answers i argument.value r.value) :
    ∃ kept c', c.finish ticket r = .ok (kept, c') ∧ c'.Sound answers ∧ c.Grows c' ∧
      answers i argument.value kept.value := by
  obtain ⟨-, -, -, a, argumentKey, box⟩ := q.keys
  obtain ⟨g, there, owned⟩ := admitted
  have generation : c.generation ticket.generation = g := by
    unfold MemoCache.generation
    rw [there, Option.getD_some]
  obtain ⟨found, looked, before⟩ := q.find (sound.entries _ _ there) owned box
  unfold finish
  simp only [mine, argumentKey, generation, looked, bind, Except.bind]
  -- what is found answers the same question, so it may be returned in place of the result
  cases found with
  | some kept =>
    refine ⟨kept, _, rfl, ?_, ?_, before kept rfl⟩
    · split
      · exact sound.counting _
      · exact sound
    · split
      · exact .counting _
      · exact .refl c
  | none =>
    refine ⟨r, _, rfl, (sound.counting _).modify ?_, Grows.modify ?_, answer⟩
    · intro g' there'
      have same := there.symm.trans there'
      cases same
      rw [← box] at answer
      exact (sound.entries _ _ there).insert owned answer
    · intro g' place j owned'
      exact owned'.insert _ _ _

end MemoCache

end Knot
