import Knot.Proofs.Generations
import Knot.Proofs.Tables
import Mathlib.Logic.Relation

/-!
# What lookups make of a memo cache

The two steps of a lookup are all that an evaluation does to a cache (`MemoCache.Advances`). They keep
every key the key of its box (`MemoCache.Sane`), begin no generation, and let a generation only grow. So
what is held for a function and an argument stays held (`MemoCache.Advances.heldIn`), and it is held for
every other box of the argument as well, if the argument is an integer or a truth value
(`MemoCache.Sane.heldIn_congr`).
-/

namespace Knot

/-! ## Keys -/

namespace Key

/-- Whether a key is the key of its own box. -/
def Proper (k : Key) : Prop := k.box.key? = some k

theorem of_key? {b : Boxed} {k : Key} (key : b.key? = some k) : k.box = b ∧ k.Proper := by
  have shape := key
  unfold Boxed.key? at shape
  obtain ⟨d, -, rfl⟩ := Option.map_eq_some_iff.1 shape
  exact ⟨rfl, key⟩

end Key

/-- An integer or a truth value is equal to itself. -/
theorem Scalar.equal_self {s : Scalar} (whole : s.type.isFloat = false) :
    (Value.scalar s).equal (.scalar s) = .ok true := by
  cases s with
  | bool b => cases b <;> rfl
  | int t w =>
    show Except.ok (Comparison.eq.onMeeting (.exact (.ofInt w.toInt) (.ofInt w.toInt))) = _
    rw [Comparison.onMeeting_ofInt]
    exact congrArg Except.ok (decide_eq_true rfl)
  | float p x => cases whole

/-- Only a box of the scalar itself is the same box. -/
theorem Boxed.value_of_same {a b : Boxed} {s : Scalar} (same : a.same b = true)
    (value : b.value = .scalar s) : a.value = .scalar s := by
  unfold Boxed.same at same
  rw [value] at same
  cases shape : a.value with
  | scalar t =>
    rw [shape] at same
    cases s <;> cases t <;> simp_all
  | _ => simp [shape] at same

/-- A key does not tell two boxes of an integer or a truth value apart. -/
theorem Key.alike_of_scalar {stored : Key} (proper : stored.Proper) {s : Scalar}
    (whole : s.type.isFloat = false) {b b' : Boxed} (value : b.value = .scalar s)
    (value' : b'.value = .scalar s) : stored.Alike b b' := by
  let digest : Digest := .ofExact (Number.scalar s).exact
  have keyed : ∀ {c : Boxed} {k : Key}, c.value = .scalar s → c.key? = some k → k = ⟨digest, c⟩ := by
    intro c k shape key
    unfold Boxed.key? at key
    rw [shape] at key
    exact (Option.some.inj key).symm
  -- what the test comes to, whatever box the scalar is in
  let common : Verdict :=
    if stored.digest = digest then stored.box.value.equal (.scalar s) else .ok false
  have test : ∀ c : Boxed, c.value = .scalar s → stored.meets ⟨digest, c⟩ = common := by
    intro c shape
    unfold Key.meets
    split
    next same =>
      have own := Boxed.value_of_same same shape
      have known := keyed own proper
      have agree : stored.digest = digest := by rw [known]
      simp only [common, agree, if_true, own]
      exact (Scalar.equal_self whole).symm
    next => simp only [common, shape]
  intro k k' key key'
  rw [keyed value key, keyed value' key', test b value, test b' value']

/-! ## Generations -/

namespace Generation

variable {g : Generation}

/-- Whether the functions of a generation have one property, and the arguments another. -/
def All (P Q : Key → Prop) (g : Generation) : Prop := ∀ t ∈ g.tables, P t.1 ∧ ∀ e ∈ t.2, Q e.1

variable {P Q : Key → Prop}

theorem All.empty : Generation.empty.All P Q := List.forall_mem_nil _

theorem All.register (h : g.All P Q) {f : Key} (function : P f) : (g.register f).All P Q := by
  intro t inside
  rcases List.mem_append.1 inside with old | new
  · exact h t old
  · rw [List.mem_singleton.1 new]
    exact ⟨function, List.forall_mem_nil _⟩

theorem All.insert (h : g.All P Q) (place : Nat) {a : Key} (argument : Q a) (r : Boxed) :
    (g.insert place a r).All P Q := by
  intro t inside
  obtain ⟨p, found⟩ := List.mem_iff_getElem?.1 inside
  unfold Generation.insert at found
  rw [List.getElem?_modify] at found
  obtain ⟨old, there, rfl⟩ := Option.map_eq_some_iff.1 found
  obtain ⟨function, arguments⟩ := h old (List.mem_of_getElem? there)
  split
  · refine ⟨function, fun e member => ?_⟩
    rcases List.mem_append.1 member with before | new
    · exact arguments e before
    · rw [List.mem_singleton.1 new]
      exact argument
  · exact ⟨function, arguments⟩

/-- Whether all keys of a generation are the keys of their boxes. -/
def Proper (g : Generation) : Prop := ∀ t ∈ g.tables, t.1.Proper ∧ ∀ e ∈ t.2, e.1.Proper

/-- A result adds to a table at most. -/
theorem extends_insert_any (g : Generation) (place : Nat) (a : Key) (r : Boxed) :
    g.Extends (g.insert place a r) := by
  by_cases inside : place < g.tables.length
  · exact extends_insert g inside a r
  · have same : g.insert place a r = g := by
      unfold Generation.insert
      rw [List.modify_eq_self (Nat.le_of_not_lt inside)]
    rw [same]
    exact .refl g

/-- Two boxes of an integer or a truth value are one argument. -/
theorem Proper.held_congr (h : g.Proper) {s : Scalar} (whole : s.type.isFloat = false)
    {function b b' : Boxed} (value : b.value = .scalar s) (value' : b'.value = .scalar s) :
    g.held function b = g.held function b' := by
  have keyed : ∀ {c : Boxed}, c.value = .scalar s → ∃ k, c.key? = some k := by
    intro c shape
    unfold Boxed.key?
    rw [shape]
    exact ⟨_, rfl⟩
  obtain ⟨k, key⟩ := keyed value
  obtain ⟨k', key'⟩ := keyed value'
  unfold Generation.held
  rw [MemoCache.keyOf_eq_ok.2 key, MemoCache.keyOf_eq_ok.2 key']
  congr 1
  funext f
  congr 1
  funext found
  cases found with
  | none => rfl
  | some place =>
    refine Key.find?_congr fun e inside => ?_
    obtain ⟨t, member, entry⟩ := mem_table inside
    exact Key.alike_of_scalar ((h t member).2 e entry) whole value value' k k' key key'

end Generation

/-! ## Steps of lookups -/

namespace MemoCache

variable {c c' c'' : MemoCache}

/-- A step of a lookup that succeeds. -/
inductive Step : MemoCache → MemoCache → Prop
  | start {c c' : MemoCache} {function argument : Boxed} {begun : Begun}
      (done : c.start function argument = .ok (begun, c')) : Step c c'
  | finish {c c' : MemoCache} {ticket : Ticket} {result kept : Boxed}
      (done : c.finish ticket result = .ok (kept, c')) : Step c c'

/-- What any number of steps of lookups can make of a cache. -/
def Advances : MemoCache → MemoCache → Prop := Relation.ReflTransGen Step

theorem Advances.refl (c : MemoCache) : c.Advances c := Relation.ReflTransGen.refl

theorem Advances.trans (first : c.Advances c') (second : c'.Advances c'') : c.Advances c'' :=
  Relation.ReflTransGen.trans first second

theorem Step.advances (h : Step c c') : c.Advances c' := Relation.ReflTransGen.single h

/-- A step begins no generation. -/
theorem Step.size (h : Step c c') : c'.generations.size = c.generations.size := by
  cases h with
  | start done =>
    rcases start_cases done with ⟨-, same⟩ | ⟨r, -, same, -⟩ | ⟨place, -, same, -⟩ | ⟨k, -, -, -, same⟩
    · rw [same]
    · rw [same]
    · rw [same]
    · rw [same, MemoCache.modify, Array.size_modify]
  | finish done =>
    obtain ⟨a, -, ⟨-, same⟩ | ⟨-, -, same⟩⟩ := finish_cases done
    · rw [same]
    · rw [same, MemoCache.modify, Array.size_modify]

/-- A step lets generations grow. -/
theorem Step.grows (h : Step c c') : c.Extends c' := by
  cases h with
  | start done => exact start_extends done
  | finish done =>
    obtain ⟨a, -, ⟨-, same⟩ | ⟨-, -, same⟩⟩ := finish_cases done
    · exact .of_eq same
    · exact (extends_modify (Generation.extends_insert_any _ _ a _)).trans (.of_eq same)

theorem Advances.size (h : c.Advances c') : c'.generations.size = c.generations.size := by
  induction h with
  | refl => rfl
  | tail _ step ih => exact step.size.trans ih

theorem Advances.current (h : c.Advances c') : c'.current = c.current := by
  unfold MemoCache.current
  rw [h.size]

theorem Advances.grows (h : c.Advances c') : c.Extends c' := by
  induction h with
  | refl => exact .refl c
  | tail _ step ih => exact ih.trans step.grows

/-- What is held stays held. -/
theorem Advances.heldIn (h : c.Advances c') {n : Nat} {function argument r : Boxed}
    (held : c.heldIn n function argument = .ok (some r)) :
    c'.heldIn n function argument = .ok (some r) := h.grows.heldIn held

/-- Whether the functions that have a table have one property, and the arguments another. -/
def All (P Q : Key → Prop) (c : MemoCache) : Prop := ∀ n, (c.generation n).All P Q

namespace All

variable {P Q : Key → Prop}

theorem empty : MemoCache.empty.All P Q := by
  intro n
  cases n <;> exact Generation.All.empty

theorem of_eq (h : c.All P Q) (same : c'.generations = c.generations) : c'.All P Q := by
  intro n
  have all := h n
  unfold MemoCache.generation at all ⊢
  rwa [same]

theorem modify (h : c.All P Q) {n : Nat} {f : Generation → Generation}
    (kept : (f (c.generation n)).All P Q) : (c.modify n f).All P Q := by
  intro k
  by_cases inside : n < c.generations.size
  · rw [generation_modify inside]
    split
    · exact kept
    · exact h k
  · have same : (c.modify n f).generation k = c.generation k := by
      unfold MemoCache.generation MemoCache.modify
      simp only [Array.getElem?_modify]
      split
      next here =>
        subst here
        rw [Array.getElem?_eq_none (Nat.le_of_not_lt inside)]
        rfl
      next => rfl
    rw [same]
    exact h k

theorem reset (h : c.All P Q) : c.reset.All P Q := by
  intro n
  rw [generation_reset]
  exact h n

/-- The first step of a lookup adds its function at most. -/
theorem start (h : c.All P Q) {function argument : Boxed} {begun : Begun}
    (done : c.start function argument = .ok (begun, c')) (mine : ∀ k, function.key? = some k → P k) :
    c'.All P Q := by
  rcases start_cases done with ⟨-, same⟩ | ⟨r, -, same, -⟩ | ⟨place, -, same, -⟩ | ⟨k, -, key, -, same⟩
  · exact h.of_eq same
  · exact h.of_eq same
  · exact h.of_eq same
  · exact (h.modify ((h _).register (mine k (keyOf_eq_ok.1 key)))).of_eq same

/-- The second step adds its argument at most. -/
theorem finish (h : c.All P Q) {t : Ticket} {r kept : Boxed} (done : c.finish t r = .ok (kept, c'))
    (mine : ∀ k, t.argument.key? = some k → Q k) : c'.All P Q := by
  obtain ⟨a, key, ⟨-, same⟩ | ⟨-, -, same⟩⟩ := finish_cases done
  · exact h.of_eq same
  · exact (h.modify ((h _).insert _ (mine a (keyOf_eq_ok.1 key)) _)).of_eq same

end All

/-- Whether a cache has a generation, and all its keys are the keys of their boxes. -/
structure Sane (c : MemoCache) : Prop where
  begun : 0 < c.generations.size
  proper : ∀ n, (c.generation n).Proper

namespace Sane

theorem empty : MemoCache.empty.Sane := ⟨Nat.one_pos, All.empty⟩

/-- There is a generation that lookups see. -/
theorem current (h : c.Sane) : c.current < c.generations.size := by
  have begun := h.begun
  unfold MemoCache.current
  omega

theorem reset (h : c.Sane) : c.reset.Sane := ⟨by simp [MemoCache.reset], All.reset h.proper⟩

theorem step (h : c.Sane) (done : Step c c') : c'.Sane := by
  refine ⟨by rw [done.size]; exact h.begun, ?_⟩
  have proper {b : Boxed} (k : Key) (key : b.key? = some k) : k.Proper := (Key.of_key? key).2
  cases done with
  | start done => exact All.start h.proper done proper
  | finish done => exact All.finish h.proper done proper

theorem advances (h : c.Sane) (later : c.Advances c') : c'.Sane := by
  induction later with
  | refl => exact h
  | tail _ done ih => exact ih.step done

/-- Two boxes of an integer or a truth value are one argument. -/
theorem heldIn_congr (h : c.Sane) {s : Scalar} (whole : s.type.isFloat = false) (n : Nat)
    {function : Boxed} (b b' : Boxed) (value : b.value = .scalar s) (value' : b'.value = .scalar s) :
    c.heldIn n function b = c.heldIn n function b' := (h.proper n).held_congr whole value value'

end Sane

end MemoCache

end Knot
