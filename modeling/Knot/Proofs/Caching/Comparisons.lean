import Knot.Proofs.Caching.Counts

/-!
# Keys that can be compared

The comparison of two keys can fail: a plain integer that is too large for a double meets no scalar float, and
one that is longer than an `int64` no scalar truth value. Keys that are no such integers can always be compared
(`Value.exists_equal`), since an integer of up to 64 digits is rounded to a finite double.

A lookup finds its way if its keys can be compared with the keys of the cache (`MemoCache.start_of_answers`).
-/

namespace Knot

/-! ## Integers that have a double -/

theorem nearest_le (num den : Nat) : nearest num den ≤ num / den + 1 := by
  unfold nearest
  dsimp only
  split
  · omega
  · split
    · omega
    · split <;> omega

namespace Floating

theorem magnitude_ofMagnitude (negative : Bool) {m : Nat} (small : m < 2 ^ 63) :
    (ofMagnitude negative m : Floating .double).magnitude = m := by
  unfold magnitude ofMagnitude
  show (BitVec.ofNat 64 (m + if negative then 2 ^ 63 else 0)).toNat % 2 ^ 63 = m
  rw [BitVec.toNat_ofNat]
  cases negative
  · show (m + 0) % 2 ^ 64 % 2 ^ 63 = m
    omega
  · show (m + 2 ^ 63) % 2 ^ 64 % 2 ^ 63 = m
    omega

/-- A number of up to 64 digits has a place to be rounded in that leaves 54 digits at most. -/
theorem roundingExponent_bounds {n : Nat} (small : n < 2 ^ 64) (positive : n ≠ 0) :
    (n.log2 : Int) - 53 ≤ roundingExponent .double n 1 ∧ roundingExponent .double n 1 ≤ 11 := by
  have digits : n.log2 < 64 := (Nat.log2_lt positive).2 small
  have least : Precision.double.leastExponent = -1074 := by decide
  have one : Nat.log2 1 = 0 := by decide
  have places : Precision.double.digits = 53 := rfl
  unfold roundingExponent
  dsimp only
  rw [least, one, places]
  split <;> omega

/-- Then 54 digits are left at most. -/
theorem scaled_lt {n : Nat} {e : Int} (enough : (n.log2 : Int) - 53 ≤ e) :
    (scaled n 1 (-e)).1 / (scaled n 1 (-e)).2 < 2 ^ 54 := by
  have digits : n < 2 ^ (n.log2 + 1) := Nat.lt_log2_self
  unfold scaled
  split
  next below =>
    dsimp only
    rw [Nat.div_one]
    calc n * 2 ^ (-e).toNat
        < 2 ^ (n.log2 + 1) * 2 ^ (-e).toNat := Nat.mul_lt_mul_of_pos_right digits (Nat.two_pow_pos _)
      _ = 2 ^ (n.log2 + 1 + (-e).toNat) := (Nat.pow_add _ _ _).symm
      _ ≤ 2 ^ 54 := Nat.pow_le_pow_right (by decide) (by omega)
  next above =>
    dsimp only
    rw [Nat.one_mul]
    apply Nat.div_lt_of_lt_mul
    calc n < 2 ^ (n.log2 + 1) := digits
      _ ≤ 2 ^ ((- -e).toNat + 54) := Nat.pow_le_pow_right (by decide) (by omega)
      _ = 2 ^ (- -e).toNat * 2 ^ 54 := Nat.pow_add _ _ _

/-- An integer of up to 64 digits is next to a finite double. -/
theorem magnitude_ofInt_lt {v : Int} (small : v.natAbs < 2 ^ 64) :
    (ofInt v : Floating .double).magnitude < Precision.double.infinity := by
  have infinity : Precision.double.infinity = 2047 * 2 ^ 52 := by decide
  have scaled_self : scaled v.natAbs 1 0 = (v.natAbs, 1) := by simp [scaled]
  unfold ofInt ofDyadic
  rw [scaled_self]
  dsimp only
  unfold round
  split
  next zero =>
    unfold Floating.zero
    rw [magnitude_ofMagnitude _ (by decide), infinity]
    decide
  next positive =>
    obtain ⟨low, high⟩ := roundingExponent_bounds small positive
    dsimp only
    -- the exponent takes the magnitude to a good half of the infinity, and the digits add little to it
    have digits := scaled_lt low
    have rounded := nearest_le (scaled v.natAbs 1 (-roundingExponent .double v.natAbs 1)).1
      (scaled v.natAbs 1 (-roundingExponent .double v.natAbs 1)).2
    generalize nearest _ _ = q at *
    have least : Precision.double.leastExponent = -1074 := by decide
    have unit : Precision.double.unit = 2 ^ 52 := by decide
    rw [least, unit, infinity]
    generalize roundingExponent .double v.natAbs 1 = e at *
    have exponent : (e - -1074).toNat ≤ 1085 := by omega
    have bound : (e - -1074).toNat * 2 ^ 52 + q < 2047 * 2 ^ 52 := by omega
    rw [Nat.min_eq_left (Nat.le_of_lt bound), magnitude_ofMagnitude _ (by omega)]
    exact bound

end Floating

/-! ## Numbers that meet -/

/-- Whether a plain integer is no longer than an `int64`. -/
def Number.Short : Number → Prop
  | .int v => IntType.Fits ⟨true, .w64⟩ v
  | _ => True

namespace Number

variable {a b : Number}

theorem exists_toFloating (short : a.Short) (p : Precision) : ∃ x, a.toFloating p = .ok x := by
  cases a with
  | int v =>
    have small : v.natAbs < 2 ^ 64 := by
      have fits : -(2 ^ 63 : Int) ≤ v ∧ v ≤ 2 ^ 63 - 1 := short
      omega
    exact ⟨_, if_neg (Nat.ne_of_lt (Floating.magnitude_ofInt_lt small))⟩
  | float x => exact ⟨_, rfl⟩
  | scalar s => exact ⟨_, rfl⟩

theorem exists_meetIn (left : a.Short) (right : b.Short) (p : Precision) :
    ∃ met, a.meetIn p b = .ok met := by
  obtain ⟨x, first⟩ := exists_toFloating left p
  obtain ⟨y, second⟩ := exists_toFloating right p
  unfold meetIn
  rw [first, second]
  exact ⟨_, rfl⟩

theorem exists_meetShort {v : Int} (short : IntType.Fits ⟨true, .w64⟩ v) (a b : Number) :
    ∃ met, meetShort v a b = .ok met := by
  unfold meetShort
  rw [if_pos short]
  exact ⟨_, rfl⟩

/-- Two numbers meet, if the integers among them are short. -/
theorem exists_meet (left : a.Short) (right : b.Short) : ∃ met, a.meet b = .ok met := by
  unfold meet
  split
  · exact exists_meetIn left right _
  · exact exists_meetIn left right _
  · exact exists_meetIn left right _
  · exact exists_meetIn left right _
  · exact exists_meetShort right _ _
  · exact exists_meetShort left _ _
  · exact ⟨_, rfl⟩

end Number

namespace Value

/-- Whether a value is no plain integer that is longer than an `int64`. -/
def Short : Value → Prop
  | int v => IntType.Fits ⟨true, .w64⟩ v
  | _ => True

theorem Short.number {a : Value} (short : a.Short) {n : Number} (h : a.number? = some n) : n.Short := by
  cases a with
  | bool b =>
    cases h
    show IntType.Fits ⟨true, .w64⟩ (bitOf b)
    cases b <;> decide
  | int v =>
    cases h
    exact short
  | float x =>
    cases h
    trivial
  | scalar s =>
    cases h
    trivial
  | _ => cases h

theorem exists_equalNumbers {a b : Value} (left : a.Short) (right : b.Short) :
    ∃ met, a.equalNumbers b = .ok met := by
  unfold equalNumbers
  split
  next m n first second =>
    obtain ⟨meeting, met⟩ := Number.exists_meet (left.number first) (right.number second)
    unfold Comparison.onNumbers
    rw [met]
    exact ⟨_, rfl⟩
  next => exact ⟨_, rfl⟩

/-- Two keys can be compared, if they are no long integers. -/
theorem exists_equal {a b : Value} (left : a.Short) (right : b.Short)
    (key : a.digest?.isSome) (key' : b.digest?.isSome) : ∃ met, a.equal b = .ok met := by
  unfold equal
  -- only numbers are left to a comparison that can fail, and a list is no key
  split
  · exact ⟨_, rfl⟩
  · exact ⟨_, rfl⟩
  · cases key
  · cases key'
  · cases key
  · exact ⟨_, rfl⟩
  · exact ⟨_, rfl⟩
  · exact ⟨_, rfl⟩
  · exact ⟨_, rfl⟩
  · exact ⟨_, rfl⟩
  · exact exists_equalNumbers left right

end Value

/-! ## Keys -/

namespace Key

variable {α : Type} {sought : Key} {entries : List (Key × α)}

/-- Whether the comparison of two keys ends in an answer. -/
def Answers (stored sought : Key) : Prop := ∃ met, stored.meets sought = .ok met

theorem place?_of_answers (answers : ∀ e ∈ entries, e.1.Answers sought) :
    ∃ found, sought.place? entries = .ok found := by
  induction entries with
  | nil => exact ⟨none, rfl⟩
  | cons head rest ih =>
    obtain ⟨first, later⟩ := List.forall_mem_cons.1 answers
    obtain ⟨met, question⟩ := first
    obtain ⟨found, further⟩ := ih later
    unfold place?
    rw [question, further]
    cases met <;> exact ⟨_, rfl⟩

theorem find?_of_answers (answers : ∀ e ∈ entries, e.1.Answers sought) :
    ∃ found, sought.find? entries = .ok found := by
  obtain ⟨found, placed⟩ := place?_of_answers answers
  rw [find?_eq_place?, placed]
  exact ⟨_, rfl⟩

end Key

/-- Whether the keys of two boxes can be compared. -/
def Boxed.Comparable (stored sought : Boxed) : Prop :=
  ∀ k k', stored.key? = some k → sought.key? = some k' → k.Answers k'

/-- Keys that are no long integers can be compared. -/
theorem Boxed.comparable_of_short {stored sought : Boxed} (left : stored.value.Short)
    (right : sought.value.Short) : stored.Comparable sought := by
  intro k k' key key'
  unfold key? at key key'
  obtain ⟨d, digest, rfl⟩ := Option.map_eq_some_iff.1 key
  obtain ⟨d', digest', rfl⟩ := Option.map_eq_some_iff.1 key'
  unfold Key.Answers Key.meets
  split
  · exact ⟨true, rfl⟩
  · split
    · exact Value.exists_equal left right (by rw [digest]; rfl) (by rw [digest']; rfl)
    · exact ⟨false, rfl⟩

namespace MemoCache

variable {c : MemoCache}

/-- A lookup begins if its function and its argument are keys, and can be compared with those that have
been looked up before. -/
theorem start_of_answers {function argument : Boxed} {f a : Key} (functionKey : function.key? = some f)
    (argumentKey : argument.key? = some a) (answers : c.All (·.Answers f) (·.Answers a)) :
    ∃ begun c', c.start function argument = .ok (begun, c') := by
  have now : c.latest.All (·.Answers f) (·.Answers a) := answers c.current
  obtain ⟨found, placed⟩ : ∃ found, c.latest.place? f = .ok found :=
    Key.place?_of_answers fun t inside => (now t inside).1
  unfold start
  split
  · exact ⟨_, _, rfl⟩
  · rw [keyOf_eq_ok.2 functionKey, keyOf_eq_ok.2 argumentKey]
    cases found with
    | none =>
      simp only [bind, Except.bind, placed]
      exact ⟨_, _, rfl⟩
    | some place =>
      obtain ⟨found, got⟩ : ∃ found, c.latest.get? place a = .ok found := by
        refine Key.find?_of_answers fun e inside => ?_
        obtain ⟨t, member, entry⟩ := Generation.mem_table inside
        exact (now t member).2 e entry
      simp only [bind, Except.bind, placed, got]
      cases found <;> exact ⟨_, _, rfl⟩

end MemoCache

end Knot
