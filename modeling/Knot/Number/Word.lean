/-!
# Machine integers

The eight integer types: four widths, signed or unsigned. A type has a range `lo … hi` of
`2 ^ bits` integers, and a `Word` is an integer of that range. There are two ways into the
range:

* `wrap`, the only integer of the range congruent to the given one modulo `2 ^ bits`;
* `ofInt?`, which keeps the integer or refuses it.
-/

namespace Knot

-- Powers are those of the core library, also where the algebra of monoids is at hand.
attribute [local instance (high)] instPowNat

/-- The width of an integer type. -/
inductive Width where
  | w8 | w16 | w32 | w64
deriving DecidableEq, Repr

/-- The number of bits of a width. -/
def Width.bits : Width → Nat
  | .w8 => 8
  | .w16 => 16
  | .w32 => 32
  | .w64 => 64

theorem Width.bits_pos (w : Width) : 0 < w.bits := by cases w <;> decide

/-- An integer type: a width and whether negative integers are in its range. -/
structure IntType where
  signed : Bool
  width : Width
deriving DecidableEq, Repr

namespace IntType

/-- The number of bits of an integer type. -/
def bits (t : IntType) : Nat := t.width.bits

/-- The number of integers in the range of a type. -/
def span (t : IntType) : Int := 2 ^ t.bits

/-- The least integer of a type. -/
def lo (t : IntType) : Int := if t.signed then -(2 ^ (t.bits - 1)) else 0

/-- The greatest integer of a type. -/
def hi (t : IntType) : Int := t.lo + t.span - 1

/-- The written name of a type: `int32`, `uint8`. -/
def name (t : IntType) : String :=
  (if t.signed then "int" else "uint") ++ toString t.bits

/-- An integer fits a type when it lies in the type's range. -/
def Fits (t : IntType) (v : Int) : Prop := t.lo ≤ v ∧ v ≤ t.hi

instance (t : IntType) (v : Int) : Decidable (t.Fits v) := inferInstanceAs (Decidable (_ ∧ _))

theorem span_pos (t : IntType) : 0 < t.span := Int.pow_pos (by decide)

/-- The integer of the range that is congruent to `v` modulo `2 ^ bits`. -/
def wrap (t : IntType) (v : Int) : Int := (v - t.lo) % t.span + t.lo

theorem wrap_fits (t : IntType) (v : Int) : t.Fits (t.wrap v) := by
  have low := Int.emod_nonneg (v - t.lo) (Int.ne_of_gt t.span_pos)
  have high := Int.emod_lt_of_pos (v - t.lo) t.span_pos
  constructor <;> simp only [wrap, hi] <;> omega

/-- An integer that fits is left alone. -/
theorem wrap_of_fits {t : IntType} {v : Int} (h : t.Fits v) : t.wrap v = v := by
  have inside : (v - t.lo) % t.span = v - t.lo := by
    have h₁ := h.1
    have h₂ := h.2
    simp only [hi] at h₂
    exact Int.emod_eq_of_lt (by omega) (by omega)
  simp only [wrap, inside]
  omega

end IntType

/-- An integer of the range of `t`. -/
structure Word (t : IntType) where
  toInt : Int
  fits : t.Fits toInt
deriving DecidableEq

namespace Word

variable {t : IntType}

/-- The word congruent to `v` modulo `2 ^ bits`. -/
def wrap (t : IntType) (v : Int) : Word t := ⟨t.wrap v, t.wrap_fits v⟩

/-- `v` itself as a word, if it is in the range. -/
def ofInt? (t : IntType) (v : Int) : Option (Word t) :=
  if h : t.Fits v then some ⟨v, h⟩ else none

@[simp] theorem toInt_wrap (t : IntType) (v : Int) : (wrap t v).toInt = t.wrap v := rfl

theorem ofInt?_eq_some_iff {v : Int} {w : Word t} : ofInt? t v = some w ↔ w.toInt = v := by
  unfold ofInt?
  split
  · simp only [Option.some.injEq]
    constructor
    · rintro rfl; rfl
    · intro h; cases w; cases h; rfl
  · rename_i absent
    simp only [reduceCtorEq, false_iff]
    intro h
    exact absent (h ▸ w.fits)

theorem ofInt?_eq_none_iff {v : Int} : ofInt? t v = none ↔ ¬ t.Fits v := by
  unfold ofInt?
  split <;> simp_all

/-- A word of the range wraps to itself. -/
@[simp] theorem wrap_toInt (w : Word t) : wrap t w.toInt = w := by
  cases w with
  | mk v fits => simp only [wrap, IntType.wrap_of_fits fits]

end Word

end Knot
