/-!
# Tallies

Named counters. A counter comes into being when it is first touched, at zero, and a tally keeps
its counters in that order.
-/

namespace Knot

/-- Counters of type `κ`, in the order of first use. -/
structure Tally (κ : Type) where
  entries : List (κ × Nat)
deriving Repr

namespace Tally

variable {κ : Type} [DecidableEq κ]

/-- The tally without counters. -/
def empty : Tally κ := ⟨[]⟩

/-- How often a counter was raised. -/
def count (t : Tally κ) (k : κ) : Nat := (t.entries.lookup k).getD 0

/-- A list of counters with one raised by `n`. -/
def addTo (k : κ) (n : Nat) : List (κ × Nat) → List (κ × Nat)
  | [] => [(k, n)]
  | (l, m) :: rest => if k = l then (l, m + n) :: rest else (l, m) :: addTo k n rest

/-- Raises a counter by `n`. -/
def add (t : Tally κ) (k : κ) (n : Nat) : Tally κ := ⟨addTo k n t.entries⟩

/-- Raises a counter by one. -/
def raise (t : Tally κ) (k : κ) : Tally κ := t.add k 1

/-- Brings a counter into being. -/
def touch (t : Tally κ) (k : κ) : Tally κ := t.add k 0

theorem lookup_addTo (k l : κ) (n : Nat) (entries : List (κ × Nat)) :
    ((addTo k n entries).lookup l).getD 0 =
      (entries.lookup l).getD 0 + if l = k then n else 0 := by
  induction entries with
  | nil =>
    by_cases h : l = k
    · simp [addTo, h]
    · simp [addTo, List.lookup_cons, beq_eq_false_iff_ne.2 h, h]
  | cons head rest ih =>
    obtain ⟨m, x⟩ := head
    by_cases h : k = m
    · subst h
      by_cases g : l = k
      · simp [addTo, g]
      · simp [addTo, List.lookup_cons, beq_eq_false_iff_ne.2 g, g]
    · by_cases g : l = m
      · subst g
        have apart : l ≠ k := fun same => h same.symm
        simp [addTo, h, apart]
      · simp [addTo, List.lookup_cons, h, beq_eq_false_iff_ne.2 g, ih]

/-- Raising one counter leaves the others alone. -/
@[simp] theorem count_add (t : Tally κ) (k l : κ) (n : Nat) :
    (t.add k n).count l = t.count l + if l = k then n else 0 := lookup_addTo k l n t.entries

@[simp] theorem count_raise (t : Tally κ) (k l : κ) :
    (t.raise k).count l = t.count l + if l = k then 1 else 0 := count_add t k l 1

@[simp] theorem count_touch (t : Tally κ) (k l : κ) : (t.touch k).count l = t.count l := by
  simp [touch]

@[simp] theorem count_empty (k : κ) : (empty : Tally κ).count k = 0 := rfl

/-- The counters as text, each with its name in quotes. -/
def text (name : κ → String) (t : Tally κ) : String :=
  let items := t.entries.map fun (k, n) => "'" ++ name k ++ "': " ++ toString n
  "\x7b" ++ ", ".intercalate items ++ "\x7d"

end Tally

end Knot
