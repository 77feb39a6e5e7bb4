import Knot.Operator.Comparison

/-!
# Equality of values

`Value.equal` compares what two values stand for: numbers as numbers that meet (`Number.meet`),
texts and lists by their parts, functions and objects by identity. A scalar and a list are compared
through the one element that the list holds, however deeply. A `nan` equals nothing, but
`Boxed.equal` takes one box to be equal to itself.

A comparison can fail: two numbers need not meet, and a list of another length has no one truth
value to give. Parts are compared from left to right, up to the first difference.
-/

namespace Knot

/-- The answer to a question that may fail. -/
abbrev Verdict := Except Fault Bool

namespace Scalar

/-- The only element of a list, or of a list that is the only element, and so on. -/
def soleElement? : Nat → List Value → Option Value
  | 0, _ => none
  | depth + 1, [.list items] => soleElement? depth items
  | _ + 1, [v] => some v
  | _ + 1, _ => none

/-- How deeply lists may be nested around the element. -/
def maxNesting : Nat := 64

/-- The number that an element of a list is compared as: a plain one becomes a scalar of the
widest type that holds it. -/
def elementNumber? : Value → Option Number
  | .bool b => some (.scalar (.bool b))
  | .int v =>
    match Word.ofInt? ⟨true, .w64⟩ v, Word.ofInt? ⟨false, .w64⟩ v with
    | some w, _ => some (.scalar (.int _ w))
    | none, some w => some (.scalar (.int _ w))
    | none, none => some (.int v)
  | .float x => some (.scalar (.float .double x))
  | .scalar s => some (.scalar s)
  | _ => none

/-- Whether a scalar is equal to an element of a list. An integer that no scalar holds is compared
exactly. -/
def equalElement (s : Scalar) (element : Value) : Verdict :=
  match elementNumber? element with
  | some (.int v) => .ok ((Number.scalar s).exact.compare? (.ofInt v) = some .eq)
  | some n => Comparison.eq.onNumbers (.scalar s) n
  | none => .ok false

/-- Whether a scalar is equal to a list, that is to the one element in it. -/
def equalList (s : Scalar) (items : List Value) : Verdict :=
  match soleElement? maxNesting items with
  | some v => s.equalElement v
  | none => .error .badValue

end Scalar

namespace Value

/-- Equality of two values that are no lists, by their numbers. -/
def equalNumbers (a b : Value) : Verdict :=
  match a.number?, b.number? with
  | some m, some n => Comparison.eq.onNumbers m n
  | _, _ => .ok false

mutual

/-- Whether two values stand for the same thing. -/
def equal : Value → Value → Verdict
  | none, none => .ok true
  | text s, text t => .ok (s = t)
  | list as, list bs => if as.length = bs.length then equalLists as bs else .ok false
  | scalar s, list items | list items, scalar s => s.equalList items
  | host f, host g => .ok (f = g)
  | closure i, closure j => .ok (i = j)
  | compiled f, compiled g => .ok (f.id = g.id)
  | object i _, object j _ => .ok (i = j)
  | method a i _ m, method b j _ n => .ok (m = n && Boxed.same ⟨a, i⟩ ⟨b, j⟩)
  | a, b => a.equalNumbers b

/-- The same for lists, part by part. -/
def equalLists : List Value → List Value → Verdict
  | [], [] => .ok true
  | a :: as, b :: bs => a.equal b <&&> equalLists as bs
  | [], _ :: _ | _ :: _, [] => .ok false

end

end Value

/-- Equality of boxed values. -/
def Boxed.equal (a b : Boxed) : Verdict := if a.same b then .ok true else a.value.equal b.value

/-- A box is equal to itself. -/
theorem Boxed.equal_of_same {a b : Boxed} (h : a.same b = true) : a.equal b = .ok true := if_pos h

end Knot
