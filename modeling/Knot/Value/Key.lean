import Knot.Value.Equality

/-!
# Keys

Values as keys of a table. A key is found by its digest first and by equality then, as in any hash
table: two numbers, of whatever kinds, have one digest when they are the same number, and in rare
cases when they are not; a text, a function or an object has a digest of its own. A list has no
digest and is no key.

`Key.meets` is the whole test: one box, or equal digests and equal values. So the integer `1`, the
truth value, the float `1.0` and every scalar equal to `1` are one key, a `nan` is a key only by
its box, and integers too large to meet a key of the same digest make the test fail.
-/

namespace Knot

/-- What is compared before two keys are. -/
inductive Digest where
  | absent
  | number (residue : Int)
  | nan
  | text (s : String)
  | host (f : HostFunction)
  | function (id : Nat)
  | object (id : Nat)
  | method (name : String)
deriving DecidableEq, Repr

/-- The digest of an exact number. -/
def Digest.ofExact (x : Exact) : Digest :=
  match x with
  | .nan => nan
  | x => number x.residue

/-- The digest of a value, if it can be a key. -/
def Value.digest? : Value → Option Digest
  | none => some .absent
  | bool b => some (.ofExact (.ofInt (bitOf b)))
  | int v => some (.ofExact (.ofInt v))
  | float x => some (.ofExact (.ofFloating x))
  | text s => some (.text s)
  | list _ => Option.none
  | scalar s => some (.ofExact (Number.scalar s).exact)
  | host f => some (.host f)
  | closure id => some (.function id)
  | compiled f => some (.function f.id)
  | object id _ => some (.object id)
  | method _ _ _ name => some (.method name)

/-- A value that can be a key, with its digest. -/
structure Key where
  digest : Digest
  box : Boxed

/-- The key of a boxed value, if it can be one. -/
def Boxed.key? (b : Boxed) : Option Key := (b.value.digest?).map fun d => ⟨d, b⟩

namespace Key

/-- Whether a key in a table is the one looked for. -/
def meets (stored sought : Key) : Verdict :=
  if stored.box.same sought.box then .ok true
  else if stored.digest = sought.digest then stored.box.value.equal sought.box.value
  else .ok false

/-- A key meets itself when its box is its own. -/
theorem meets_of_same {stored sought : Key} (h : stored.box.same sought.box = true) :
    stored.meets sought = .ok true := if_pos h

/-- Keys of different digests in different boxes do not meet. -/
theorem meets_of_digest_ne {stored sought : Key} (h : stored.box.same sought.box = false)
    (apart : stored.digest ≠ sought.digest) : stored.meets sought = .ok false := by
  simp [meets, h, apart]

end Key

end Knot
