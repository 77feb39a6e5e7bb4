import Knot.Number.Binary

/-!
# Numerals

The numerals that a text may hold: an optional sign and decimal digits of any script, single
underscores allowed between digits, blanks around the whole. `integer?` reads an integer,
`floating?` also a point, an exponent, or one of the words for infinity and for no number.

Integers of more than `maxDigits` digits are neither read nor written: `Writable` holds of the
others.
-/

namespace Knot.Numeral

/-! ## Characters -/

/-- The code point of the digit zero in each script that has decimal digits; the other nine
digits follow it. -/
def zeros : List Nat := [
  0x30, 0x660, 0x6f0, 0x7c0, 0x966, 0x9e6, 0xa66, 0xae6, 0xb66, 0xbe6, 0xc66, 0xce6, 0xd66,
  0xde6, 0xe50, 0xed0, 0xf20, 0x1040, 0x1090, 0x17e0, 0x1810, 0x1946, 0x19d0, 0x1a80, 0x1a90,
  0x1b50, 0x1bb0, 0x1c40, 0x1c50, 0xa620, 0xa8d0, 0xa900, 0xa9d0, 0xa9f0, 0xaa50, 0xabf0,
  0xff10, 0x104a0, 0x10d30, 0x11066, 0x110f0, 0x11136, 0x111d0, 0x112f0, 0x11450, 0x114d0,
  0x11650, 0x116c0, 0x11730, 0x118e0, 0x11950, 0x11c50, 0x11d50, 0x11da0, 0x16a60, 0x16ac0,
  0x16b50, 0x1d7ce, 0x1d7d8, 0x1d7e2, 0x1d7ec, 0x1d7f6, 0x1e140, 0x1e2f0, 0x1e950, 0x1fbf0]

/-- The digit that a character stands for. -/
def digit? (c : Char) : Option Nat :=
  (zeros.find? fun z => z ≤ c.toNat && c.toNat < z + 10).map (c.toNat - ·)

/-- The code points beyond ASCII that count as blanks. -/
def wideBlanks : List Nat := [
  0x85, 0xa0, 0x1680, 0x2000, 0x2001, 0x2002, 0x2003, 0x2004, 0x2005, 0x2006, 0x2007, 0x2008,
  0x2009, 0x200a, 0x2028, 0x2029, 0x202f, 0x205f, 0x3000]

/-- Blanks around a numeral are skipped. -/
def isBlank (c : Char) : Bool :=
  c = ' ' || (9 ≤ c.toNat && c.toNat ≤ 13) || wideBlanks.contains c.toNat

/-- The separators of files, groups, records and units are blanks in a text that goes beyond
ASCII. -/
def isSeparator (c : Char) : Bool := 0x1c ≤ c.toNat && c.toNat ≤ 0x1f

/-- A text without the blanks around it. -/
def trimmed (s : String) : List Char :=
  let wide := s.toList.any fun c => 128 ≤ c.toNat
  let blank (c : Char) := isBlank c || (wide && isSeparator c)
  ((s.toList.dropWhile blank).reverse.dropWhile blank).reverse

/-- The sign in front of a numeral, and the rest. -/
def sign : List Char → Bool × List Char
  | '-' :: rest => (true, rest)
  | '+' :: rest => (false, rest)
  | rest => (false, rest)

/-! ## Digits -/

/-- The digits of `digits (_ digits)*`, if the whole list has that form. -/
def digits? : List Char → Option (List Nat)
  | [] => none
  | [c] => (digit? c).map fun d => [d]
  | c :: '_' :: rest => do
    let d ← digit? c
    let more ← digits? rest
    pure (d :: more)
  | c :: rest => do
    let d ← digit? c
    let more ← digits? rest
    pure (d :: more)

/-- The number that decimal digits denote. -/
def value (digits : List Nat) : Nat := digits.foldl (fun n d => 10 * n + d) 0

/-- The most digits of an integer that is read or written. -/
def maxDigits : Nat := 4300

/-- The integer that a text denotes. -/
def integer? (s : String) : Option Int := do
  let (negative, rest) := sign (trimmed s)
  let ds ← digits? rest
  if maxDigits < ds.length then none
  else some (if negative then -(value ds : Int) else value ds)

/-- The least number with more than `maxDigits` digits. -/
def writableBelow : Nat := 10 ^ maxDigits

/-- An integer is written out if it has at most `maxDigits` digits. -/
def Writable (v : Int) : Prop := v.natAbs < writableBelow

instance (v : Int) : Decidable (Writable v) := inferInstanceAs (Decidable (_ < _))

/-- An integer of few digits can be written. -/
theorem writable_of_lt {v : Int} {digits : Nat} (short : digits ≤ maxDigits)
    (small : v.natAbs < 10 ^ digits) : Writable v :=
  Nat.lt_of_lt_of_le small (Nat.pow_le_pow_right (by decide) short)

/-! ## Numbers with a point or an exponent -/

/-- A list without underscores, if each one stood between two digits. -/
def plain? : List Char → Option (List Char)
  | [] => some []
  | '_' :: _ => none
  | c :: '_' :: next :: rest =>
    if (digit? c).isSome && (digit? next).isSome then (plain? (next :: rest)).map (c :: ·) else none
  | c :: rest => (plain? rest).map (c :: ·)

/-- The leading digits of a list, and the rest. -/
def leading : List Char → List Nat × List Char
  | [] => ([], [])
  | c :: rest => match digit? c with
    | some d => let (ds, more) := leading rest; (d :: ds, more)
    | none => ([], c :: rest)

/-- The exponent at the end of a numeral: none, or `e` with an integer. -/
def exponent? : List Char → Option Int
  | [] => some 0
  | c :: rest =>
    if c = 'e' || c = 'E' then
      let (negative, more) := sign rest
      match leading more with
      | ([], _) => none
      | (ds, []) => some (if negative then -(value ds : Int) else value ds)
      | (_, _) => none
    else none

/-- The number `± digits * 10 ^ exponent`, rounded. A number of absurd size is settled by its
leading place alone. -/
def rounded (negative : Bool) (digits : List Nat) (exponent : Int) : Floating .double :=
  let n := value digits
  let place := exponent + (digitCount n : Int)
  if n = 0 then .zero negative
  else if 400 < place then .infinite negative
  else if place < -400 then .zero negative
  else let (a, b) := scaledTen n 1 exponent; .round negative a b

/-- A text without the null characters at its end. -/
def unpadded (s : String) : String :=
  String.ofList ((s.toList.reverse.dropWhile (· = '\x00')).reverse)

/-- The number that a text denotes. -/
def floating? (s : String) : Option (Floating .double) := do
  let chars ← plain? (trimmed s)
  let (negative, rest) := sign chars
  let word := String.ofList (rest.map Char.toLower)
  if word = "inf" || word = "infinity" then return .infinite negative
  if word = "nan" then return .nan
  let (whole, more) := leading rest
  let (fraction, last) := match more with
    | '.' :: tail => leading tail
    | _ => ([], more)
  if whole.isEmpty && fraction.isEmpty then none
  let e ← exponent? last
  return rounded negative (whole ++ fraction) (e - fraction.length)

end Knot.Numeral
