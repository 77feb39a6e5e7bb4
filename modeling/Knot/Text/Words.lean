import Knot.Text.Numeral

/-!
# Letters and parts of texts

The upper and lower case of ASCII letters and of the Latin and Cyrillic ones that come next
(`isCovered`), and the search for a part of a text. Nothing is said of the case of other
characters. A text is a list of characters throughout.
-/

namespace Knot.Words

/-! ## Case -/

/-- The characters whose case is known: ASCII, and a block of Latin and one of Cyrillic in which
every letter has two forms. The sharp s and the letter kra have one only and stay out. -/
def isCovered (c : Char) : Bool :=
  let n := c.toNat
  n ≤ 0x7f || (0xc0 ≤ n && n ≤ 0x148 && n ≠ 0xdf && n ≠ 0x138) || (0x400 ≤ n && n ≤ 0x481)

/-- The letters whose upper and lower forms lie side by side, the upper form at the even place. -/
def pairedEven (n : Nat) : Bool :=
  (0x100 ≤ n && n ≤ 0x12f) || (0x132 ≤ n && n ≤ 0x137) || (0x460 ≤ n && n ≤ 0x481)

/-- The same with the upper form at the odd place. -/
def pairedOdd (n : Nat) : Bool := 0x139 ≤ n && n ≤ 0x148

/-- The ranges of lower forms with the distance down to their upper forms. -/
def shifted : List (Nat × Nat × Nat) := [
  (0x61, 0x7a, 32), (0xe0, 0xf6, 32), (0xf8, 0xfe, 32), (0x430, 0x44f, 32), (0x450, 0x45f, 80)]

/-- The upper form of a letter. Other characters stay. -/
def upper (c : Char) : List Char :=
  let n := c.toNat
  if n = 0xff then [Char.ofNat 0x178]
  else if n = 0x131 then ['I']
  else if pairedEven n then [Char.ofNat (n - n % 2)]
  else if pairedOdd n then [Char.ofNat (n - (n + 1) % 2)]
  else match shifted.find? fun r => r.1 ≤ n && n ≤ r.2.1 with
    | some (_, _, distance) => [Char.ofNat (n - distance)]
    | none => [c]

/-- The lower form of a letter: a capital i with a dot keeps the dot as a second character. Other
characters stay. -/
def lower (c : Char) : List Char :=
  let n := c.toNat
  if n = 0x130 then ['i', Char.ofNat 0x307]
  else if pairedEven n then [Char.ofNat (n - n % 2 + 1)]
  else if pairedOdd n then [Char.ofNat (n + n % 2)]
  else match shifted.find? fun r => r.1 ≤ n + r.2.2 && n + r.2.2 ≤ r.2.1 with
    | some (_, _, distance) => [Char.ofNat (n + distance)]
    | none => [c]

/-- A letter that is the lower form of another. -/
def isLower (c : Char) : Bool := upper c ≠ [c]

/-- A letter that is the upper form of another. -/
def isUpper (c : Char) : Bool := lower c ≠ [c]

/-- A letter. -/
def isLetter (c : Char) : Bool := isLower c || isUpper c

/-- Each letter behind a letter in lower form, and each other letter in upper form. -/
def titled : Bool → List Char → List Char
  | _, [] => []
  | inside, c :: rest =>
    (if inside then lower c else upper c) ++ titled (isLetter c) rest

/-- The first character in upper form and the others in lower form. -/
def capitalized : List Char → List Char
  | [] => []
  | c :: rest => upper c ++ rest.flatMap lower

/-- A letter in its other form. -/
def swapped (c : Char) : List Char := if isLower c then upper c else lower c

/-- Whether the letters with two forms all have the form `wanted`, and there is one. -/
def allCased (wanted unwanted : Char → Bool) (cs : List Char) : Bool :=
  cs.any wanted && !cs.any unwanted

/-! ## Parts -/

/-- The places at which a part begins. -/
def places (part : List Char) : Nat → List Char → List Nat
  | n, [] => if part.isEmpty then [n] else []
  | n, c :: rest =>
    (if part.isPrefixOf (c :: rest) then [n] else []) ++ places part (n + 1) rest

/-- A text cut at each occurrence of a part that is not empty, from the left and without overlap;
`skip` characters belong to the last occurrence. -/
def cut (part : List Char) : Nat → List Char → List Char → List (List Char)
  | _, piece, [] => [piece.reverse]
  | skip + 1, piece, _ :: rest => cut part skip piece rest
  | 0, piece, c :: rest =>
    if part.isPrefixOf (c :: rest) then piece.reverse :: cut part (part.length - 1) [] rest
    else cut part 0 (c :: piece) rest

/-- A blank inside a text. -/
def isBlank (c : Char) : Bool := Numeral.isBlank c || Numeral.isSeparator c

/-- A text cut at blanks. -/
def split (cs : List Char) : List (List Char) :=
  (cs.splitBy fun a b => isBlank a = isBlank b).filter fun word => !word.all isBlank

/-- Ends a line. -/
def isBreak (c : Char) : Bool :=
  (10 ≤ c.toNat && c.toNat ≤ 13) || (0x1c ≤ c.toNat && c.toNat ≤ 0x1e) ||
    [0x85, 0x2028, 0x2029].contains c.toNat

/-- The lines of a text, the first of which begins with `line`, read backwards. A carriage return
and the line feed behind it are one break. -/
def lines : List Char → List Char → List (List Char)
  | line, [] => if line.isEmpty then [] else [line.reverse]
  | line, '\r' :: '\n' :: rest => line.reverse :: lines [] rest
  | line, c :: rest => if isBreak c then line.reverse :: lines [] rest else lines (c :: line) rest

/-- A text with a separator in front of, between and behind its characters. -/
def interleaved (separator : List Char) (cs : List Char) : List Char :=
  separator ++ cs.flatMap fun c => c :: separator

/-- A text without the characters of a class at its front. -/
def strippedFront (p : Char → Bool) (cs : List Char) : List Char := cs.dropWhile p

/-- A text without the characters of a class at its end. -/
def strippedEnd (p : Char → Bool) (cs : List Char) : List Char :=
  (cs.reverse.dropWhile p).reverse

/-- Zeros behind the sign of a text up to a width. -/
def zeroFilled (width : Nat) (cs : List Char) : List Char :=
  let zeros := List.replicate (width - cs.length) '0'
  match cs with
  | '-' :: rest => '-' :: (zeros ++ rest)
  | '+' :: rest => '+' :: (zeros ++ rest)
  | cs => zeros ++ cs

end Knot.Words
