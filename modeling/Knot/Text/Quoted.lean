import Knot.Text.Printable

/-!
# Quoted text

A text between quotation marks: single ones, unless the text holds a single and no double one.
A backslash and the mark in use are escaped, line breaks and tabs have a letter of their own,
and any other character that is not printable is written by its code point in two, four or
eight hexadecimal digits.
-/

namespace Knot

/-- `n` in lower-case hexadecimal with at least `width` digits. -/
def hexadecimal (width n : Nat) : String :=
  let digits := Nat.toDigits 16 n
  String.ofList (List.replicate (width - digits.length) '0' ++ digits)

/-- One character between quotation marks `mark`. -/
def escaped (mark c : Char) : String :=
  if c = mark || c = '\\' then "\\" ++ String.singleton c
  else if c = '\n' then "\\n"
  else if c = '\r' then "\\r"
  else if c = '\t' then "\\t"
  else if isPrintable c then String.singleton c
  else if c.toNat < 0x100 then "\\x" ++ hexadecimal 2 c.toNat
  else if c.toNat < 0x10000 then "\\u" ++ hexadecimal 4 c.toNat
  else "\\U" ++ hexadecimal 8 c.toNat

/-- The mark that a text is put in. -/
def quotationMark (s : String) : Char :=
  if s.toList.contains '\'' && !s.toList.contains '"' then '"' else '\''

/-- A text in quotation marks. -/
def quoted (s : String) : String :=
  let mark := quotationMark s
  String.singleton mark ++ String.join (s.toList.map (escaped mark)) ++ String.singleton mark

end Knot
