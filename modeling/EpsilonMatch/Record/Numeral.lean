/-!
# EpsilonMatch.Record.Numeral

Integers written as text.

A numeral is a row of decimal digits, perhaps with a sign in front and with a
fraction behind, which must consist of zeros and have at least one. White space
around it is ignored, and leading zeros carry no meaning. The digits are those of
ASCII; white space is meant in the sense of Unicode.
-/

namespace EpsilonMatch.Numeral

/-- White space, as the Unicode property of that name lists it. -/
def isBlank (c : Char) : Bool :=
  let n := c.toNat
  (9 ≤ n && n ≤ 13) || n = 0x20 || n = 0x85 || n = 0xA0 || n = 0x1680 ||
    (0x2000 ≤ n && n ≤ 0x200A) || n = 0x2028 || n = 0x2029 || n = 0x202F || n = 0x205F ||
    n = 0x3000

/-- A text without the white space around it. -/
def trim (cs : List Char) : List Char :=
  ((cs.dropWhile isBlank).reverse.dropWhile isBlank).reverse

/-- The value of a row of decimal digits. -/
def value (digits : List Char) : Nat :=
  digits.foldl (fun n c => 10 * n + (c.toNat - '0'.toNat)) 0

/-- Does this add nothing behind the digits of an integer? That is no text at
all, or a point with at least one zero and nothing else behind it. -/
def isZeroFraction : List Char → Bool
  | [] => true
  | '.' :: places => !places.isEmpty && places.all (· = '0')
  | _ => false

/-- Reads a numeral without a sign. -/
def unsigned? (cs : List Char) : Option Nat :=
  let digits := cs.takeWhile Char.isDigit
  if !digits.isEmpty && isZeroFraction (cs.dropWhile Char.isDigit) then
    some (value digits)
  else
    none

/-- Reads a numeral. -/
def integer? (cs : List Char) : Option Int :=
  match trim cs with
  | '-' :: rest => (unsigned? rest).map fun n => -(n : Int)
  | '+' :: rest => (unsigned? rest).map Int.ofNat
  | rest => (unsigned? rest).map Int.ofNat

end EpsilonMatch.Numeral
