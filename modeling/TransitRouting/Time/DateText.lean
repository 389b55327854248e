/-
  TransitRouting.Time.DateText
  ────────────────────────────
  Reading calendar dates.

  A date is a year, a month and a day with dashes between them.  The year has at
  most four digits unless it has a sign; month and day have one or two.  White
  space may stand around every number and dash, but not after a sign.
-/
import TransitRouting.Number.Digits
import TransitRouting.Time.Calendar

namespace TransitRouting

namespace Date

/-- The character is white space, as Unicode has it. -/
def isWhiteSpace (c : Char) : Bool :=
  let n := c.toNat
  (0x09 ≤ n && n ≤ 0x0D) || n = 0x20 || n = 0x85 || n = 0xA0 || n = 0x1680 ||
    (0x2000 ≤ n && n ≤ 0x200A) || n = 0x2028 || n = 0x2029 || n = 0x202F || n = 0x205F ||
    n = 0x3000

/-- The text without the white space at its front. -/
def skipWhiteSpace (cs : List Char) : List Char := cs.dropWhile isWhiteSpace

/-- A number of one or more digits, and the rest. -/
def readNumber? : List Nat × List Char → Option (Nat × List Char)
  | ([], _) => none
  | (digits, rest) => some (Digits.number 10 digits, rest)

/-- A year, and the rest. -/
def readYear? : List Char → Option (Int × List Char)
  | '-' :: rest => (readNumber? (Digits.span rest)).map fun (n, rest) => (-(n : Int), rest)
  | '+' :: rest => (readNumber? (Digits.span rest)).map fun (n, rest) => ((n : Int), rest)
  | rest => (readNumber? (Digits.spanUpTo 4 rest)).map fun (n, rest) => ((n : Int), rest)

/-- A dash and the number after it, and the rest. -/
def readPart? (cs : List Char) : Option (Nat × List Char) :=
  match skipWhiteSpace cs with
  | '-' :: rest => readNumber? (Digits.spanUpTo 2 (skipWhiteSpace rest))
  | _ => none

/-- The date that a text spells. -/
def ofText? (s : String) : Option Date := do
  let (year, cs) ← readYear? (skipWhiteSpace s.toList)
  let (month, cs) ← readPart? cs
  let (day, cs) ← readPart? cs
  if (skipWhiteSpace cs).isEmpty then ofParts? year month day else none

end Date

end TransitRouting
