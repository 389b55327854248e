/-
  TransitRouting.Number.Digits
  ────────────────────────────
  Digits at the front of a text, and the numbers that they spell.
-/

namespace TransitRouting

namespace Digits

/-- The value of a hexadecimal digit. -/
def value? (c : Char) : Option Nat :=
  if '0' ≤ c ∧ c ≤ '9' then some (c.toNat - '0'.toNat)
  else if 'a' ≤ c ∧ c ≤ 'f' then some (c.toNat - 'a'.toNat + 10)
  else if 'A' ≤ c ∧ c ≤ 'F' then some (c.toNat - 'A'.toNat + 10)
  else none

/-- The value of a digit in a given base of at most sixteen. -/
def valueIn? (base : Nat) (c : Char) : Option Nat := (value? c).filter (· < base)

/-- The values of the decimal digits at the front of a text, and the rest. -/
def span : List Char → List Nat × List Char
  | [] => ([], [])
  | c :: rest =>
    match valueIn? 10 c with
    | some d =>
      let (digits, rest) := span rest
      (d :: digits, rest)
    | none => ([], c :: rest)

/-- The number that digits spell in a given base. -/
def number (base : Nat) (digits : List Nat) : Nat := digits.foldl (fun n d => n * base + d) 0

/-- The values of at most `count` decimal digits at the front of a text, and the
rest. -/
def spanUpTo (count : Nat) (cs : List Char) : List Nat × List Char :=
  let (digits, rest) := span (cs.take count)
  (digits, rest ++ cs.drop count)

/-- The number that a text of decimal digits spells. -/
def number? (cs : List Char) : Option Nat :=
  match span cs with
  | (d :: digits, []) => some (number 10 (d :: digits))
  | _ => none

/-- The number that exactly `count` hexadecimal digits at the front of a text
spell, and the rest. -/
def hex? : Nat → Nat → List Char → Option (Nat × List Char)
  | 0, n, rest => some (n, rest)
  | count + 1, n, c :: rest =>
    match value? c with
    | some d => hex? count (n * 16 + d) rest
    | none => none
  | _ + 1, _, [] => none

end Digits

end TransitRouting
