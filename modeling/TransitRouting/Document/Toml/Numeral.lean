/-
  TransitRouting.Document.Toml.Numeral
  ────────────────────────────────────
  Numbers, as TOML has them.

  A number without fraction and exponent is whole, and has at most 128 bits.
  Any other is rounded to the nearest floating-point number.  A number that is
  too great is well formed, but cannot be read.
-/
import TransitRouting.Document
import TransitRouting.Number.Decimal
import TransitRouting.Number.Digits

namespace TransitRouting

namespace Toml

/-! ## §1. Digits. -/

/-- The digits that go on a number in the given base.  There may be an
underscore before each. -/
def moreDigits (base : Nat) : List Char → List Nat × List Char
  | [] => ([], [])
  | '_' :: c :: rest =>
    match Digits.valueIn? base c with
    | some d =>
      let (digits, rest) := moreDigits base rest
      (d :: digits, rest)
    | none => ([], '_' :: c :: rest)
  | c :: rest =>
    match Digits.valueIn? base c with
    | some d =>
      let (digits, rest) := moreDigits base rest
      (d :: digits, rest)
    | none => ([], c :: rest)

/-- At least one digit in the given base. -/
def readDigits (base : Nat) : List Char → Option (List Nat × List Char)
  | [] => none
  | c :: rest =>
    (Digits.valueIn? base c).map fun d =>
      let (digits, rest) := moreDigits base rest
      (d :: digits, rest)

/-- A sign, if there is one: whether it is a minus. -/
def readSign : List Char → Bool × List Char
  | '-' :: rest => (true, rest)
  | '+' :: rest => (false, rest)
  | rest => (false, rest)

/-! ## §2. Whole numbers. -/

/-- The whole number `n`, or its opposite, if it has at most 128 bits. -/
def wholeNumber (negative : Bool) (n : Nat) : Datum :=
  if negative then if n ≤ Nat.pow 2 127 then .int (-(n : Int)) else .unreadable
  else if n < Nat.pow 2 128 then .int n
  else .unreadable

/-- A whole number in the given base. -/
def readWhole (base : Nat) (cs : List Char) : Option (Datum × List Char) :=
  (readDigits base cs).map fun (digits, rest) =>
    (wholeNumber false (Digits.number base digits), rest)

/-! ## §3. Fractions and exponents. -/

/-- The number `x`, or its opposite. -/
def signed (negative : Bool) (x : Float) : Datum := .float (if negative then -x else x)

/-- The number that is nearest to a decimal fraction, or its opposite. -/
def nearestNumber (negative : Bool) (x : DecimalFraction) : Datum :=
  match x.nearestFloat? with
  | some x => signed negative x
  | none => .unreadable

/-- A point and the digits after it, if there is a point. -/
def readFraction : List Char → Option (Option (List Nat) × List Char)
  | '.' :: rest => (readDigits 10 rest).map fun (digits, rest) => (some digits, rest)
  | rest => some (none, rest)

/-- An exponent, if there is one. -/
def readExponent : List Char → Option (Option Int × List Char)
  | [] => some (none, [])
  | c :: rest =>
    if c = 'e' ∨ c = 'E' then
      let (negative, rest) := readSign rest
      (readDigits 10 rest).map fun (digits, rest) =>
        let n : Int := Digits.number 10 digits
        (some (if negative then -n else n), rest)
    else some (none, c :: rest)

/-! ## §4. Numbers. -/

/-- A decimal number without its sign.  Its whole part has no leading zeros. -/
def readDecimal (negative : Bool) (cs : List Char) : Option (Datum × List Char) := do
  let (whole, cs) ← readDigits 10 cs
  if whole.head? = some 0 ∧ 1 < whole.length then none
  else
    let (fraction, cs) ← readFraction cs
    let (exponent, cs) ← readExponent cs
    match fraction, exponent with
    | none, none => return (wholeNumber negative (Digits.number 10 whole), cs)
    -- The digits form one whole number, which the exponent scales back.
    | _, _ =>
      let places := fraction.getD []
      let x : DecimalFraction :=
        ⟨Digits.number 10 (whole ++ places), exponent.getD 0 - places.length⟩
      return (nearestNumber negative x, cs)

/-- A number. -/
def readNumber : List Char → Option (Datum × List Char)
  | '0' :: 'x' :: rest => readWhole 16 rest
  | '0' :: 'o' :: rest => readWhole 8 rest
  | '0' :: 'b' :: rest => readWhole 2 rest
  | cs =>
    let (negative, cs) := readSign cs
    match cs with
    | 'i' :: 'n' :: 'f' :: rest => some (signed negative (1.0 / 0.0), rest)
    | 'n' :: 'a' :: 'n' :: rest => some (signed negative (0.0 / 0.0), rest)
    | cs => readDecimal negative cs

end Toml

end TransitRouting
