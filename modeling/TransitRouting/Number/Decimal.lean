/-
  TransitRouting.Number.Decimal
  ─────────────────────────────
  The shortest decimal text of a floating-point number, and the number nearest
  to a decimal.

  A decimal reads back as a number `x` if it lies within half a unit of `x`'s
  last binary place.  The text of `x` has the fewest digits with which some
  decimal reads back as `x`; of the decimals with that many digits it is the
  nearest one, and of two equally near ones the greater.  It is written out in
  full, without an exponent.
-/
import TransitRouting.Number.Binary

namespace TransitRouting

/-- The number `digits · 10 ^ exponent`. -/
structure DecimalFraction where
  /-- The digits, as a whole number. -/
  digits : Nat
  /-- The power of ten that scales them. -/
  exponent : Int
deriving DecidableEq, Repr

namespace DecimalFraction

/-! ## §1. The decimals that read back. -/

/-- The magnitude of a floating-point number and the ends of the interval that
reads back as it, all three as multiples of one unit `1 / scale`. -/
structure Interval where
  /-- The lower end. -/
  lower : Nat
  /-- The number itself. -/
  value : Nat
  /-- The upper end. -/
  upper : Nat
  /-- How many units make one. -/
  scale : Nat
  /-- The ends read back as well. -/
  closed : Bool

/-- The interval that reads back as `x`.

A quarter of the last place is the unit.  Each end is half a place away, save
that the lower one is a quarter away where the places below are half as wide.
The ends belong to the interval if the mantissa is even. -/
def Interval.of (x : BinaryFraction) : Interval :=
  -- A power of two, above the numbers that have no full mantissa.
  let narrow := decide (x.mantissa = Nat.pow 2 52 ∧ -1074 < x.exponent)
  let up := (x.exponent - 2).toNat
  let down := (2 - x.exponent).toNat
  { lower := (4 * x.mantissa - if narrow then 1 else 2) * Nat.pow 2 up
    value := 4 * x.mantissa * Nat.pow 2 up
    upper := (4 * x.mantissa + 2) * Nat.pow 2 up
    scale := Nat.pow 2 down
    closed := x.mantissa % 2 = 0 }

/-- The decimal lies in the interval. -/
def Interval.contains (i : Interval) (d : DecimalFraction) : Bool :=
  let shift := d.exponent.toNat
  let drop := (-d.exponent).toNat
  let n := d.digits * Nat.pow 10 shift * i.scale
  let lower := i.lower * Nat.pow 10 drop
  let upper := i.upper * Nat.pow 10 drop
  if i.closed then lower ≤ n && n ≤ upper else lower < n && n < upper

/-- The greatest decimal with the given exponent that is not above the value,
and whether the next one is as near to the value or nearer. -/
def Interval.floor (i : Interval) (exponent : Int) : DecimalFraction × Bool :=
  let n := i.value * Nat.pow 10 (-exponent).toNat
  let unit := i.scale * Nat.pow 10 exponent.toNat
  (⟨n / unit, exponent⟩, unit ≤ 2 * (n % unit))

/-- The nearest decimal with the given exponent that reads back, if any. -/
def Interval.nearest? (i : Interval) (exponent : Int) : Option DecimalFraction :=
  let (below, nextIsNearer) := i.floor exponent
  let above : DecimalFraction := ⟨below.digits + 1, exponent⟩
  match i.contains below, i.contains above with
  | true, true => some (if nextIsNearer then above else below)
  | true, false => some below
  | false, true => some above
  | false, false => none

/-- Number of decimal digits before the point of the value, or minus the number
of zeros that follow the point. -/
def Interval.magnitude (i : Interval) : Int :=
  if i.scale ≤ i.value then ((toString (i.value / i.scale)).length : Int)
  else 1 - ((toString (i.scale / i.value)).length : Int)

/-- The shortest decimal that reads back as `x`.  Seventeen digits always do;
the value may have one digit less than its magnitude says. -/
def shortest (x : BinaryFraction) : DecimalFraction :=
  if x.mantissa = 0 then ⟨0, 0⟩
  else
    let i := Interval.of x
    ((List.range 19).findSome? fun (n : Nat) => i.nearest? (i.magnitude - (n : Int))).getD ⟨0, 0⟩

/-! ## §2. Its text. -/

/-- The decimal written out in full. -/
def text (d : DecimalFraction) : String :=
  let digits := toString d.digits
  match d.exponent with
  | .ofNat k => if d.digits = 0 then digits else digits ++ zeros k
  | .negSucc k =>
    let places := k + 1
    if places < digits.length then
      -- The point falls between two digits.
      let front := digits.toList.take (digits.length - places)
      let back := digits.toList.drop (digits.length - places)
      String.ofList front ++ "." ++ String.ofList back
    else "0." ++ zeros (places - digits.length) ++ digits
where
  zeros (n : Nat) : String := String.ofList (List.replicate n '0')

end DecimalFraction

/-! ## §3. Floating-point numbers and decimals. -/

/-- The floating-point number nearest to a decimal, unless the decimal is too
great.

A decimal that has `size` digits before the point is less than `10 ^ size`, and
at least a tenth of that.  So beyond the given sizes it is too great, or nearer
to zero than to any other number. -/
def DecimalFraction.nearestFloat? (d : DecimalFraction) : Option Float :=
  -- Keeps the powers of ten small enough to compute with.
  let size : Int := ((toString d.digits).length : Int) + d.exponent
  if d.digits = 0 ∨ size < -330 then some 0.0
  else if 310 < size then none
  else
    let x := Float.ofScientific d.digits (decide (d.exponent < 0)) d.exponent.natAbs
    if x.isFinite then some x else none

/-- The shortest text that reads back as `x`. -/
def decimalText (x : Float) : String :=
  match BinaryFraction.ofFloat? x with
  | some f => (if f.negative then "-" else "") ++ (DecimalFraction.shortest f).text
  | none => if x.isNaN then "NaN" else if x < 0 then "-inf" else "inf"

end TransitRouting
