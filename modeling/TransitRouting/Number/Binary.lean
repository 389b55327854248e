/-
  TransitRouting.Number.Binary
  ────────────────────────────
  Floating-point numbers taken apart: a finite one is a whole number times a
  power of two, and that is enough to round it to a whole number exactly.

  Rounding goes to the nearest whole number and a half goes away from zero.
  `clampedRound` covers every floating-point number: what lies outside the
  given range goes to its nearer end, and a NaN counts as zero.
-/

namespace TransitRouting

/-- The number `± mantissa · 2 ^ exponent`. -/
structure BinaryFraction where
  /-- The number has a minus sign. -/
  negative : Bool
  /-- The whole number that is scaled. -/
  mantissa : Nat
  /-- The power of two that scales it. -/
  exponent : Int
deriving DecidableEq, Repr

namespace BinaryFraction

/-- The value of a finite floating-point number.

Of its 64 bits the first is the sign, eleven are the exponent and 52 are the
mantissa, which has one more bit at its front unless the exponent is zero. -/
def ofFloat? (x : Float) : Option BinaryFraction :=
  let bits := x.toBits.toNat
  let negative := decide (Nat.pow 2 63 ≤ bits)
  let field : Nat := bits / Nat.pow 2 52 % 2048
  let mantissa : Nat := bits % Nat.pow 2 52
  if field = 2047 then none
  else if field = 0 then some ⟨negative, mantissa, -1074⟩
  else some ⟨negative, Nat.pow 2 52 + mantissa, (field : Int) - 1075⟩

/-- The whole number nearest to the magnitude; a half goes up. -/
def roundMagnitude (x : BinaryFraction) : Nat :=
  match x.exponent with
  | .ofNat k => x.mantissa * Nat.pow 2 k
  | .negSucc k => (x.mantissa + Nat.pow 2 k) / Nat.pow 2 (k + 1)

/-- The nearest whole number; a half goes away from zero. -/
def round (x : BinaryFraction) : Int :=
  if x.negative then -(x.roundMagnitude : Int) else x.roundMagnitude

end BinaryFraction

/-- The whole number nearest to `x`, within `least` and `greatest`. -/
def clampedRound (least greatest : Int) (x : Float) : Int :=
  match BinaryFraction.ofFloat? x with
  | some f => max least (min f.round greatest)
  | none => if x.isNaN then 0 else if x < 0 then least else greatest

end TransitRouting
