/-
  TransitRouting.Cost
  ───────────────────
  Generalized cost: weighted time, counted in hundredths of a second.

  Walking is worse than riding and waiting may be worse than both, so every
  span of time is multiplied by a factor.  The product is rounded once, when
  the cost is made; from there on costs are added and compared as whole
  numbers.

  A cost is kept in 64 bits.  A product that does not fit goes to the nearer end
  of the range, but a sum that does not fit wraps around: past the greatest cost
  the least one follows.
-/
import TransitRouting.Number.Binary
import TransitRouting.Time

namespace TransitRouting

/-- Weighted time in hundredths of a second. -/
structure Cost where
  /-- Hundredths of a weighted second. -/
  hundredths : Int64
deriving DecidableEq, Repr, Inhabited

namespace Cost

/-- No cost. -/
def zero : Cost := ⟨0⟩

instance : Add Cost := ⟨fun a b => ⟨a.hundredths + b.hundredths⟩⟩
instance : Sub Cost := ⟨fun a b => ⟨a.hundredths - b.hundredths⟩⟩
instance : LE Cost := ⟨fun a b => a.hundredths ≤ b.hundredths⟩
instance : LT Cost := ⟨fun a b => a.hundredths < b.hundredths⟩
instance : DecidableLE Cost := fun a b =>
  inferInstanceAs (Decidable (a.hundredths ≤ b.hundredths))
instance : DecidableLT Cost := fun a b =>
  inferInstanceAs (Decidable (a.hundredths < b.hundredths))

/-- The sum of a list of costs. -/
def sum (costs : List Cost) : Cost := costs.foldl (· + ·) zero

/-- The cost of `seconds` spent at a factor, within 64 bits. -/
def ofSeconds (seconds : Int) (factor : Float) : Cost :=
  ⟨(clampedRound (-9223372036854775808) 9223372036854775807
    (Float.ofInt seconds * factor * 100.0)).toInt64⟩

/-- The cost of a duration spent at a factor. -/
def ofDuration (d : Duration) (factor : Float) : Cost := ofSeconds d.seconds factor

/-- The cost in weighted seconds. -/
def toSeconds (c : Cost) : Float := Float.ofInt c.hundredths.toInt / 100.0

/-- Whole weighted seconds, a point, and two digits for the hundredths.  The
whole seconds are rounded toward zero, so a cost between minus one and zero
is written without a sign. -/
def text (c : Cost) : String :=
  let hundredths := (c.hundredths.toInt.natAbs % 100)
  toString (Int.tdiv c.hundredths.toInt 100) ++ "." ++
    (if hundredths < 10 then "0" else "") ++ toString hundredths

/-- The text that marks a cost as such. -/
def debugText (c : Cost) : String := "Cost(" ++ c.text ++ ")"

/-! ## What the operations do to the hundredths. -/

@[simp] theorem add_hundredths (a b : Cost) :
    (a + b).hundredths = a.hundredths + b.hundredths := rfl

@[simp] theorem sub_hundredths (a b : Cost) :
    (a - b).hundredths = a.hundredths - b.hundredths := rfl

theorem ext {a b : Cost} (h : a.hundredths = b.hundredths) : a = b := by
  cases a; cases b; simp_all

theorem le_iff {a b : Cost} : a ≤ b ↔ a.hundredths.toInt ≤ b.hundredths.toInt :=
  Int64.le_iff_toInt_le

theorem lt_iff {a b : Cost} : a < b ↔ a.hundredths.toInt < b.hundredths.toInt :=
  Int64.lt_iff_toInt_lt

/-! ## The order is linear. -/

theorem le_refl (a : Cost) : a ≤ a := le_iff.mpr (Int.le_refl _)

theorem le_trans {a b c : Cost} (h : a ≤ b) (h' : b ≤ c) : a ≤ c :=
  le_iff.mpr (Int.le_trans (le_iff.mp h) (le_iff.mp h'))

theorem le_of_lt {a b : Cost} (h : a < b) : a ≤ b := le_iff.mpr (Int.le_of_lt (lt_iff.mp h))

theorem not_lt {a b : Cost} : ¬ a < b ↔ b ≤ a := by
  rw [lt_iff, le_iff]
  exact Int.not_lt

theorem lt_irrefl (a : Cost) : ¬ a < a := fun h => Int.lt_irrefl _ (lt_iff.mp h)

theorem lt_of_lt_of_le {a b c : Cost} (h : a < b) (h' : b ≤ c) : a < c :=
  lt_iff.mpr (Int.lt_of_lt_of_le (lt_iff.mp h) (le_iff.mp h'))

end Cost

end TransitRouting
