/-
  TransitRouting.Criteria
  ───────────────────────
  The values on which arrivals compete, and when one arrival makes another
  superfluous.

  An arrival dominates another if it is no worse on time, transfers and cost,
  better on one of them, and has used no priority group that the other has
  not.  An arrival is rejected if an arrival already at hand dominates it or
  ties with it.

  Main statements: dominance is a strict order (`Criteria.not_dominates_self`,
  `Criteria.Dominates.trans`).
-/
import TransitRouting.Cost
import TransitRouting.GroupSet

namespace TransitRouting

/-- What becomes of an arrival that ties with one already at hand. -/
inductive TieBreak where
  /-- The one found first is kept if their groups can be compared. -/
  | firstFound
  /-- Both are kept unless their groups are the same. -/
  | keepAll
deriving DecidableEq, Repr, Inhabited

/-- The values on which arrivals compete. -/
structure Criteria where
  /-- Time of arrival, on the timeline of the search. -/
  arrival : Time
  /-- Transfers made so far. -/
  transfers : Nat
  /-- Cost so far. -/
  cost : Cost
  /-- Priority groups used so far. -/
  groups : GroupSet
deriving DecidableEq, Repr, Inhabited

namespace Criteria

/-- The same time, transfers and cost, whatever the groups. -/
def SameValues (a b : Criteria) : Prop :=
  a.arrival = b.arrival ∧ a.transfers = b.transfers ∧ a.cost = b.cost

instance (a b : Criteria) : Decidable (a.SameValues b) :=
  inferInstanceAs (Decidable (_ ∧ _ ∧ _))

/-- The first is no worse on any value, better on one, and has used no group
that the second has not. -/
def Dominates (a b : Criteria) : Prop :=
  a.groups ⊆ b.groups ∧
    (a.arrival ≤ b.arrival ∧ a.transfers ≤ b.transfers ∧ a.cost ≤ b.cost) ∧
    (a.arrival < b.arrival ∨ a.transfers < b.transfers ∨ a.cost < b.cost)

instance (a b : Criteria) : Decidable (a.Dominates b) :=
  inferInstanceAs (Decidable (_ ∧ (_ ∧ _ ∧ _) ∧ (_ ∨ _ ∨ _)))

end Criteria

/-- An arrival with groups `held` makes one with the same values and groups
`offered` superfluous. -/
def TieBreak.Settles (policy : TieBreak) (held offered : GroupSet) : Prop :=
  match policy with
  | .firstFound => held ⊆ offered ∨ offered ⊆ held
  | .keepAll => held = offered

instance (policy : TieBreak) (held offered : GroupSet) :
    Decidable (policy.Settles held offered) := by
  unfold TieBreak.Settles
  cases policy <;> infer_instance

namespace Criteria

/-- An arrival at hand rejects an arrival that is offered. -/
def Rejects (policy : TieBreak) (held offered : Criteria) : Prop :=
  held.Dominates offered ∨ held.SameValues offered ∧ policy.Settles held.groups offered.groups

instance (policy : TieBreak) (held offered : Criteria) :
    Decidable (Rejects policy held offered) :=
  inferInstanceAs (Decidable (_ ∨ _ ∧ _))

/-! ## Dominance is a strict order. -/

theorem not_dominates_self (a : Criteria) : ¬ a.Dominates a := by
  intro h
  obtain ⟨-, -, h | h | h⟩ := h
  · exact Int.lt_irrefl _ h
  · exact Nat.lt_irrefl _ h
  · exact Cost.lt_irrefl _ h

theorem Dominates.trans {a b c : Criteria} (h : a.Dominates b) (h' : b.Dominates c) :
    a.Dominates c := by
  obtain ⟨hg, ⟨ha, ht, hc⟩, hlt⟩ := h
  obtain ⟨hg', ⟨ha', ht', hc'⟩, -⟩ := h'
  refine ⟨GroupSet.subset_trans hg hg', ⟨Time.le_trans ha ha', Nat.le_trans ht ht',
    Cost.le_trans hc hc'⟩, ?_⟩
  rcases hlt with h | h | h
  · exact Or.inl (Int.lt_of_lt_of_le h ha')
  · exact Or.inr (Or.inl (Nat.lt_of_lt_of_le h ht'))
  · exact Or.inr (Or.inr (Cost.lt_of_lt_of_le h hc'))

end Criteria

end TransitRouting
