/-
  TransitRouting.Journey.Ranking
  ──────────────────────────────
  Which journeys are worth showing, and in which order.

  The iterations of a search are independent of each other, so the same
  journey is found by several of them, and one that is found late may make an
  earlier one superfluous.  Superfluous journeys are dropped first, then all
  but the first of equal ones; the rest is put in order of preference.

  Everything here looks at journeys through their `Merit` alone, so it is
  stated for any list of things that have one.
-/
import TransitRouting.Frontier
import TransitRouting.Journey

namespace TransitRouting

namespace Merit

/-- The first departs no earlier, arrives no later, is no worse otherwise, is
better on one value, and has used no group that the second has not. -/
def Dominates (a b : Merit) : Prop :=
  a.groups ⊆ b.groups ∧
    (b.departure ≤ a.departure ∧ a.arrival ≤ b.arrival ∧ a.transfers ≤ b.transfers ∧
      a.cost ≤ b.cost) ∧
    (b.departure < a.departure ∨ a.arrival < b.arrival ∨ a.transfers < b.transfers ∨
      a.cost < b.cost)

instance (a b : Merit) : Decidable (a.Dominates b) :=
  inferInstanceAs (Decidable (_ ∧ (_ ∧ _ ∧ _ ∧ _) ∧ (_ ∨ _ ∨ _ ∨ _)))

/-- The same values, whatever the groups. -/
def SameValues (a b : Merit) : Prop :=
  a.departure = b.departure ∧ a.arrival = b.arrival ∧ a.transfers = b.transfers ∧
    a.cost = b.cost

instance (a b : Merit) : Decidable (a.SameValues b) :=
  inferInstanceAs (Decidable (_ ∧ _ ∧ _ ∧ _))

/-- A journey at hand keeps out one that is offered.  Under `keepAll` a tie
keeps nothing out: equal journeys are dropped later. -/
def Rejects (policy : TieBreak) (held offered : Merit) : Prop :=
  held.Dominates offered ∨
    held.SameValues offered ∧
      match policy with
      | .firstFound => held.groups ⊆ offered.groups ∨ offered.groups ⊆ held.groups
      | .keepAll => False

instance (policy : TieBreak) (held offered : Merit) : Decidable (held.Rejects policy offered) := by
  unfold Rejects
  cases policy <;> infer_instance

/-- Journeys compete on their merits. -/
def rivalry (policy : TieBreak) : Rivalry Merit :=
  { dominates := fun a b => a.Dominates b
    rejects := fun held offered => held.Rejects policy offered }

/-- One number after another, the first difference decides. -/
def lexLE : List (Int × Int) → Bool
  | [] => true
  | (a, b) :: rest => a < b || (a = b && lexLE rest)

/-- The order that brings equal journeys together: by arrival, departure,
transfers, cost and groups. -/
def groupingLE (a b : Merit) : Bool :=
  lexLE [(a.arrival.seconds, b.arrival.seconds), (a.departure.seconds, b.departure.seconds),
    (a.transfers, b.transfers), (a.cost.hundredths.toInt, b.cost.hundredths.toInt),
    (a.groups.bits.toNat, b.groups.bits.toNat)]

/-- The order of preference: earlier arrival, fewer transfers, lower cost,
later departure. -/
def preferenceLE (a b : Merit) : Bool :=
  lexLE [(a.arrival.seconds, b.arrival.seconds), (a.transfers, b.transfers),
    (a.cost.hundredths.toInt, b.cost.hundredths.toInt), (b.departure.seconds, a.departure.seconds)]

end Merit

namespace Ranking

variable {α : Type} (merit : α → Merit)

/-- The competition of things that have a merit. -/
def rivalry (policy : TieBreak) : Rivalry α :=
  { dominates := fun a b => (Merit.rivalry policy).dominates (merit a) (merit b)
    rejects := fun a b => (Merit.rivalry policy).rejects (merit a) (merit b) }

/-- The journeys that no other makes superfluous.  A single journey competes
with none. -/
def undominated (policy : TieBreak) (journeys : List α) : List α :=
  if journeys.length ≤ 1 then journeys else Frontier.ofList (rivalry merit policy) journeys

/-- The members that differ in merit from the one before. -/
def dropRepeats : Option Merit → List α → List α
  | _, [] => []
  | last, x :: rest =>
    if last = some (merit x) then dropRepeats last rest
    else x :: dropRepeats (some (merit x)) rest

/-- The first of each lot of journeys with the same merit. -/
def distinct (journeys : List α) : List α :=
  if journeys.length ≤ 1 then journeys
  else
    dropRepeats merit none (journeys.mergeSort fun a b => (merit a).groupingLE (merit b))

/-- The journeys in order of preference; equally good ones stay in order. -/
def rank (journeys : List α) : List α :=
  journeys.mergeSort fun a b => (merit a).preferenceLE (merit b)

/-- What is shown of the journeys that were found. -/
def select (policy : TieBreak) (journeys : List α) : List α :=
  rank merit (distinct merit (undominated merit policy journeys))

end Ranking

end TransitRouting
