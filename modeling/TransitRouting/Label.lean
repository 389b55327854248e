/-
  TransitRouting.Label
  ────────────────────
  Labels: ways of being at a stop at some time.

  A label says where it is, on which values it competes, how its stop was
  reached, and from which earlier label.  Following these references back
  spells out a journey.
-/
import TransitRouting.Criteria
import TransitRouting.Frontier
import TransitRouting.Schedule

namespace TransitRouting

/-- Where a label is kept: its round, and its place among the round's labels.  Both are
taken to fit where they are kept, in 16 bits and in 32. -/
structure LabelPlace where
  /-- The round in which the label was made. -/
  round : Nat
  /-- Its place among the labels of that round. -/
  index : Nat
deriving DecidableEq, Repr, Inhabited

/-- Being on board a trip from one halt to another. -/
structure Ride where
  /-- Number of the pattern. -/
  pattern : Nat
  /-- Index of the trip among the pattern's trips. -/
  trip : Nat
  /-- Number of the trip in the whole schedule. -/
  tripId : Nat
  /-- Position where the trip is boarded. -/
  boardPosition : Nat
  /-- When it is boarded. -/
  boardTime : Time
  /-- Position where the trip is left. -/
  alightPosition : Nat
  /-- Kind of the rule by which it could be boarded, if there was one. -/
  rule : Option RuleKind
deriving DecidableEq, Repr, Inhabited

/-- How a label's stop was reached. -/
inductive Approach where
  /-- From the origin, by the access connector with a given index. -/
  | access (connector : Nat) (duration : Duration)
  /-- On board a trip. -/
  | ride (ride : Ride)
  /-- On foot from another stop. -/
  | walk (origin : Nat) (duration : Duration)
  /-- Past the stop to the destination, by the egress connector with a given
  index. -/
  | egress (connector : Nat) (duration : Duration)
deriving DecidableEq, Repr

instance : Inhabited Approach := ⟨.access 0 Duration.zero⟩

/-- A way of being at a stop.  A label that has gone on to the destination
carries the stop where it left the network. -/
structure Label where
  /-- The stop. -/
  stop : Nat
  /-- The values on which the label competes. -/
  criteria : Criteria
  /-- How the stop was reached. -/
  approach : Approach
  /-- The label before this one; none for those that come from the origin. -/
  parent : Option LabelPlace
deriving DecidableEq, Repr, Inhabited

namespace Label

/-- Time of arrival. -/
def arrival (l : Label) : Time := l.criteria.arrival

/-- The ride by which the stop was reached, if it was one. -/
def ride? (l : Label) : Option Ride :=
  match l.approach with
  | .ride r => some r
  | _ => none

/-- The stop was reached on board a trip. -/
def isRide (l : Label) : Bool := l.ride?.isSome

/-- Labels compete on their criteria. -/
def rivalry (policy : TieBreak) : Rivalry Label :=
  { dominates := fun a b => a.criteria.Dominates b.criteria
    rejects := fun held offered => held.criteria.Rejects policy offered.criteria }

end Label

end TransitRouting
