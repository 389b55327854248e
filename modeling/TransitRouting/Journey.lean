/-
  TransitRouting.Journey
  ──────────────────────
  Journeys: what a traveller does from door to door, on the real timeline.

  A journey is a list of legs, with the values by which it is compared to
  others.  A leg on board a trip knows when the traveller was ready for it and
  what boarding and riding cost, so it can be moved to another halt of the
  same trip and priced again.
-/
import TransitRouting.Criteria
import TransitRouting.Pricing
import TransitRouting.Schedule

namespace TransitRouting

/-! ## §1. Legs. -/

/-- The way from the origin to the first stop, or from the last one to the
destination. -/
structure ConnectorLeg where
  /-- The stop. -/
  stop : Nat
  /-- When the leg starts. -/
  departure : Time
  /-- When it ends. -/
  arrival : Time
  /-- How long it takes. -/
  duration : Duration
  /-- What it costs. -/
  cost : Cost
deriving DecidableEq, Repr, Inhabited

/-- A walk between two stops. -/
structure WalkLeg where
  /-- The stop where it starts. -/
  origin : Nat
  /-- The stop where it ends. -/
  destination : Nat
  /-- When it starts. -/
  departure : Time
  /-- When it ends. -/
  arrival : Time
  /-- How long it takes. -/
  duration : Duration
  /-- What it costs. -/
  cost : Cost
deriving DecidableEq, Repr, Inhabited

/-- Riding one trip between two of its halts. -/
structure RideLeg where
  /-- Number of the pattern. -/
  pattern : Nat
  /-- Index of the trip among the pattern's trips. -/
  trip : Nat
  /-- Number of the trip in the whole schedule. -/
  tripId : Nat
  /-- Position where it is boarded. -/
  boardPosition : Nat
  /-- The stop there. -/
  boardStop : Nat
  /-- When the trip leaves there. -/
  boardTime : Time
  /-- Position where it is left. -/
  alightPosition : Nat
  /-- The stop there. -/
  alightStop : Nat
  /-- When the trip gets there. -/
  alightTime : Time
  /-- When the traveller was ready to board. -/
  ready : Time
  /-- No trip was ridden before this one. -/
  first : Bool
  /-- Kind of the rule by which the trip could be boarded, if there was one. -/
  rule : Option RuleKind
  /-- Cost of waiting and boarding. -/
  boardCost : Cost
  /-- Cost of riding. -/
  rideCost : Cost
deriving DecidableEq, Repr, Inhabited

namespace RideLeg

/-- Time spent waiting to board. -/
def wait (l : RideLeg) : Duration := l.boardTime.waitSince l.ready

/-- Cost of the whole leg. -/
def cost (l : RideLeg) : Cost := l.boardCost + l.rideCost

/-- The leg boarded at another position of its trip, where the traveller is
ready at a given time. -/
def reboard (l : RideLeg) (pricing : Pricing) (trip : Trip) (position stop : Nat) (ready : Time) :
    RideLeg :=
  let boardTime := trip.departureAt position
  { l with
    boardPosition := position
    boardStop := stop
    boardTime
    ready
    boardCost := pricing.boarding (boardTime.waitSince ready) l.first
    rideCost := pricing.ride trip.reluctance boardTime l.alightTime }

/-- The leg left at another position of its trip. -/
def realight (l : RideLeg) (pricing : Pricing) (trip : Trip) (position stop : Nat) : RideLeg :=
  let alightTime := trip.arrivalAt position
  { l with
    alightPosition := position
    alightStop := stop
    alightTime
    rideCost := pricing.ride trip.reluctance l.boardTime alightTime }

end RideLeg

/-- A leg of a journey. -/
inductive Leg where
  /-- From the origin to the first stop. -/
  | access (leg : ConnectorLeg)
  /-- On board a trip. -/
  | ride (leg : RideLeg)
  /-- On foot between two stops. -/
  | walk (leg : WalkLeg)
  /-- From the last stop to the destination. -/
  | egress (leg : ConnectorLeg)
deriving DecidableEq, Repr, Inhabited

namespace Leg

/-- When the leg starts. -/
def departure : Leg → Time
  | access l | egress l => l.departure
  | ride l => l.boardTime
  | walk l => l.departure

/-- When the leg ends. -/
def arrival : Leg → Time
  | access l | egress l => l.arrival
  | ride l => l.alightTime
  | walk l => l.arrival

/-- What the leg costs. -/
def cost : Leg → Cost
  | access l | egress l => l.cost
  | ride l => l.cost
  | walk l => l.cost

/-- The ride, if the leg is one. -/
def ride? : Leg → Option RideLeg
  | ride l => some l
  | _ => none

end Leg

/-! ## §2. Journeys. -/

/-- The values by which journeys are compared. -/
structure Merit where
  /-- Departure from the origin. -/
  departure : Time
  /-- Arrival at the destination. -/
  arrival : Time
  /-- Number of transfers. -/
  transfers : Nat
  /-- Cost of the whole journey. -/
  cost : Cost
  /-- Priority groups used. -/
  groups : GroupSet
deriving DecidableEq, Repr, Inhabited

/-- A journey from door to door. -/
structure Journey where
  /-- The legs, in order of travel. -/
  legs : List Leg
  /-- The values by which it is compared to others. -/
  merit : Merit
deriving DecidableEq, Repr, Inhabited

namespace Journey

/-- Time from departure to arrival. -/
def duration (j : Journey) : Duration := j.merit.arrival.waitSince j.merit.departure

/-- The legs on board trips, in order of travel. -/
def rides (j : Journey) : List RideLeg := j.legs.filterMap Leg.ride?

/-- The numbers of the trips that are ridden, in order of travel. -/
def tripIds (j : Journey) : List Nat := j.rides.map (·.tripId)

end Journey

end TransitRouting
