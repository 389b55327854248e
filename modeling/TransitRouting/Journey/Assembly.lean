/-
  TransitRouting.Journey.Assembly
  ───────────────────────────────
  Making a journey from a label at the destination.

  The label's chain of references leads back to the origin.  Each label of the
  chain becomes a step on the real timeline; after a search in reverse, trips,
  positions and the ends of walks are turned round.  The steps are then timed,
  changes between trips are moved to cheaper stops if that is asked for, and
  all legs are priced.
-/
import TransitRouting.Journey.Sliding
import TransitRouting.LabelStore

namespace TransitRouting

/-! ## §1. The chain of a label. -/

namespace LabelStore

/-- The labels from `l` back to one without a parent, following at most a given
number of references. -/
def trailWithin (s : LabelStore) : Nat → Label → Option (List Label)
  | steps, l =>
    match l.parent, steps with
    | none, _ => some [l]
    | some _, 0 => none
    | some place, steps + 1 =>
      match s.label? place with
      | some parent => (s.trailWithin steps parent).map (l :: ·)
      | none => none

/-- The labels from `l` back to the origin.  No label comes twice in a chain,
so it is no longer than the store is large. -/
def trail? (s : LabelStore) (l : Label) : Option (List Label) := s.trailWithin s.size l

end LabelStore

/-! ## §2. Steps. -/

/-- A ride on the real timeline that has not been timed. -/
structure RideStep where
  /-- Number of the pattern. -/
  pattern : Nat
  /-- Index of the trip among the pattern's trips. -/
  trip : Nat
  /-- Position where it is boarded. -/
  board : Nat
  /-- Position where it is left. -/
  alight : Nat
  /-- Kind of the rule by which it could be boarded, if there was one. -/
  rule : Option RuleKind
deriving DecidableEq, Repr, Inhabited

/-- A part of a journey that has not been timed. -/
inductive Step where
  /-- By the access connector with a given index. -/
  | access (connector : Nat)
  /-- On board a trip. -/
  | ride (ride : RideStep)
  /-- On foot between two stops. -/
  | walk (origin destination : Nat) (duration : Duration)
  /-- By the egress connector with a given index. -/
  | egress (connector : Nat)
deriving DecidableEq, Repr

namespace Step

/-- The index of the access connector, if the step is one. -/
def access? : Step → Option Nat
  | access i => some i
  | _ => none

/-- The index of the egress connector, if the step is one. -/
def egress? : Step → Option Nat
  | egress i => some i
  | _ => none

end Step

/-- The ride on the real timeline, where `p` is the pattern as it runs. -/
def Ride.toStep (r : Ride) (direction : Direction) (p : Pattern) : RideStep :=
  match direction with
  | .forward => ⟨r.pattern, r.trip, r.boardPosition, r.alightPosition, r.rule⟩
  | .reverse =>
    ⟨r.pattern, p.trips.length - 1 - r.trip, Numbering.opposite p.length r.alightPosition,
      Numbering.opposite p.length r.boardPosition, r.rule⟩

/-- The step that a label stands for. -/
def Label.toStep (l : Label) (direction : Direction) (forward : Network) : Step :=
  match l.approach, direction with
  | .access i _, .forward => .access i
  | .access i _, .reverse => .egress i
  | .egress i _, .forward => .egress i
  | .egress i _, .reverse => .access i
  | .walk origin d, .forward => .walk origin l.stop d
  | .walk origin d, .reverse => .walk l.stop origin d
  | .ride r, _ => .ride (r.toStep direction (forward.pattern r.pattern))

/-! ## §3. Timing and pricing. -/

/-- What a journey is assembled with, on the real timeline. -/
structure Assembly extends SlidingContext where
  /-- The direction in which the labels were found. -/
  direction : Direction
  /-- How priority groups are recorded. -/
  merge : GroupMerge
  /-- The ways from the origin. -/
  access : List Connector
  /-- The ways to the destination. -/
  egress : List Connector
  /-- Changes between trips are to be moved to cheaper stops. -/
  slide : Bool

/-- A timed ride, or a walk that follows its predecessor at once. -/
inductive Segment where
  /-- On board a trip. -/
  | ride (leg : RideLeg)
  /-- On foot between two stops. -/
  | walk (origin destination : Nat) (duration : Duration)
deriving DecidableEq, Repr

/-- The timed ride, if the segment is one. -/
def Segment.ride? : Segment → Option RideLeg
  | ride l => some l
  | walk .. => none

namespace Assembly

variable (a : Assembly)

/-- The steps from the origin to the destination label, in order of travel. -/
def steps? (store : LabelStore) (destination : Label) : Option (List Step) := do
  let chain ← store.trail? destination
  let origin ← chain.getLast?
  match origin.approach, destination.approach with
  | .access .., .egress .. =>
    let steps := chain.map (·.toStep a.direction a.network)
    -- A reverse search walks away from where the journey ends.
    some (if a.direction = .forward then steps.reverse else steps)
  | _, _ => none

/-- The timed leg of a ride.  `ready` is when the traveller gets to the halt;
one who has not ridden before comes just in time. -/
def time (r : RideStep) (ready : Option Time) : RideLeg :=
  let p := a.network.pattern r.pattern
  let trip := p.trip r.trip
  let boardTime := trip.departureAt r.board
  let alightTime := trip.arrivalAt r.alight
  let readyTime := ready.getD boardTime
  { pattern := r.pattern
    trip := r.trip
    tripId := trip.id
    boardPosition := r.board
    boardStop := p.stopAt r.board
    boardTime
    alightPosition := r.alight
    alightStop := p.stopAt r.alight
    alightTime
    ready := readyTime
    first := ready.isNone
    rule := r.rule
    boardCost := a.pricing.boarding (boardTime.waitSince readyTime) ready.isNone
    rideCost := a.pricing.ride trip.reluctance boardTime alightTime }

/-- The rides and walks among the steps, timed one after the other. -/
def segments : Option Time → List Step → List Segment
  | _, [] => []
  | ready, .ride r :: rest =>
    let leg := a.time r ready
    .ride leg :: segments (some leg.alightTime) rest
  | ready, .walk origin destination d :: rest =>
    .walk origin destination d :: segments (ready.map (· + d)) rest
  | ready, _ :: rest => segments ready rest

/-- The segments with every change between two rides moved to where it is
cheapest, the last one first. -/
def slideChanges : List Segment → List Segment
  | [] => []
  | s :: rest =>
    match s, slideChanges rest with
    | .ride before, .ride after :: others =>
      match a.cheapestChange? before after with
      | some (before, after) => .ride before :: .ride after :: others
      | none => s :: .ride after :: others
    | _, rest => s :: rest

/-- The legs of segments that start at a given time, and when they end. -/
def legsFrom (clock : Time) : List Segment → List Leg × Time
  | [] => ([], clock)
  | .ride l :: rest =>
    let (legs, finish) := legsFrom l.alightTime rest
    (.ride l :: legs, finish)
  | .walk origin destination d :: rest =>
    let leg : WalkLeg :=
      { origin, destination
        departure := clock
        arrival := clock + d
        duration := d
        cost := a.pricing.walk d }
    let (legs, finish) := legsFrom (clock + d) rest
    (.walk leg :: legs, finish)

/-- The journey of segments between two connectors.  One leaves the origin just
in time for the first ride. -/
def finish (access : Connector) (segments : List Segment) (egress : Connector) : Journey :=
  let rides := segments.filterMap Segment.ride?
  -- Without a ride there is no time to keep to.
  let start := (rides.head?.map (·.boardTime)).getD Time.midnight
  let (middle, clock) := a.legsFrom start segments
  let accessLeg : ConnectorLeg :=
    { stop := access.stop
      departure := start - access.duration
      arrival := start
      duration := access.duration
      cost := a.pricing.connector access }
  let egressLeg : ConnectorLeg :=
    { stop := egress.stop
      departure := clock
      arrival := clock + egress.duration
      duration := egress.duration
      cost := a.pricing.connector egress }
  let legs := .access accessLeg :: middle ++ [.egress egressLeg]
  { legs
    merit :=
      { departure := accessLeg.departure
        arrival := egressLeg.arrival
        transfers := (rides.length - 1) % 256
        cost := Cost.sum (legs.map Leg.cost)
        groups := rides.foldl
          (fun groups l => a.merge groups (a.network.trip l.pattern l.trip).group)
          GroupSet.empty } }

/-- The journey that ends in a destination label; none if the label's chain
does not lead from an access connector to an egress connector. -/
def build? (store : LabelStore) (destination : Label) : Option Journey := do
  let steps ← a.steps? store destination
  let access ← (← (steps.filterMap Step.access?).mapM (a.access[·]?)).getLast?
  let egress ← (← (steps.filterMap Step.egress?).mapM (a.egress[·]?)).getLast?
  let segments := a.segments none steps
  return a.finish access (if a.slide then a.slideChanges segments else segments) egress

end Assembly

end TransitRouting
