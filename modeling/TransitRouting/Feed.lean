/-
  TransitRouting.Feed
  ───────────────────
  Schedule data as it is delivered, and what may be wrong with it.

  A feed names its trips and patterns by text and may be inconsistent in many
  ways.  The checks that need one trip at a time are here; those that need the
  whole feed are made where a timetable is compiled from it.
-/
import TransitRouting.Number.Decimal
import TransitRouting.GroupSet
import TransitRouting.Schedule
import TransitRouting.Time.Clock

namespace TransitRouting

/-! ## §1. The data. -/

/-- A trip as delivered. -/
structure TripFeed where
  /-- The trip's name. -/
  id : String
  /-- Arrival times, one for each stop of the pattern. -/
  arrivals : List Time
  /-- Departure times, one for each stop of the pattern. -/
  departures : List Time
  /-- Priority group. -/
  group : Nat
  /-- Factor on the cost of the time spent on board. -/
  reluctance : Float
deriving DecidableEq, Repr

/-- A pattern as delivered. -/
structure PatternFeed where
  /-- The pattern's name. -/
  id : String
  /-- The stops, in order of travel. -/
  stops : List Nat
  /-- Positions where nobody may board. -/
  noBoarding : List Nat
  /-- Positions where nobody may alight. -/
  noAlighting : List Nat
  /-- Minimum time for changing to this pattern, if it has its own. -/
  minTransferTime : Option Duration
  /-- The trips, in any order. -/
  trips : List TripFeed
deriving DecidableEq, Repr

/-- A rule for connections as delivered.  It starts from one trip and leads to
one trip or to all trips of a pattern. -/
structure RuleFeed where
  /-- Name of the trip that is left. -/
  feederTrip : String
  /-- Position where it is left. -/
  feederPosition : Nat
  /-- Name of the trip that is boarded. -/
  onwardTrip : Option String
  /-- Name of the pattern that is boarded, used if no trip is named. -/
  onwardPattern : Option String
  /-- Position where it is boarded. -/
  onwardPosition : Nat
  /-- What the rule says. -/
  kind : RuleKind
  /-- The rule's minimum time. -/
  minTransferTime : Duration
deriving DecidableEq, Repr

/-- Schedule data as delivered. -/
structure Feed where
  /-- Names of the stops, by number. -/
  stops : List String
  /-- The patterns. -/
  patterns : List PatternFeed
  /-- The footpaths. -/
  footpaths : List Footpath
  /-- The rules for connections. -/
  rules : List RuleFeed
deriving DecidableEq, Repr

/-! ## §2. What may be wrong. -/

/-- The part of a feed to which an error refers. -/
inductive FeedPart where
  /-- The pattern with a name. -/
  | pattern (id : String)
  /-- The trip with a name. -/
  | trip (id : String)
  /-- The footpath with a number. -/
  | footpath (number : Nat)
deriving DecidableEq, Repr

/-- The part in words. -/
def FeedPart.describe : FeedPart → String
  | pattern id => "pattern " ++ id
  | trip id => "trip " ++ id
  | footpath number => "transfer " ++ toString number

/-- The two times of a call. -/
inductive CallTime where
  | arrival
  | departure
deriving DecidableEq, Repr

/-- The word for the time. -/
def CallTime.word : CallTime → String
  | arrival => "arrival"
  | departure => "departure"

/-- Why a feed cannot be used. -/
inductive FeedError where
  /-- A pattern has fewer than two stops. -/
  | patternTooShort (pattern : String)
  /-- A part refers to a stop that is not in the list of stops. -/
  | unknownStop (part : FeedPart) (stop : Nat)
  /-- A trip does not have one time for each stop. -/
  | timesMissing (trip : String) (what : CallTime) (expected found : Nat)
  /-- A trip arrives before it has left the stop before. -/
  | timesGoBack (trip : String) (position : Nat)
  /-- A trip leaves a stop before it gets there. -/
  | departsBeforeArrival (trip : String) (position : Nat) (arrival departure : Time)
  /-- One trip of a pattern overtakes another. -/
  | overtaking (pattern first second : String) (position : Nat)
  /-- Two trips have the same name. -/
  | duplicateTrip (trip : String)
  /-- Two patterns have the same name. -/
  | duplicatePattern (pattern : String)
  /-- A rule refers to a trip that is not there. -/
  | unknownTrip (trip : String)
  /-- A rule refers to a pattern that is not there. -/
  | unknownPattern (pattern : String)
  /-- A position lies outside the part. -/
  | positionOutside (part : FeedPart) (position : Nat)
  /-- A trip's priority group does not fit into a set of groups. -/
  | groupTooHigh (trip : String) (group : Nat)
  /-- A trip's reluctance is not a positive finite number. -/
  | badReluctance (trip : String) (factor : Float)
deriving DecidableEq, Repr

/-- The message for the user. -/
def FeedError.message : FeedError → String
  | patternTooShort pattern => "pattern " ++ pattern ++ " must serve at least two stops"
  | unknownStop part stop => part.describe ++ " refers to unknown stop " ++ toString stop
  | timesMissing trip what expected found =>
      "trip " ++ trip ++ " has " ++ toString found ++ " " ++ what.word ++
        " times, pattern has " ++ toString expected ++ " stops"
  | timesGoBack trip position =>
      "trip " ++ trip ++ " has non-monotonic stop times at position " ++ toString position
  | departsBeforeArrival trip position arrival departure =>
      "trip " ++ trip ++ " departs before arriving at position " ++ toString position ++
        " (" ++ arrival.clockText ++ " > " ++ departure.clockText ++ ")"
  | overtaking pattern first second position =>
      "trips " ++ first ++ " and " ++ second ++ " of pattern " ++ pattern ++
        " overtake at position " ++ toString position
  | duplicateTrip trip => "duplicate trip id " ++ trip
  | duplicatePattern pattern => "duplicate pattern id " ++ pattern
  | unknownTrip trip => "constrained transfer refers to unknown trip " ++ trip
  | unknownPattern pattern => "constrained transfer refers to unknown pattern " ++ pattern
  | positionOutside part position =>
      "constrained transfer position " ++ toString position ++ " is outside " ++ part.describe
  | groupTooHigh trip group =>
      "trip " ++ trip ++ " has priority group " ++ toString group ++ ", maximum is " ++
        toString GroupSet.highest
  | badReluctance trip factor =>
      "trip " ++ trip ++ " has invalid reluctance factor " ++ decimalText factor

/-! ## §3. Checking one trip. -/

/-- Refuses the first member of a list that is bad. -/
def refuseFirst {α : Type} (xs : List α) (bad : α → Bool) (error : α → FeedError) :
    Except FeedError Unit :=
  match xs.find? bad with
  | some x => .error (error x)
  | none => .ok ()

theorem refuseFirst_eq_ok_iff {α : Type} {xs : List α} {bad : α → Bool} {error : α → FeedError} :
    refuseFirst xs bad error = .ok () ↔ ∀ x ∈ xs, bad x = false := by
  unfold refuseFirst
  split
  · rename_i x h
    have hx := List.mem_of_find?_eq_some h
    have hb := List.find?_some h
    constructor
    · intro h'
      cases h'
    · intro h'
      exact absurd hb (by simp [h' x hx])
  · rename_i h
    simpa using h

/-- The factor is a positive finite number. -/
def isReluctance (factor : Float) : Bool := factor.isFinite && 0 < factor

namespace TripFeed

/-- The trip's calls. -/
def calls (t : TripFeed) : List Call := t.arrivals.zipWith Call.mk t.departures

/-- The calls from `position` on come in order: no departure before its own
arrival, no arrival before the departure that precedes it. -/
def checkCalls (trip : String) : Nat → List Call → Except FeedError Unit
  | _, [] => .ok ()
  | position, c :: rest => do
    if c.departure < c.arrival then
      throw (.departsBeforeArrival trip position c.arrival c.departure)
    if let next :: _ := rest then
      -- The position named is that of the later call.
      if next.arrival < c.departure then
        throw (.timesGoBack trip (position + 1))
    checkCalls trip (position + 1) rest

/-- The trip fits a pattern of `length` stops. -/
def check (t : TripFeed) (length : Nat) : Except FeedError Unit := do
  if t.arrivals.length ≠ length then
    throw (.timesMissing t.id .arrival length t.arrivals.length)
  if t.departures.length ≠ length then
    throw (.timesMissing t.id .departure length t.departures.length)
  if GroupSet.highest < t.group then
    throw (.groupTooHigh t.id t.group)
  if !isReluctance t.reluctance then
    throw (.badReluctance t.id t.reluctance)
  checkCalls t.id 0 t.calls

end TripFeed

end TransitRouting
