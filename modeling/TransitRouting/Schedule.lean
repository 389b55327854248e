/-
  TransitRouting.Schedule
  ───────────────────────
  What runs where and when: trips grouped into patterns, footpaths between
  stops, and rules for particular connections.

  Stops, patterns and trips go by number.  A pattern is a sequence of halts;
  each of its trips calls once at every halt, and the trips stand in the order
  in which they run.  A halt is named by its position in the pattern, for a
  pattern may serve a stop more than once.

  Looking up what is not there gives a neutral answer: an empty pattern, a
  trip without calls, a call at midnight.
-/
import TransitRouting.Time

namespace TransitRouting

/-! ## §1. Trips. -/

/-- A trip's visit to one halt. -/
structure Call where
  /-- When the trip gets there. -/
  arrival : Time
  /-- When the trip leaves again. -/
  departure : Time
deriving DecidableEq, Repr, Inhabited

/-- One run of a vehicle along its pattern. -/
structure Trip where
  /-- Number of the trip in the whole schedule. -/
  id : Nat
  /-- The calls, one for each halt of the pattern. -/
  calls : List Call
  /-- Priority group. -/
  group : Nat
  /-- Factor on the cost of the time spent on board. -/
  reluctance : Float
deriving DecidableEq, Repr, Inhabited

namespace Trip

/-- When the trip gets to a position. -/
def arrivalAt (t : Trip) (position : Nat) : Time := (t.calls.getD position default).arrival

/-- When the trip leaves a position. -/
def departureAt (t : Trip) (position : Nat) : Time := (t.calls.getD position default).departure

end Trip

/-! ## §2. Patterns. -/

/-- One place in a pattern's sequence of stops. -/
structure Halt where
  /-- The stop served. -/
  stop : Nat
  /-- Passengers may get on. -/
  boarding : Bool
  /-- Passengers may get off. -/
  alighting : Bool
deriving DecidableEq, Repr, Inhabited

/-- A sequence of halts and the trips that serve exactly these. -/
structure Pattern where
  /-- The pattern's name. -/
  name : String
  /-- The halts, in order of travel. -/
  halts : List Halt
  /-- Minimum time for changing to this pattern, if it has its own. -/
  minTransferTime : Option Duration
  /-- The trips, in the order in which they run. -/
  trips : List Trip
deriving DecidableEq, Repr, Inhabited

/-- Among the `size` numbers from `base` on, of which the first ones have a
property and the others do not, the first that does not: `base + size` if all
have it.  Every question halves the range. -/
def partitionPoint (holds : Nat → Bool) (base size : Nat) : Nat :=
  if 1 < size then
    let half := size / 2
    if holds (base + half) then partitionPoint holds (base + half) (size - half)
    else partitionPoint holds base (size - half)
  else if size = 1 && holds base then base + 1
  else base
termination_by size

namespace Pattern

/-- Number of halts. -/
def length (p : Pattern) : Nat := p.halts.length

/-- The stop served at a position. -/
def stopAt (p : Pattern) (position : Nat) : Nat := (p.halts.getD position default).stop

/-- Passengers may get on at the position.  Nobody boards at the last halt. -/
def canBoard (p : Pattern) (position : Nat) : Bool :=
  (p.halts.getD position default).boarding && position + 1 < p.length

/-- Passengers may get off at the position.  Nobody alights at the first halt. -/
def canAlight (p : Pattern) (position : Nat) : Bool :=
  (p.halts.getD position default).alighting && 0 < position

/-- The positions of the pattern. -/
def positions (p : Pattern) : List Nat := List.range p.length

/-- The positions after `position`, in order of travel. -/
def laterPositions (p : Pattern) (position : Nat) : List Nat :=
  List.range' (position + 1) (p.length - (position + 1))

/-- The trip with a given index among the pattern's trips. -/
def trip (p : Pattern) (index : Nat) : Trip := p.trips.getD index default

/-- Index of the first trip that leaves the position at `earliest` or later.
As trips never overtake each other, it is found by halving, and no later one
gets anywhere sooner. -/
def firstDeparture? (p : Pattern) (position : Nat) (earliest : Time) : Option Nat :=
  let index := partitionPoint
    (fun index => (p.trip index).departureAt position < earliest) 0 p.trips.length
  if index < p.trips.length then some index else none

/-- When the last trip leaves the position. -/
def lastDeparture? (p : Pattern) (position : Nat) : Option Time :=
  p.trips.getLast?.map (·.departureAt position)

end Pattern

/-! ## §3. Footpaths. -/

/-- A walk from one stop to another. -/
structure Footpath where
  /-- The stop where it starts. -/
  origin : Nat
  /-- The stop to which it leads. -/
  destination : Nat
  /-- How long it takes. -/
  duration : Duration
deriving DecidableEq, Repr, Inhabited

/-! ## §4. Rules for connections. -/

/-- What a rule says about a connection. -/
inductive RuleKind where
  /-- Nothing out of the ordinary. -/
  | regular
  /-- The connection may not be made. -/
  | notAllowed
  /-- The departing trip waits for the arriving one. -/
  | guaranteed
  /-- Staff help passengers to change. -/
  | staffed
  /-- The connection is timed and has its own minimum time. -/
  | timed
deriving DecidableEq, Repr, Inhabited

namespace RuleKind

/-- The rule's own minimum time takes the place of the usual one. -/
def overrides : RuleKind → Bool
  | regular | notAllowed => false
  | guaranteed | staffed | timed => true

/-- The word for the kind. -/
def word : RuleKind → String
  | regular => "regular"
  | notAllowed => "not_allowed"
  | guaranteed => "guaranteed"
  | staffed => "staffed"
  | timed => "timed"

/-- All kinds. -/
def all : List RuleKind := [regular, notAllowed, guaranteed, staffed, timed]

/-- The kind with a given word. -/
def ofWord? (w : String) : Option RuleKind := all.find? (·.word = w)

end RuleKind

/-- One end of a connection: a halt, for one trip or for all that call there. -/
structure RuleEnd where
  /-- The pattern. -/
  pattern : Nat
  /-- The position in the pattern. -/
  position : Nat
  /-- The trip, or none for all of them. -/
  trip : Option Nat
deriving DecidableEq, Repr, Inhabited

namespace RuleEnd

/-- The end covers the trip. -/
def covers (e : RuleEnd) (trip : Nat) : Bool := e.trip.all (· = trip)

/-- The end lies at the halt, whatever the trip. -/
def isAt (e : RuleEnd) (pattern position : Nat) : Bool :=
  e.pattern = pattern && e.position = position

end RuleEnd

/-- A rule for changing from one trip to another. -/
structure Rule where
  /-- Where the arriving trip is left. -/
  feeder : RuleEnd
  /-- Where the departing trip is boarded. -/
  onward : RuleEnd
  /-- What the rule says. -/
  kind : RuleKind
  /-- The minimum time, for kinds that have one. -/
  minTransferTime : Duration
deriving DecidableEq, Repr, Inhabited

namespace Rule

/-- How many of the two ends name a trip. -/
def specificity (r : Rule) : Nat :=
  (if r.feeder.trip.isSome then 1 else 0) + (if r.onward.trip.isSome then 1 else 0)

end Rule

/-! ## §5. Schedules. -/

/-- All that runs on a service day. -/
structure Schedule where
  /-- Number of stops. -/
  stopCount : Nat
  /-- The patterns, by number. -/
  patterns : Array Pattern
  /-- The footpaths. -/
  footpaths : List Footpath
  /-- The rules for connections. -/
  rules : List Rule
deriving Inhabited

namespace Schedule

/-- The pattern with a given number. -/
def pattern (s : Schedule) (number : Nat) : Pattern := s.patterns.getD number default

/-- The trip with a given index within a pattern. -/
def trip (s : Schedule) (pattern index : Nat) : Trip := (s.pattern pattern).trip index

end Schedule

end TransitRouting
