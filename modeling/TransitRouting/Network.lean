/-
  TransitRouting.Network
  ──────────────────────
  A schedule made ready for searching in one direction of time.

  A forward search reads the schedule as it is, a reverse search reads the
  schedule run backwards.  Either way the same questions are asked: who calls
  at a stop, where do footpaths lead, when does the last trip leave, and which
  rules apply to one who has just left a trip.
-/
import TransitRouting.Buckets
import TransitRouting.Schedule.Reversal

namespace TransitRouting

/-- The direction of time in which a search runs. -/
inductive Direction where
  /-- From a departure onward. -/
  | forward
  /-- From an arrival back, on the negated timeline. -/
  | reverse
deriving DecidableEq, Repr, Inhabited

namespace Direction

/-- The time on the search's own timeline, and back again. -/
def searchTime (d : Direction) (t : Time) : Time :=
  match d with
  | forward => t
  | reverse => -t

/-- The word for the direction. -/
def word : Direction → String
  | forward => "forward"
  | reverse => "reverse"

end Direction

/-- A halt of some pattern. -/
structure Visit where
  /-- Number of the pattern. -/
  pattern : Nat
  /-- Position in the pattern. -/
  position : Nat
deriving DecidableEq, Repr, Inhabited

/-- A schedule with its tables, for one direction. -/
structure Network where
  /-- The direction in which the schedule runs. -/
  direction : Direction
  /-- The schedule, as seen in that direction. -/
  schedule : Schedule
  /-- For each stop the halts that serve it. -/
  visits : Buckets Visit
  /-- For each stop the footpaths that start there. -/
  footpaths : Buckets Footpath
deriving Inhabited

namespace Network

/-- Every halt of a schedule with the stop that it serves, by pattern and
position. -/
def allVisits (s : Schedule) : List (Nat × Visit) :=
  s.patterns.toList.zipIdx.flatMap fun (pattern, number) =>
    pattern.positions.map fun position => (pattern.stopAt position, ⟨number, position⟩)

/-- The network of a schedule that already runs in the given direction. -/
def ofSchedule (direction : Direction) (s : Schedule) : Network :=
  { direction
    schedule := s
    visits := Buckets.ofList s.stopCount (allVisits s)
    footpaths := Buckets.ofList s.stopCount (s.footpaths.map fun f => (f.origin, f)) }

/-- Number of stops. -/
def stopCount (n : Network) : Nat := n.schedule.stopCount

/-- The pattern with a given number. -/
def pattern (n : Network) (number : Nat) : Pattern := n.schedule.pattern number

/-- The trip with a given index within a pattern. -/
def trip (n : Network) (pattern index : Nat) : Trip := n.schedule.trip pattern index

/-- The halts that serve a stop, by pattern and position. -/
def visitsAt (n : Network) (stop : Nat) : List Visit := n.visits.row stop

/-- The footpaths that start at a stop. -/
def footpathsFrom (n : Network) (stop : Nat) : List Footpath := n.footpaths.row stop

/-- When the last trip leaves that can be boarded at the stop. -/
def lastDeparture? (n : Network) (stop : Nat) : Option Time :=
  let departures := (n.visitsAt stop).filterMap fun v =>
    -- The last trip in order is the last to leave at every position.
    if (n.pattern v.pattern).canBoard v.position then
      (n.pattern v.pattern).lastDeparture? v.position
    else none
  departures.max?

/-- The rules for one who left `trip` of `pattern` at `position`: first those
that name the trip, then those for all trips of the pattern. -/
def rulesFrom (n : Network) (pattern trip position : Nat) : List Rule :=
  n.schedule.rules.filter (fun r => r.feeder.trip = some trip && r.feeder.position = position) ++
    n.schedule.rules.filter (fun r => r.feeder.trip = none && r.feeder.isAt pattern position)

end Network

end TransitRouting
