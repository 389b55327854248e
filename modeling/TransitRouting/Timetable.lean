/-
  TransitRouting.Timetable
  ────────────────────────
  A timetable: a schedule that has passed every check, with the names of its
  stops and trips, ready for searching in both directions of time.

  A feed is compiled pattern by pattern.  Trips are numbered as they come;
  within a pattern they are then put into the order in which they run, and a
  pattern in which one trip overtakes another is refused.  Footpaths and rules
  come last, as rules name trips and patterns.
-/
import TransitRouting.Feed
import TransitRouting.Network

namespace TransitRouting

/-- A checked schedule with names, and its networks for both directions. -/
structure Timetable where
  /-- Names of the stops, by number. -/
  stopNames : Array String
  /-- Names of the trips, by number. -/
  tripNames : Array String
  /-- The schedule as it runs. -/
  forward : Network
  /-- The schedule run backwards in time. -/
  reverse : Network
deriving Inhabited

namespace Timetable

/-- The timetable of a schedule. -/
def ofSchedule (stopNames tripNames : Array String) (s : Schedule) : Timetable :=
  { stopNames, tripNames
    forward := Network.ofSchedule .forward s
    reverse := Network.ofSchedule .reverse s.reversed }

/-- The network for a direction. -/
def network (t : Timetable) : Direction → Network
  | .forward => t.forward
  | .reverse => t.reverse

/-- Number of stops. -/
def stopCount (t : Timetable) : Nat := t.stopNames.size

/-- Number of trips. -/
def tripCount (t : Timetable) : Nat := t.tripNames.size

/-- Name of a stop; a question mark for a number that is not in use. -/
def stopName (t : Timetable) (stop : Nat) : String := t.stopNames.getD stop "?"

/-- Name of a trip; a question mark for a number that is not in use. -/
def tripName (t : Timetable) (trip : Nat) : String := t.tripNames.getD trip "?"

/-- The first stop with a given name. -/
def findStop? (t : Timetable) (name : String) : Option Nat := t.stopNames.findIdx? (· = name)

end Timetable

/-! ## §1. The order of trips. -/

/-- The first trip starts before the second, or with it and ends no later. -/
def Trip.startsBefore (last : Nat) (a b : Trip) : Bool :=
  a.departureAt 0 < b.departureAt 0 ||
    (a.departureAt 0 = b.departureAt 0 && a.arrivalAt last ≤ b.arrivalAt last)

/-- The first of `length` positions at which the second trip is ahead of the
first. -/
def Trip.overtakenAt? (length : Nat) (first second : Trip) : Option Nat :=
  (List.range length).find? fun position =>
    second.departureAt position < first.departureAt position ||
      second.arrivalAt position < first.arrivalAt position

/-- No trip of the list is overtaken by the next one. -/
def checkOrder (pattern : String) (name : Nat → String) (length : Nat) :
    List Trip → Except FeedError Unit
  | first :: second :: rest =>
    match first.overtakenAt? length second with
    | some position => .error (.overtaking pattern (name first.id) (name second.id) position)
    | none => checkOrder pattern name length (second :: rest)
  | _ => .ok ()

/-! ## §2. Compiling a feed. -/

/-- What has been compiled of a feed. -/
structure Draft where
  /-- The name and the pattern of each trip, by number. -/
  trips : Array (String × Nat)
  /-- The patterns, by number. -/
  patterns : Array Pattern
deriving Inhabited

namespace Draft

/-- Nothing yet. -/
def empty : Draft := ⟨#[], #[]⟩

/-- Number of the trip with a given name. -/
def findTrip? (d : Draft) (name : String) : Option Nat := d.trips.findIdx? (·.1 = name)

/-- Number of the pattern with a given name. -/
def findPattern? (d : Draft) (name : String) : Option Nat := d.patterns.findIdx? (·.name = name)

/-- Name of a trip. -/
def tripName (d : Draft) (trip : Nat) : String := (d.trips.getD trip default).1

/-- Number of halts of a pattern. -/
def patternLength (d : Draft) (pattern : Nat) : Nat := (d.patterns.getD pattern default).length

/-- Numbers the trips of the next pattern, which has `length` stops. -/
def addTrips (d : Draft) (length : Nat) :
    List TripFeed → List Trip → Except FeedError (Draft × List Trip)
  | [], done => .ok (d, done)
  | t :: rest, done => do
    t.check length
    if (d.findTrip? t.id).isSome then
      throw (.duplicateTrip t.id)
    addTrips { d with trips := d.trips.push (t.id, d.patterns.size) } length rest
      (done ++ [⟨d.trips.size, t.calls, t.group, t.reluctance⟩])

/-- The halts of a pattern. -/
def haltsOf (p : PatternFeed) : List Halt :=
  p.stops.zipIdx.map fun (stop, position) =>
    ⟨stop, !p.noBoarding.contains position, !p.noAlighting.contains position⟩

/-- Adds a pattern of a feed with `stopCount` stops. -/
def addPattern (stopCount : Nat) (d : Draft) (p : PatternFeed) : Except FeedError Draft := do
  let length := p.stops.length
  if (d.findPattern? p.id).isSome then
    throw (.duplicatePattern p.id)
  if length < 2 then
    throw (.patternTooShort p.id)
  refuseFirst p.stops (stopCount ≤ ·) (.unknownStop (.pattern p.id))
  refuseFirst p.noBoarding (length ≤ ·) (.positionOutside (.pattern p.id))
  refuseFirst p.noAlighting (length ≤ ·) (.positionOutside (.pattern p.id))
  -- The pattern gets its number with its first trip, before it is complete.
  let (d, trips) ← d.addTrips length p.trips []
  -- Trips that start and end together stay in the order of the feed.
  let trips := trips.mergeSort (Trip.startsBefore (length - 1))
  checkOrder p.id d.tripName length trips
  return { d with patterns := d.patterns.push ⟨p.id, haltsOf p, p.minTransferTime, trips⟩ }

/-- The end of a rule at which it is boarded. -/
def resolveOnward (d : Draft) (r : RuleFeed) : Except FeedError RuleEnd :=
  match r.onwardTrip, r.onwardPattern with
  | some name, _ =>
    match d.findTrip? name with
    | some trip => .ok ⟨(d.trips.getD trip default).2, r.onwardPosition, some trip⟩
    | none => .error (.unknownTrip name)
  | none, some name =>
    match d.findPattern? name with
    | some pattern => .ok ⟨pattern, r.onwardPosition, none⟩
    | none => .error (.unknownPattern name)
  | none, none => .error (.unknownPattern "")

/-- The rule with numbers in place of names. -/
def resolveRule (d : Draft) (r : RuleFeed) : Except FeedError Rule := do
  let some trip := d.findTrip? r.feederTrip | throw (.unknownTrip r.feederTrip)
  let feeder : RuleEnd := ⟨(d.trips.getD trip default).2, r.feederPosition, some trip⟩
  if d.patternLength feeder.pattern ≤ feeder.position then
    throw (.positionOutside (.trip r.feederTrip) feeder.position)
  let onward ← d.resolveOnward r
  if d.patternLength onward.pattern ≤ onward.position then
    throw (.positionOutside (.pattern (d.patterns.getD onward.pattern default).name)
      onward.position)
  return ⟨feeder, onward, r.kind, r.minTransferTime⟩

end Draft

/-- The footpaths of a feed all join stops that are there. -/
def Feed.checkFootpaths (f : Feed) : Except FeedError Unit :=
  let ends := f.footpaths.zipIdx.flatMap fun (path, number) =>
    [(number, path.origin), (number, path.destination)]
  refuseFirst ends (fun e => f.stops.length ≤ e.2) fun e => .unknownStop (.footpath e.1) e.2

/-- The timetable of a feed, or the first fault that is found in it. -/
def Feed.compile (f : Feed) : Except FeedError Timetable := do
  let draft ← f.patterns.foldlM (Draft.addPattern f.stops.length) Draft.empty
  f.checkFootpaths
  let rules ← f.rules.mapM draft.resolveRule
  return Timetable.ofSchedule f.stops.toArray (draft.trips.map (·.1))
    ⟨f.stops.length, draft.patterns, f.footpaths, rules⟩

end TransitRouting
