/-
  TransitRouting.CommandLine
  ──────────────────────────
  What the command line does: it loads settings and a timetable, looks up the
  stops and the time, searches, and reports what was found.  The first thing
  that goes wrong is the one that is told.
-/
import TransitRouting.CommandLine.Arguments
import TransitRouting.CommandLine.Report
import TransitRouting.Loading

namespace TransitRouting

/-- Why the command line gives up. -/
inductive CommandError where
  /-- A file cannot be loaded. -/
  | load (error : LoadError)
  /-- There is no stop with that name. -/
  | unknownStop (name : String)
  /-- The time is malformed. -/
  | badTime (error : TimeError)
  /-- The search fails. -/
  | search (error : SearchError)
deriving DecidableEq, Repr

namespace CommandError

/-- The message for the user. -/
def message : CommandError → String
  | load e => e.message
  | unknownStop name => "unknown stop: " ++ name
  | badTime e => e.message
  | search e => e.message

end CommandError

/-- What can be read of the files, by path. -/
abbrev Files := String → Option ByteArray

namespace Arguments

variable (a : Arguments)

/-- The clock reading that was given. -/
def clock : String :=
  match a.time with
  | .depart clock | .arriveBy clock => clock

/-- The journeys are to arrive by the time that was given. -/
def isArrival : Bool :=
  match a.time with
  | .depart _ => false
  | .arriveBy _ => true

/-- The settings to search with. -/
def loadSettings (files : Files) : Except CommandError Settings :=
  match a.settings with
  | some path => (Settings.load path (files path)).mapError .load
  | none => .ok Settings.standard

/-- The timetable to search. -/
def loadTimetable (files : Files) : Except CommandError Timetable :=
  (Timetable.load a.feed (files a.feed)).mapError .load

/-- A way to or from the stop with the given name that takes no time. -/
def connector (t : Timetable) (name : String) : Except CommandError Connector :=
  match t.findStop? name with
  | some stop => .ok ⟨stop, Duration.zero, none⟩
  | none => .error (.unknownStop name)

/-- The request to search for. -/
def request (t : Timetable) (costs : CostWeights) : Except CommandError Request := do
  let access ← connector t a.origin
  let egress ← connector t a.destination
  let time ← (Time.ofClockText a.clock).mapError .badTime
  return { access := [access], egress := [egress], time, arriveBy := a.isArrival
           window := a.window.map Duration.ofMinutes
           maxTransfers := a.maxTransfers
           costs
           merge := GroupMerge.union }

/-- What is written out. -/
def run (files : Files) : Except CommandError String := do
  -- Faulty settings are told before a faulty feed.
  let settings ← a.loadSettings files
  let t ← a.loadTimetable files
  let request ← a.request t settings.costs
  let response ← (t.search settings.search request).mapError .search
  return if a.json then response.json else response.report t a.date

end Arguments

end TransitRouting
