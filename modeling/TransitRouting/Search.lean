/-
  TransitRouting.Search
  ─────────────────────
  Searching a timetable for the journeys that a request asks for.

  The times of departure in the request's window are tried one by one, each in
  an iteration of its own.  The journeys that the iterations find are merged
  and ranked.  A request for journeys that arrive by a given time is searched
  in the same way on the reversed schedule.

  A response can be turned into the request for the next or the previous
  window.
-/
import TransitRouting.ArrivalTable
import TransitRouting.Iteration
import TransitRouting.Journey.Assembly
import TransitRouting.Journey.Ranking
import TransitRouting.Request
import TransitRouting.Timetable

namespace TransitRouting

/-! ## §1. Responses. -/

/-- Why a search fails. -/
inductive SearchError where
  /-- The request is refused. -/
  | invalidRequest (error : RequestError)
  /-- No window can be picked, for the shortest is longer than the longest.  This is no
  refusal that a caller could handle: the program stops there, and gives no answer. -/
  | windowBoundsCrossed
deriving DecidableEq, Repr

/-- The message for the user. -/
def SearchError.message : SearchError → String
  | invalidRequest e => "invalid search request: " ++ e.message
  | windowBoundsCrossed => "shortest search window exceeds the longest one"

/-- What a search has found. -/
structure Response where
  /-- The journeys, in order of preference. -/
  journeys : List Journey
  /-- The best time by round and stop. -/
  arrivals : ArrivalTable
  /-- The request as searched, with the window that was used. -/
  request : Request
  /-- Number of iterations that ran. -/
  iterations : Nat
  /-- Number of iterations that were cut short or never started. -/
  cancelledIterations : Nat

namespace Response

/-- No journey was found. -/
def isEmpty (r : Response) : Bool := r.journeys.isEmpty

/-- The search was cut short. -/
def isUnfinished (r : Response) : Bool := 0 < r.cancelledIterations

/-- The window that was used. -/
def window (r : Response) : Duration := r.request.window.getD Duration.zero

/-- The same request one window later. -/
def laterPage (r : Response) : Request := { r.request with time := r.request.time + r.window }

/-- The same request one window earlier. -/
def earlierPage (r : Response) : Request := { r.request with time := r.request.time - r.window }

end Response

/-! ## §2. The times of departure to try. -/

/-- At most `budget` times from `time` on, `step` apart, before `finish` and not
after `latest`. -/
def departureTimes (step : Duration) (finish latest : Time) : Nat → Time → List Time
  | 0, _ => []
  | budget + 1, time =>
    if time < finish ∧ time ≤ latest then
      time :: departureTimes step finish latest budget (time + step)
    else []

namespace SearchContext

variable (ctx : SearchContext)

/-- The latest time of departure from which some trip can still be boarded at
the stop of an access connector. -/
def latestUseful? : Option Time :=
  (ctx.access.filterMap fun c =>
    (ctx.network.lastDeparture? c.stop).map (· - c.duration)).max?

/-- The times of departure to try in a window. -/
def sampleTimes (settings : SearchSettings) (start : Time) (window : Duration) : List Time :=
  match ctx.latestUseful? with
  | none => []
  | some latest =>
    departureTimes settings.stepDuration (start + window) latest settings.maxIterations start

/-- The window picked for a request that has none: it depends on how fast an
iteration from `start` gets to the destination. -/
def pickWindow (settings : SearchSettings) (interrupt : Interrupt) (start : Time) :
    Except SearchError Duration :=
  let found := (Iteration.run ctx interrupt start).destinations
  match (found.map fun l => l.arrival.secondsAfter start).min? with
  | none => .ok settings.maxWindowDuration
  | some seconds =>
    match settings.windowFor? (Duration.ofSeconds seconds) with
    | some window => .ok window
    | none => .error .windowBoundsCrossed

end SearchContext

/-! ## §3. The search. -/

/-- When each part of a search is to stop: part 0 picks a window, part `i + 1`
is iteration `i`.  Before its first round an iteration asks for round 0. -/
abbrev SearchInterrupt := Nat → Interrupt

/-- What one iteration adds to a response. -/
structure IterationYield where
  /-- The journeys that it found. -/
  journeys : List Journey
  /-- The best times that it found. -/
  arrivals : ArrivalTable
  /-- It was cut short. -/
  cancelled : Bool
deriving DecidableEq, Repr

/-- Departure of a journey on the timeline of a search. -/
def Journey.timelineDeparture (j : Journey) : Direction → Time
  | .forward => j.merit.departure
  | .reverse => -j.merit.arrival

namespace Request

variable (r : Request)

/-- What the iterations for a request work with. -/
def context (t : Timetable) (settings : SearchSettings) : SearchContext :=
  { network := t.network r.direction
    access := if r.arriveBy then r.egress else r.access
    egress := if r.arriveBy then r.access else r.egress
    pricing := Pricing.ofWeights r.costs
    merge := r.merge
    maxRounds := r.maxRounds
    transferSlack := settings.slackDuration
    tieBreak := settings.tieBreak }

/-- What the journeys for a request are assembled with. -/
def assembly (t : Timetable) (settings : SearchSettings) : Assembly :=
  { network := t.forward
    pricing := Pricing.ofWeights r.costs
    transferSlack := settings.slackDuration
    direction := r.direction
    merge := r.merge
    access := r.access
    egress := r.egress
    slide := settings.slideTransfers }

/-- Where the search for a request starts, on its own timeline. -/
def start : Time := r.direction.searchTime r.time

/-- What the iteration for a time of departure adds to a response; none if it
never starts.  Journeys that depart outside the window are left to others. -/
def iterate (t : Timetable) (settings : SearchSettings) (window : Duration)
    (interrupt : Interrupt) (departure : Time) : Option IterationYield :=
  if interrupt 0 then none
  else
    let it := Iteration.run (r.context t settings) interrupt departure
    let found := it.destinations.filterMap ((r.assembly t settings).build? it.store)
    some
      -- The start of the window belongs to it, its end does not.
      { journeys := found.filter fun j =>
          let d := j.timelineDeparture r.direction
          r.start ≤ d && d < r.start + window
        arrivals := ArrivalTable.ofStore it.store r.direction
        cancelled := it.cancelled }

end Request

/-- The response put together from what the iterations add. -/
def Response.ofYields (r : Request) (settings : SearchSettings) (window : Duration)
    (yields : List (Option IterationYield)) : Response :=
  let ran := yields.filterMap id
  { journeys := Ranking.select Journey.merit settings.tieBreak (ran.flatMap (·.journeys))
    arrivals := (ran.map (·.arrivals)).foldl ArrivalTable.merge (ArrivalTable.empty r.direction)
    request := { r with window := some window }
    iterations := ran.length
    cancelledIterations := (yields.filter fun y => y.all (·.cancelled)).length }

/-- Searches a timetable.  An interrupted search gives what it has found. -/
def Timetable.searchWith (t : Timetable) (settings : SearchSettings)
    (interrupt : SearchInterrupt) (r : Request) : Except SearchError Response := do
  -- Nothing is searched for a request that is refused.
  if let .error e := r.validate t.stopCount settings then
    throw (.invalidRequest e)
  let ctx := r.context t settings
  let window ←
    match r.window with
    | some window => pure window
    | none => ctx.pickWindow settings (interrupt 0) r.start
  let times := ctx.sampleTimes settings r.start window
  let yields := times.zipIdx.map fun (departure, i) =>
    r.iterate t settings window (interrupt (i + 1)) departure
  return Response.ofYields r settings window yields

/-- Searches a timetable to the end. -/
def Timetable.search (t : Timetable) (settings : SearchSettings) (r : Request) :
    Except SearchError Response :=
  t.searchWith settings (fun _ => Interrupt.never) r

end TransitRouting
