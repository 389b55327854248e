/-
  TransitRouting.Proofs.Lookups.Search
  ────────────────────────────────────
  Searching a timetable with strict lookups.

  A strict search ends at the first lookup of what is not there: a stop, pattern,
  trip or position of the network that is searched or of the schedule as it
  runs, a label that a list or a reference leads to, a connector of the request.
  On a timetable that was compiled from a feed this never happens.

  Main statement: `Strict.searchWith_eq` — a strict search gives what the search
  gives, for every request, in either direction, under any settings, and
  wherever it is interrupted.
-/
import TransitRouting.Proofs.Journey.WellFormed
import TransitRouting.Proofs.Lookups.Assembly

namespace TransitRouting

namespace Strict

open Checks

/-! ## §1. The times of departure to try. -/

section

variable (ctx : SearchContext)

/-- The latest time of departure from which some trip can still be boarded at
the stop of an access connector. -/
def latestUseful? : Strict (Option Time) := do
  let latest ← ctx.access.mapM fun c =>
    return (← lastDepartureFrom? ctx.network c.stop).map (· - c.duration)
  return (latest.filterMap id).max?

/-- The times of departure to try in a window. -/
def sampleTimes (settings : SearchSettings) (start : Time) (window : Duration) :
    Strict (List Time) := do
  match ← latestUseful? ctx with
  | none => return []
  | some latest =>
    return departureTimes settings.stepDuration (start + window) latest settings.maxIterations start

/-- The window picked for a request that has none. -/
def pickWindow (settings : SearchSettings) (interrupt : Interrupt) (start : Time) :
    Strict (Except SearchError Duration) := do
  let found := (← run ctx interrupt start).destinations
  match (found.map fun l => l.arrival.secondsAfter start).min? with
  | none => return .ok settings.maxWindowDuration
  | some seconds =>
    match settings.windowFor? (Duration.ofSeconds seconds) with
    | some window => return .ok window
    | none => return .error .windowBoundsCrossed

end

section Times

variable {ctx : SearchContext} {settings : SearchSettings}

theorem latestUseful?_eq (hctx : ctx.Valid) : latestUseful? ctx = pure ctx.latestUseful? := by
  unfold latestUseful?
  rw [mapM_eq_pure fun c hc => by
    rw [lastDepartureFrom?_eq hctx.network (hctx.access c hc), pure_bind], pure_bind,
    List.filterMap_map]
  rfl

theorem sampleTimes_eq (hctx : ctx.Valid) (start : Time) (window : Duration) :
    sampleTimes ctx settings start window = pure (ctx.sampleTimes settings start window) := by
  unfold sampleTimes SearchContext.sampleTimes
  rw [latestUseful?_eq hctx, pure_bind]
  cases ctx.latestUseful? <;> rfl

theorem pickWindow_eq (hctx : ctx.Valid)
    (hegress : ∀ c ∈ ctx.egress, c.stop < ctx.network.stopCount) (interrupt : Interrupt)
    (start : Time) :
    pickWindow ctx settings interrupt start = pure (ctx.pickWindow settings interrupt start) := by
  unfold pickWindow SearchContext.pickWindow
  rw [run_eq hctx hegress, pure_bind, Iteration.flagged_destinations]
  cases hfastest : ((Iteration.run ctx interrupt start).destinations.map
      fun l => l.arrival.secondsAfter start).min? with
  | none => simp only [hfastest]
  | some seconds =>
      simp only [hfastest]
      cases settings.windowFor? (Duration.ofSeconds seconds) <;> rfl

end Times

/-! ## §2. The search. -/

/-- The times of a store's best labels. -/
def arrivals (store : LabelStore) (direction : Direction) : Strict ArrivalTable := do
  let rounds ← (List.range store.roundCount).mapM fun round =>
    (List.range store.stopCount).mapM fun stop =>
      return (← roundArrival? store round stop).map direction.searchTime
  return { arriveBy := direction = .reverse, rounds }

/-- What the iteration for a time of departure adds to a response. -/
def iterate (r : Request) (t : Timetable) (settings : SearchSettings) (window : Duration)
    (interrupt : Interrupt) (departure : Time) : Strict (Option IterationYield) := do
  if interrupt 0 then return none
  else
    let it ← run (r.context t settings) interrupt departure
    let found ← it.destinations.mapM (build? (r.assembly t settings) it.store.erase)
    return some
      { journeys := (found.filterMap id).filter fun j =>
          let d := j.timelineDeparture r.direction
          r.start ≤ d && d < r.start + window
        arrivals := ← arrivals it.store.erase r.direction
        cancelled := it.cancelled }

/-- The search of a window. -/
def searchWindow (t : Timetable) (settings : SearchSettings) (interrupt : SearchInterrupt)
    (r : Request) (window : Duration) : Strict Response := do
  let times ← sampleTimes (r.context t settings) settings r.start window
  let yields ← times.zipIdx.mapM fun (departure, i) =>
    iterate r t settings window (interrupt (i + 1)) departure
  return Response.ofYields r settings window yields

/-- Searches a timetable. -/
def searchWith (t : Timetable) (settings : SearchSettings) (interrupt : SearchInterrupt)
    (r : Request) : Strict (Except SearchError Response) := do
  match r.validate t.stopCount settings with
  | .error e => return .error (.invalidRequest e)
  | .ok () =>
    let picked ←
      match r.window with
      | some window => pure (.ok window)
      | none => pickWindow (r.context t settings) settings (interrupt 0) r.start
    match picked with
    | .error e => return .error e
    | .ok window => return .ok (← searchWindow t settings interrupt r window)

theorem arrivals_eq {store : LabelStore} (hs : store.Valid) (direction : Direction) :
    arrivals store direction = pure (ArrivalTable.ofStore store direction) := by
  have hrow : ∀ round ∈ List.range store.roundCount,
      (List.range store.stopCount).mapM
          (fun stop => return (← roundArrival? store round stop).map direction.searchTime) =
        (pure ((List.range store.stopCount).map fun stop =>
          (store.roundArrival? round stop).map direction.searchTime) : Strict _) := by
    intro round _
    refine mapM_eq_pure fun stop hstop => ?_
    rw [roundArrival?_eq hs (List.mem_range.mp hstop), pure_bind]
  unfold arrivals
  rw [mapM_eq_pure hrow, pure_bind]
  rfl

section Searching

variable {f : Feed} {t : Timetable} {settings : SearchSettings} {r : Request}

/-- A request that is accepted ends at stops of the network. -/
theorem egress_lt_of_validate (h : f.compile = .ok t)
    (hr : r.validate t.stopCount settings = .ok ()) :
    ∀ c ∈ (r.context t settings).egress, c.stop < (r.context t settings).network.stopCount := by
  obtain ⟨haccess, hegress⟩ := Request.stop_lt_of_validate hr
  have hcount : (r.context t settings).network.stopCount = t.stopCount :=
    Feed.compile_stopCount h _
  rw [hcount]
  show ∀ c ∈ (if r.arriveBy then r.access else r.egress), _
  split
  · exact haccess
  · exact hegress

theorem iterate_eq (h : f.compile = .ok t) (hr : r.validate t.stopCount settings = .ok ())
    (window : Duration) (interrupt : Interrupt) (departure : Time) :
    iterate r t settings window interrupt departure =
      pure (r.iterate t settings window interrupt departure) := by
  have hctx := Request.context_valid h hr
  have hsuits := Request.suits h r settings
  obtain ⟨hsound, -⟩ := Iteration.run_sound hctx interrupt departure
  unfold iterate Request.iterate
  split
  · rfl
  · simp only [run_eq hctx (egress_lt_of_validate h hr), pure_bind,
      Iteration.flagged_destinations, Iteration.erase_flagged_store, Iteration.flagged_cancelled,
      mapM_eq_pure fun d hd => build?_eq hsuits hsound.store (hsound.destinations d hd),
      arrivals_eq hsound.store.soundTo.valid, List.filterMap_map]
    rfl

theorem searchWindow_eq (h : f.compile = .ok t)
    (hr : r.validate t.stopCount settings = .ok ()) (interrupt : SearchInterrupt)
    (window : Duration) :
    searchWindow t settings interrupt r window =
      pure (Response.ofYields r settings window
        (((r.context t settings).sampleTimes settings r.start window).zipIdx.map
          fun (departure, i) => r.iterate t settings window (interrupt (i + 1)) departure)) := by
  unfold searchWindow
  rw [sampleTimes_eq (Request.context_valid h hr), pure_bind,
    mapM_eq_pure fun _ _ => iterate_eq h hr _ _ _, pure_bind]

/-- A search looks up nothing that is missing: with strict lookups it gives the
same.  A request that is refused looks up nothing at all. -/
theorem searchWith_eq (h : f.compile = .ok t) (settings : SearchSettings)
    (interrupt : SearchInterrupt) (r : Request) :
    searchWith t settings interrupt r = .ok (t.searchWith settings interrupt r) := by
  unfold searchWith Timetable.searchWith
  cases hr : r.validate t.stopCount settings with
  | error e => rfl
  | ok accepted =>
      simp only [searchWindow_eq h hr]
      cases hwindow : r.window with
      | some window => rfl
      | none =>
          simp only
          rw [pickWindow_eq (Request.context_valid h hr) (egress_lt_of_validate h hr)]
          cases (r.context t settings).pickWindow settings (interrupt 0) r.start <;> rfl

/-- Searching in reverse across a walk, each lookup finds something, and so does
the search. -/
theorem searchWith_acrossTown :
    ∃ response,
      Request.acrossTown.validate Feed.acrossTown.timetable.stopCount .standard = .ok () ∧
      searchWith Feed.acrossTown.timetable .standard (fun _ => Interrupt.never) .acrossTown =
        .ok (.ok response) ∧
      response.journeys.map Journey.tripIds = [[0, 1]] := by
  obtain ⟨response, hanswer, htrips, -⟩ := Timetable.search_acrossTown
  have hsearch : Feed.acrossTown.timetable.searchWith .standard (fun _ => Interrupt.never)
      .acrossTown = .ok response := hanswer
  obtain ⟨haccepted, -⟩ := Timetable.searchWith_eq_ok hsearch
  refine ⟨response, haccepted, ?_, htrips⟩
  rw [searchWith_eq Feed.compile_acrossTown, hsearch]

end Searching

end Strict

end TransitRouting
