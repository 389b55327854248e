/-
  TransitRouting.Proofs.Search.Candidates
  ───────────────────────────────────────
  The journeys among which a response is selected.

  A search for a request with a window of its own runs one iteration after the
  other.  What each of them finds in the window is put together in the order of
  the iterations, and ranked.

  Main statement: `Timetable.searchWith_journeys` — a request that is accepted is
  answered by the selection from its candidates, and one that is refused is not
  searched.
-/
import TransitRouting.Proofs.Journey.Results

namespace TransitRouting

open Checks

namespace Request

/-- The journeys that the iteration for a time of departure finds. -/
def found (r : Request) (t : Timetable) (settings : SearchSettings) (interrupt : Interrupt)
    (departure : Time) : List Journey :=
  (Iteration.run (r.context t settings) interrupt departure).destinations.filterMap
    ((r.assembly t settings).build? (Iteration.run (r.context t settings) interrupt departure).store)

/-- The journey departs within a window, on the timeline of the search. -/
def inWindow (r : Request) (window : Duration) (j : Journey) : Bool :=
  r.start ≤ j.timelineDeparture r.direction &&
    j.timelineDeparture r.direction < r.start + window

/-- The journeys that the iterations of a search in a window find there, in the
order in which they come. -/
def candidates (r : Request) (t : Timetable) (settings : SearchSettings)
    (interrupt : SearchInterrupt) (window : Duration) : List Journey :=
  ((r.context t settings).sampleTimes settings r.start window).zipIdx.flatMap fun sample =>
    if interrupt (sample.2 + 1) 0 then []
    else (r.found t settings (interrupt (sample.2 + 1)) sample.1).filter (r.inWindow window)

variable {t : Timetable} {settings : SearchSettings} {interrupt : SearchInterrupt} {r : Request}
  {window : Duration} {j : Journey}

theorem inWindow_iff : r.inWindow window j = true ↔
    r.start ≤ j.timelineDeparture r.direction ∧
      j.timelineDeparture r.direction < r.start + window := by
  unfold inWindow
  rw [Bool.and_eq_true, decide_eq_true_iff, decide_eq_true_iff]

theorem mem_candidates_iff : j ∈ r.candidates t settings interrupt window ↔
    r.inWindow window j = true ∧
      ∃ sample ∈ ((r.context t settings).sampleTimes settings r.start window).zipIdx,
        ¬ interrupt (sample.2 + 1) 0 = true ∧
          j ∈ r.found t settings (interrupt (sample.2 + 1)) sample.1 := by
  unfold candidates
  rw [List.mem_flatMap]
  constructor
  · rintro ⟨sample, hsample, hj⟩
    by_cases hstop : interrupt (sample.2 + 1) 0 = true
    · rw [if_pos hstop] at hj
      cases hj
    · rw [if_neg hstop] at hj
      obtain ⟨hfound, hwindow⟩ := List.mem_filter.mp hj
      exact ⟨hwindow, sample, hsample, hstop, hfound⟩
  · rintro ⟨hwindow, sample, hsample, hstop, hfound⟩
    refine ⟨sample, hsample, ?_⟩
    rw [if_neg hstop]
    exact List.mem_filter.mpr ⟨hfound, hwindow⟩

/-- What an iteration adds to the candidates. -/
theorem iterate_journeys (interrupt : Interrupt) (departure : Time) :
    ((r.iterate t settings window interrupt departure).map (·.journeys)).getD [] =
      if interrupt 0 then []
      else (r.found t settings interrupt departure).filter (r.inWindow window) := by
  unfold iterate
  split <;> rfl

/-- The journeys of a response are selected from what its iterations add. -/
theorem ofYields_journeys (samples : List (Time × Nat)) :
    (Response.ofYields r settings window (samples.map fun sample =>
        r.iterate t settings window (interrupt (sample.2 + 1)) sample.1)).journeys =
      Ranking.select Journey.merit settings.tieBreak (samples.flatMap fun sample =>
        if interrupt (sample.2 + 1) 0 then []
        else (r.found t settings (interrupt (sample.2 + 1)) sample.1).filter
          (r.inWindow window)) := by
  refine congrArg (Ranking.select Journey.merit settings.tieBreak) ?_
  induction samples with
  | nil => rfl
  | cons sample rest ih =>
      rw [List.map_cons, List.flatMap_cons, ← ih, ← iterate_journeys]
      cases r.iterate t settings window (interrupt (sample.2 + 1)) sample.1 <;> rfl

end Request

/-- A request with a window of its own that is accepted is answered by the
selection from its candidates. -/
theorem Timetable.searchWith_journeys (t : Timetable) (settings : SearchSettings)
    (interrupt : SearchInterrupt) {r : Request} {window : Duration}
    (hwindow : r.window = some window) :
    (t.searchWith settings interrupt r).map (·.journeys) =
      ((r.validate t.stopCount settings).mapError SearchError.invalidRequest).map fun _ =>
        Ranking.select Journey.merit settings.tieBreak
          (r.candidates t settings interrupt window) := by
  unfold Timetable.searchWith
  cases hvalid : r.validate t.stopCount settings with
  | error e => rfl
  | ok accepted =>
      rw [hwindow]
      exact congrArg Except.ok (Request.ofYields_journeys _)

/-- A search that succeeds selected from the candidates of the window that it used. -/
theorem Timetable.journeys_eq_select {t : Timetable} {settings : SearchSettings}
    {interrupt : SearchInterrupt} {r : Request} {response : Response}
    (h : t.searchWith settings interrupt r = .ok response) :
    response.journeys = Ranking.select Journey.merit settings.tieBreak
      (r.candidates t settings interrupt response.window) := by
  obtain ⟨-, window, -, rfl⟩ := Timetable.searchWith_eq_ok h
  exact Request.ofYields_journeys _

/-- A search that succeeds accepted its request and selected from its candidates. -/
theorem Timetable.journeys_of_searchWith {t : Timetable} {settings : SearchSettings}
    {interrupt : SearchInterrupt} {r : Request} {window : Duration} {response : Response}
    (hwindow : r.window = some window) (h : t.searchWith settings interrupt r = .ok response) :
    r.validate t.stopCount settings = .ok () ∧
      response.journeys = Ranking.select Journey.merit settings.tieBreak
        (r.candidates t settings interrupt window) := by
  obtain ⟨hvalid, used, hused, hresponse⟩ := Timetable.searchWith_eq_ok h
  unfold Request.chooseWindow at hused
  rw [hwindow] at hused
  obtain rfl := Except.ok.inj hused
  have hsame : response.window = window := by rw [hresponse]; rfl
  exact ⟨hvalid, hsame ▸ Timetable.journeys_eq_select h⟩

/-- A request that is accepted and has candidates is answered with one of them. -/
theorem Timetable.exists_mem_journeys {t : Timetable} {settings : SearchSettings}
    {interrupt : SearchInterrupt} {r : Request} {window : Duration}
    (hwindow : r.window = some window) (haccepted : r.validate t.stopCount settings = .ok ())
    (hfound : r.candidates t settings interrupt window ≠ []) :
    ∃ response, t.searchWith settings interrupt r = .ok response ∧
      ∃ j, j ∈ response.journeys := by
  cases hsearch : t.searchWith settings interrupt r with
  | error e =>
      have hjourneys := t.searchWith_journeys settings interrupt hwindow
      rw [hsearch, haccepted] at hjourneys
      cases hjourneys
  | ok response =>
      refine ⟨response, rfl, ?_⟩
      rw [(Timetable.journeys_of_searchWith hwindow hsearch).2]
      exact Ranking.exists_mem_select hfound

end TransitRouting
