/-
  TransitRouting.Proofs.Search.Windows
  ────────────────────────────────────
  What widening the window adds to a response.

  A wider window has the same times of departure to try and more of them, none of
  which is before the end of the narrower one.  A journey departs no earlier than
  the iteration that found it.  So the candidates of the narrower window are
  exactly those of the wider one that depart in it.

  Main statements:

    • `departureTimes_append` — the times to try in a wider window go on where
      those in the narrower one end;
    • `Request.candidates_subset`, `Request.mem_candidates_of_lt` — the wider
      window has the same candidates that depart in the narrower one;
    • `Timetable.searchWith_window` — under `TieBreak.keepAll` a journey is lost
      only to one that dominates it, and none that departs in the narrower window
      is new.
-/
import TransitRouting.Proofs.Journey.Ends
import TransitRouting.Proofs.Search.Candidates

namespace TransitRouting

/-! ## §1. Times of departure. -/

/-- The times to try are no earlier than the first one. -/
theorem le_of_mem_departureTimes {step : Duration} {finish latest : Time} {budget : Nat}
    {first time : Time} (h : time ∈ departureTimes step finish latest budget first) :
    first ≤ time ∧ time < finish ∧ time ≤ latest := by
  induction budget generalizing first with
  | zero => cases h
  | succ budget ih =>
      unfold departureTimes at h
      split at h
      · next hin =>
          rcases List.mem_cons.mp h with rfl | h
          · exact ⟨Time.le_refl _, hin⟩
          · obtain ⟨hle, hin'⟩ := ih h
            exact ⟨Time.le_trans (Time.le_add first step) hle, hin'⟩
      · cases h

/-- The times to try up to a later end go on where those up to an earlier end
stop. -/
theorem departureTimes_append (step : Duration) {narrow wide : Time} (latest : Time)
    (hle : narrow ≤ wide) (budget : Nat) (first : Time) :
    ∃ rest, departureTimes step wide latest budget first =
        departureTimes step narrow latest budget first ++ rest ∧
      ∀ time ∈ rest, narrow ≤ time := by
  induction budget generalizing first with
  | zero => exact ⟨[], rfl, fun _ h => absurd h List.not_mem_nil⟩
  | succ budget ih =>
      by_cases hin : first < narrow ∧ first ≤ latest
      · obtain ⟨rest, heq, hrest⟩ := ih (first + step)
        have hin' : first < wide ∧ first ≤ latest := ⟨Int.lt_of_lt_of_le hin.1 hle, hin.2⟩
        refine ⟨rest, ?_, hrest⟩
        unfold departureTimes
        rw [if_pos hin, if_pos hin', heq]
        rfl
      · refine ⟨departureTimes step wide latest (budget + 1) first, ?_, fun time htime => ?_⟩
        · have hnone : departureTimes step narrow latest (budget + 1) first = [] := if_neg hin
          rw [hnone]
          rfl
        · -- The times did not stop for the latest one, so they stopped for the end.
          obtain ⟨hfirst, -, hlatest⟩ := le_of_mem_departureTimes htime
          refine Time.le_trans (Time.not_lt.mp fun hlt => hin ⟨hlt, ?_⟩) hfirst
          exact Time.le_trans hfirst hlatest

/-- The same of the times that a search tries. -/
theorem SearchContext.sampleTimes_append (ctx : SearchContext) (settings : SearchSettings)
    (start : Time) {narrow wide : Duration} (hle : narrow ≤ wide) :
    ∃ rest, ctx.sampleTimes settings start wide = ctx.sampleTimes settings start narrow ++ rest ∧
      ∀ time ∈ rest, start + narrow ≤ time := by
  unfold sampleTimes
  split
  · exact ⟨[], rfl, fun _ h => absurd h List.not_mem_nil⟩
  · next latest _ =>
      exact departureTimes_append _ latest (Time.add_le_add (Time.le_refl start) hle) _ _

/-! ## §2. Candidates. -/

namespace Request

variable {f : Feed} {t : Timetable} {settings : SearchSettings} {interrupt : SearchInterrupt}
  {r : Request} {narrow wide : Duration} {j : Journey}

/-- No journey departs before the iteration that found it, as long as the ways to the
first stop stay in range. -/
theorem departure_le_of_mem_found (hcompile : f.compile = .ok t)
    (hvalid : (r.context t settings).Valid) {interrupt : Interrupt} {departure : Time}
    (hrange : ∀ c ∈ (r.context t settings).access, departure.CanAdd c.duration)
    (hj : j ∈ r.found t settings interrupt departure) :
    departure ≤ j.timelineDeparture r.direction := by
  obtain ⟨d, hd, hbuild⟩ := List.mem_filterMap.mp hj
  have hsuits := suits hcompile r settings
  obtain ⟨hsound, hdeparture⟩ := Iteration.run_sound hvalid interrupt departure
  obtain ⟨access, first, middle, last, egress, hleads⟩ :=
    hsuits.exists_leads hsound.store (hsound.destinations d hd)
  rw [hdeparture] at hleads
  exact hleads.departure_le hsuits hrange hbuild

/-- The candidates of the narrower window are candidates of the wider one. -/
theorem candidates_subset (hle : narrow ≤ wide)
    (hj : j ∈ r.candidates t settings interrupt narrow) :
    j ∈ r.candidates t settings interrupt wide := by
  obtain ⟨hwindow, sample, hsample, hrest⟩ := mem_candidates_iff.mp hj
  obtain ⟨rest, heq, -⟩ := (r.context t settings).sampleTimes_append settings r.start hle
  refine mem_candidates_iff.mpr ⟨?_, sample, ?_, hrest⟩
  · obtain ⟨hfrom, hto⟩ := inWindow_iff.mp hwindow
    exact inWindow_iff.mpr
      ⟨hfrom, Int.lt_of_lt_of_le hto (Time.add_le_add (Time.le_refl _) hle)⟩
  · rw [heq, List.zipIdx_append]
    exact List.mem_append_left _ hsample

/-- The candidates of the wider window that depart in the narrower one are candidates
of that. -/
theorem mem_candidates_of_lt (hcompile : f.compile = .ok t)
    (hvalid : (r.context t settings).Valid) (hle : narrow ≤ wide)
    (hrange : ∀ time ∈ (r.context t settings).sampleTimes settings r.start wide,
      ∀ c ∈ (r.context t settings).access, time.CanAdd c.duration)
    (hj : j ∈ r.candidates t settings interrupt wide)
    (hlt : j.timelineDeparture r.direction < r.start + narrow) :
    j ∈ r.candidates t settings interrupt narrow := by
  obtain ⟨hwindow, sample, hsample, hstop, hfound⟩ := mem_candidates_iff.mp hj
  obtain ⟨rest, heq, hrest⟩ := (r.context t settings).sampleTimes_append settings r.start hle
  have htime : sample.1 ∈ (r.context t settings).sampleTimes settings r.start wide := by
    obtain ⟨time, i⟩ := sample
    exact List.mem_of_getElem? (List.mem_zipIdx_iff_getElem?.mp hsample)
  have hdeparture := departure_le_of_mem_found hcompile hvalid (hrange _ htime) hfound
  refine mem_candidates_iff.mpr ⟨?_, sample, ?_, hstop, hfound⟩
  · exact inWindow_iff.mpr ⟨(inWindow_iff.mp hwindow).1, hlt⟩
  · rw [heq, List.zipIdx_append] at hsample
    rcases List.mem_append.mp hsample with hsample | hsample
    · exact hsample
    · -- The iteration started after the narrower window, so the journey departs after it.
      have hmem : sample.1 ∈ rest := by
        obtain ⟨time, i⟩ := sample
        exact (List.mem_zipIdx hsample).2.2 ▸ List.getElem_mem _
      have hlate := Time.le_trans (hrest _ hmem) hdeparture
      exact absurd hlt (Time.not_lt.mpr hlate)

end Request

/-! ## §3. Responses. -/

/-- On every timetable, in either direction and for all settings that keep ties, a
search in a wider window has for every journey of the narrower one a journey that is
worth the same or dominates it.  Every journey that departs in the narrower window has
one that is worth the same there, as long as the ways to the first stop stay in
range. -/
theorem Timetable.searchWith_window {f : Feed} {t : Timetable} (hcompile : f.compile = .ok t)
    {settings : SearchSettings} (hties : settings.tieBreak = .keepAll)
    {interrupt : SearchInterrupt} {r : Request} {narrow wide : Duration} (hle : narrow ≤ wide)
    {less more : Response}
    (hless : t.searchWith settings interrupt { r with window := some narrow } = .ok less)
    (hmore : t.searchWith settings interrupt { r with window := some wide } = .ok more)
    (hrange : ∀ time ∈ (r.context t settings).sampleTimes settings r.start wide,
      ∀ c ∈ (r.context t settings).access, time.CanAdd c.duration) :
    (∀ j ∈ less.journeys, ∃ k ∈ more.journeys, k.merit = j.merit ∨ k.merit.Dominates j.merit) ∧
      ∀ k ∈ more.journeys, k.timelineDeparture r.direction < r.start + narrow →
        ∃ j ∈ less.journeys, j.merit = k.merit := by
  obtain ⟨-, hlessEq⟩ := Timetable.journeys_of_searchWith rfl hless
  obtain ⟨haccepted, hmoreEq⟩ := Timetable.journeys_of_searchWith rfl hmore
  have hvalid : (r.context t settings).Valid :=
    Request.context_valid (r := { r with window := some wide }) hcompile haccepted
  rw [hties] at hlessEq hmoreEq
  change less.journeys =
    Ranking.select Journey.merit .keepAll (r.candidates t settings interrupt narrow) at hlessEq
  change more.journeys =
    Ranking.select Journey.merit .keepAll (r.candidates t settings interrupt wide) at hmoreEq
  rw [hlessEq, hmoreEq]
  constructor
  · intro j hj
    exact Ranking.exists_mem_select_keepAll
      (Request.candidates_subset hle (Ranking.mem_of_mem_select hj))
  · intro k hk hlt
    obtain ⟨⟨-, hfree⟩, hfirst⟩ := Ranking.mem_select_keepAll_iff.mp hk
    have hcandidate := Request.mem_candidates_of_lt hcompile hvalid hle hrange hfirst.mem hlt
    -- What none of more candidates dominates, none of fewer does.
    have hfront : Ranking.OnFront Journey.merit (r.candidates t settings interrupt narrow)
        k.merit :=
      ⟨List.mem_map_of_mem hcandidate, fun y hy => hfree y (Request.candidates_subset hle hy)⟩
    obtain ⟨j, hj, hmerit⟩ := List.mem_map.mp (Ranking.mem_map_select_keepAll_iff.mpr hfront)
    exact ⟨j, hj, hmerit⟩

/-- A bus, and a later and faster train, which belongs to another group. -/
def Feed.busAndTrain : Feed where
  stops := ["A", "B"]
  patterns :=
    [{ id := "bus"
       stops := [0, 1]
       noBoarding := []
       noAlighting := []
       minTransferTime := none
       trips := [⟨"b", [30, 2000].map Time.saturate, [30, 2000].map Time.saturate, 0, 1.0⟩] },
     { id := "train"
       stops := [0, 1]
       noBoarding := []
       noAlighting := []
       minTransferTime := none
       trips := [⟨"t", [600, 1500].map Time.saturate, [600, 1500].map Time.saturate, 1, 1.0⟩] }]
  footpaths := []
  rules := []

theorem Feed.compile_busAndTrain : Feed.busAndTrain.compile = .ok Feed.busAndTrain.timetable :=
  Feed.compile_eq_timetable (by decide +kernel)

/-- From half a minute away from the first stop to the second one. -/
def Request.busAndTrain : Request where
  access := [⟨0, Duration.saturate 30, none⟩]
  egress := [⟨1, Duration.zero, none⟩]
  time := Time.midnight
  arriveBy := false
  window := none
  maxTransfers := 5
  costs := CostWeights.standard
  merge := GroupMerge.union

/-- All ties are kept. -/
def SearchSettings.keepingTies : SearchSettings :=
  { SearchSettings.standard with tieBreak := .keepAll }

/-- In a window of one minute only the bus is found.  In one of an hour it still is. -/
theorem Timetable.searchWith_window_busAndTrain :
    ∃ less more,
      Feed.busAndTrain.timetable.search .keepingTies
        { Request.busAndTrain with window := some (Duration.saturate 60) } = .ok less ∧
      Feed.busAndTrain.timetable.search .keepingTies
        { Request.busAndTrain with window := some (Duration.saturate 3600) } = .ok more ∧
      less.journeys.map Journey.tripIds = [[0]] ∧
      (∀ j ∈ less.journeys, ∃ k ∈ more.journeys,
        k.merit = j.merit ∨ k.merit.Dominates j.merit) ∧
      ∀ k ∈ more.journeys,
        k.timelineDeparture .forward < Time.midnight + Duration.saturate 60 →
          ∃ j ∈ less.journeys, j.merit = k.merit := by
  have hanswer : (Feed.busAndTrain.timetable.search .keepingTies
      { Request.busAndTrain with window := some (Duration.saturate 60) }).toOption.map
        (fun response => response.journeys.map Journey.tripIds) = some [[0]] := by decide +kernel
  have hanswer' : (Feed.busAndTrain.timetable.search .keepingTies
      { Request.busAndTrain with window := some (Duration.saturate 3600) }).toOption.isSome := by
    decide +kernel
  obtain ⟨less, hless, htrips⟩ := Option.map_eq_some_iff.mp hanswer
  obtain ⟨more, hmore⟩ := Option.isSome_iff_exists.mp hanswer'
  have hless := Checks.eq_ok_of_toOption hless
  have hmore := Checks.eq_ok_of_toOption hmore
  refine ⟨less, more, hless, hmore, htrips, ?_⟩
  exact Timetable.searchWith_window (r := Request.busAndTrain) Feed.compile_busAndTrain rfl
    (by decide) hless hmore (by decide +kernel)

end TransitRouting
