/-
  TransitRouting.Proofs.Search.Tiling
  ───────────────────────────────────
  How the pages of a response divide the timeline.

  Whoever goes from page to page, later or earlier, keeps the length of the window
  and moves its place by that length.  A window that asks for departures has its
  first second and not its end.  One that asks for arrivals is searched on the
  negated timeline, so it has its end and not its beginning.  Either way every time
  is in the window of exactly one page.

  Main statements:

    • `Timetable.covers_of_mem_journeys` — a page shows journeys of its own window
      alone;
    • `Response.LeadsTo.isPage` — what going from page to page keeps;
    • `Response.IsPage.covers_iff` — on which page a time is;
    • `Timetable.pages_tile` — the windows of the pages tile the timeline, so no
      journey is on two of them, and going back leads to the same request.
-/
import TransitRouting.Proofs.Search.Pages

namespace TransitRouting

/-! ## §1. The window of a page. -/

namespace Response

/-- The time of a journey that the request of a page limits: that of its departure, or
that of its arrival. -/
def placeOf (page : Response) (j : Journey) : Time :=
  if page.request.arriveBy then j.merit.arrival else j.merit.departure

/-- Where the window of a page begins, in seconds after midnight. -/
def windowStart (page : Response) : Int :=
  if page.request.arriveBy then page.request.time.seconds - page.window.seconds
  else page.request.time.seconds

/-- Where the window of a page ends. -/
def windowEnd (page : Response) : Int :=
  if page.request.arriveBy then page.request.time.seconds
  else page.request.time.seconds + page.window.seconds

theorem windowEnd_eq (page : Response) :
    page.windowEnd = page.windowStart + page.window.seconds := by
  unfold windowEnd windowStart
  split <;> omega

/-- The time is in the window of a page.  A window of departures has its beginning, and
a window of arrivals its end. -/
def Covers (page : Response) (x : Time) : Prop :=
  if page.request.arriveBy then page.windowStart < x.seconds ∧ x.seconds ≤ page.windowEnd
  else page.windowStart ≤ x.seconds ∧ x.seconds < page.windowEnd

end Response

/-- A page shows journeys of its own window alone, also if time arithmetic is cut
off. -/
theorem Timetable.covers_of_mem_journeys {t : Timetable} {settings : SearchSettings}
    {interrupt : SearchInterrupt} {r : Request} {page : Response}
    (h : t.searchWith settings interrupt r = .ok page) {j : Journey} (hj : j ∈ page.journeys) :
    page.Covers (page.placeOf j) := by
  rw [journeys_eq_select h] at hj
  obtain ⟨hwindow, -⟩ := Request.mem_candidates_iff.mp (Ranking.mem_of_mem_select hj)
  have hrequest := request_of_searchWith h
  have htime : page.request.time = r.time := by rw [hrequest]; rfl
  have harriveBy : page.request.arriveBy = r.arriveBy := by rw [hrequest]; rfl
  obtain ⟨hfrom, hto⟩ := Request.inWindow_iff.mp hwindow
  unfold Request.start at hfrom hto
  unfold Response.Covers Response.placeOf Response.windowStart Response.windowEnd
  rw [harriveBy, htime]
  rw [Time.le_def] at hfrom
  rw [Time.lt_def, Time.add_seconds] at hto
  have := r.time.least_le
  have := r.time.le_greatest
  cases hside : r.arriveBy with
  | false =>
      rw [Request.direction_eq_forward_iff.mpr hside] at hfrom hto
      simp only [Direction.searchTime, Journey.timelineDeparture] at hfrom hto
      simp only [Bool.false_eq_true, if_false]
      omega
  | true =>
      -- Both ends are negated.  The least time has no negation, but its window is empty.
      have := j.merit.arrival.least_le
      have := j.merit.arrival.le_greatest
      rw [Request.direction_eq_reverse_iff.mpr hside] at hfrom hto
      simp only [Direction.searchTime, Journey.timelineDeparture, Time.neg_seconds] at hfrom hto
      simp only [if_true]
      omega

/-! ## §2. From page to page. -/

namespace Time

variable {t : Time} {d : Duration}

/-- The time a duration earlier is in range. -/
def CanSubtract (t : Time) (d : Duration) : Prop := -2147483648 ≤ t.seconds - d.seconds

theorem add_sub_cancel (h : t.CanAdd d) : t + d - d = t := by
  have := t.least_le
  unfold CanAdd at h
  refine ext ?_
  rw [sub_seconds, add_seconds]
  omega

theorem sub_add_cancel (h : t.CanSubtract d) : t - d + d = t := by
  have := t.le_greatest
  unfold CanSubtract at h
  refine ext ?_
  rw [add_seconds, sub_seconds]
  omega

end Time

namespace Response

variable {t : Timetable} {settings : SearchSettings} {first page page' next : Response} {z z' : Int}
  {interrupt : SearchInterrupt}

/-- The page is reached from the first one by searching later and earlier pages, one
after the other.  It is `z` pages later, or earlier if `z` is negative.  On the way no
time leaves its range. -/
inductive LeadsTo (t : Timetable) (settings : SearchSettings) (first : Response) :
    Int → Response → Prop
  | here : LeadsTo t settings first 0 first
  | later {z : Int} {page next : Response} {interrupt : SearchInterrupt}
      (path : LeadsTo t settings first z page) (hrange : page.request.time.CanAdd page.window)
      (hsearch : t.searchWith settings interrupt page.laterPage = .ok next) :
      LeadsTo t settings first (z + 1) next
  | earlier {z : Int} {page next : Response} {interrupt : SearchInterrupt}
      (path : LeadsTo t settings first z page)
      (hrange : page.request.time.CanSubtract page.window)
      (hsearch : t.searchWith settings interrupt page.earlierPage = .ok next) :
      LeadsTo t settings first (z - 1) next

/-- The page answers the request of the first one, moved by `z` windows. -/
structure IsPage (t : Timetable) (settings : SearchSettings) (first : Response) (z : Int)
    (page : Response) : Prop where
  found : ∃ interrupt r, t.searchWith settings interrupt r = .ok page
  request : page.request = { first.request with time := page.request.time }
  time : page.request.time.seconds = first.request.time.seconds + z * first.window.seconds

/-- The request of a page is answered as it is, in the same window. -/
theorem request_of_searchWith_page (hpage : page.request.window = some page.window) {time : Time}
    (h : t.searchWith settings interrupt { page.request with time := time } = .ok next) :
    next.request = { page.request with time := time } ∧ next.window = page.window := by
  obtain ⟨-, -, hwindow, -⟩ := Timetable.validate_pages_iff h
  obtain ⟨hsame, -⟩ := hwindow _ hpage
  refine ⟨?_, hsame⟩
  rw [Timetable.request_of_searchWith h, hsame]
  unfold Request.page
  rw [← hpage]

namespace IsPage

theorem window_eq (h : IsPage t settings first z page) : page.window = first.window := by
  unfold Response.window
  rw [h.request]

theorem arriveBy_eq (h : IsPage t settings first z page) :
    page.request.arriveBy = first.request.arriveBy := by
  rw [h.request]

/-- The window was filled in. -/
theorem request_window (h : IsPage t settings first z page) :
    page.request.window = some page.window := by
  obtain ⟨interrupt, r, hsearch⟩ := h.found
  rw [Timetable.request_of_searchWith hsearch]
  rfl

/-- A search for the same request at another time finds another page. -/
theorem step (h : IsPage t settings first z page) {time : Time}
    (hsearch : t.searchWith settings interrupt { page.request with time := time } = .ok next)
    (htime : time.seconds = first.request.time.seconds + z' * first.window.seconds) :
    IsPage t settings first z' next where
  found := ⟨interrupt, _, hsearch⟩
  request := by
    rw [(request_of_searchWith_page h.request_window hsearch).1, h.request]
  time := by
    rw [(request_of_searchWith_page h.request_window hsearch).1]
    exact htime

theorem windowStart_eq (h : IsPage t settings first z page) :
    page.windowStart = first.windowStart + z * first.window.seconds := by
  unfold windowStart
  rw [h.window_eq, h.arriveBy_eq, h.time]
  split <;> omega

/-- Pages that are as far from the first one have the same request. -/
theorem request_eq (h : IsPage t settings first z page) (h' : IsPage t settings first z page') :
    page'.request = page.request := by
  have htime : page'.request.time = page.request.time := Time.ext (h'.time.trans h.time.symm)
  rw [h'.request, htime]
  exact h.request.symm

end IsPage

/-- Going from page to page keeps what makes a page of the first one. -/
theorem LeadsTo.isPage {r : Request} (hfirst : t.searchWith settings interrupt r = .ok first)
    (h : LeadsTo t settings first z page) : IsPage t settings first z page := by
  induction h with
  | here => exact ⟨⟨_, _, hfirst⟩, rfl, by omega⟩
  | @later z page next _ _ hrange hsearch ih =>
      -- The window is that of the first page, so the sum has one more of them.
      refine ih.step hsearch ?_
      have := page.request.time.least_le
      have htime := ih.time
      unfold Time.CanAdd at hrange
      rw [Time.add_seconds, Int.add_mul, ← ih.window_eq]
      rw [← ih.window_eq] at htime
      omega
  | @earlier z page next _ _ hrange hsearch ih =>
      refine ih.step hsearch ?_
      have := page.request.time.le_greatest
      have htime := ih.time
      unfold Time.CanSubtract at hrange
      rw [Time.sub_seconds, Int.sub_mul, ← ih.window_eq]
      rw [← ih.window_eq] at htime
      omega

/-- Back from the next page is the request of the page itself. -/
theorem earlierPage_of_laterPage (hpage : page.request.window = some page.window)
    (hrange : page.request.time.CanAdd page.window)
    (hsearch : t.searchWith settings interrupt page.laterPage = .ok next) :
    next.earlierPage = page.request := by
  obtain ⟨hrequest, hwindow⟩ := request_of_searchWith_page hpage hsearch
  unfold earlierPage
  rw [hrequest, hwindow]
  show { page.request with time := page.request.time + page.window - page.window } = page.request
  rw [Time.add_sub_cancel hrange]

/-- On from the previous page is the request of the page itself. -/
theorem laterPage_of_earlierPage (hpage : page.request.window = some page.window)
    (hrange : page.request.time.CanSubtract page.window)
    (hsearch : t.searchWith settings interrupt page.earlierPage = .ok next) :
    next.laterPage = page.request := by
  obtain ⟨hrequest, hwindow⟩ := request_of_searchWith_page hpage hsearch
  unfold laterPage
  rw [hrequest, hwindow]
  show { page.request with time := page.request.time - page.window + page.window } = page.request
  rw [Time.sub_add_cancel hrange]

/-! ## §3. Which page a time is on. -/

/-- How many pages later than the first one a time is. -/
def pageOf (first : Response) (x : Time) : Int :=
  if first.request.arriveBy then -((first.windowEnd - x.seconds) / first.window.seconds)
  else (x.seconds - first.windowStart) / first.window.seconds

namespace IsPage

/-- The window of a page has exactly the times that are on it. -/
theorem covers_iff (h : IsPage t settings first z page) (hwindow : 0 < first.window.seconds)
    (x : Time) : page.Covers x ↔ first.pageOf x = z := by
  have hpositive : (0 : Int) < first.window.seconds := by omega
  unfold Covers pageOf
  rw [page.windowEnd_eq, first.windowEnd_eq, h.windowStart_eq, h.window_eq, h.arriveBy_eq]
  split
  · -- Counted from the end of the window, the quotient grows towards earlier times.
    have hquotient := Int.ediv_eq_iff_of_pos (y := -z)
      (x := first.windowStart + first.window.seconds - x.seconds) hpositive
    rw [Int.neg_mul] at hquotient
    omega
  · rw [Int.ediv_eq_iff_of_pos hpositive]
    omega

/-- The windows of two pages have no time in common. -/
theorem not_covers_of_ne (h : IsPage t settings first z page)
    (h' : IsPage t settings first z' page') (hne : z ≠ z') (x : Time) :
    ¬ (page.Covers x ∧ page'.Covers x) := by
  rintro ⟨hcovers, hcovers'⟩
  by_cases hwindow : 0 < first.window.seconds
  · exact hne (((h.covers_iff hwindow x).mp hcovers).symm.trans
      ((h'.covers_iff hwindow x).mp hcovers'))
  · -- There is no time in an empty window.
    unfold Covers at hcovers
    rw [page.windowEnd_eq, h.window_eq] at hcovers
    split at hcovers <;> omega

end IsPage

end Response

/-! ## §4. Pages of a search. -/

/-- On every timetable, in either direction and for all settings, whoever goes from page
to page keeps the length of the window.  A page shows journeys of its own window.  The
windows of different pages have no time in common, those of neighbours are next to each
other, and every time is in the window of just one page, so no journey is on two.
However one gets to a page, its request is the same, and so it is after going on and back,
as long as no time leaves its range. -/
theorem Timetable.pages_tile {t : Timetable} {settings : SearchSettings}
    {interrupt : SearchInterrupt} {r : Request} {first : Response}
    (h : t.searchWith settings interrupt r = .ok first) {z z' : Int} {page page' : Response}
    (hpage : first.LeadsTo t settings z page) (hpage' : first.LeadsTo t settings z' page') :
    page.window = first.window ∧
      (∀ j ∈ page.journeys, page.Covers (page.placeOf j)) ∧
      (z ≠ z' → (∀ x, ¬ (page.Covers x ∧ page'.Covers x)) ∧
        ∀ j ∈ page.journeys, j ∉ page'.journeys) ∧
      (z' = z + 1 → page'.windowStart = page.windowEnd) ∧
      (z' = z → page'.request = page.request) ∧
      (0 < first.window.seconds → ∀ x, page.Covers x ↔ first.pageOf x = z) ∧
      (∀ interrupt next, page.request.time.CanAdd page.window →
        t.searchWith settings interrupt page.laterPage = .ok next →
          next.earlierPage = page.request) ∧
      ∀ interrupt next, page.request.time.CanSubtract page.window →
        t.searchWith settings interrupt page.earlierPage = .ok next →
          next.laterPage = page.request := by
  have hp := hpage.isPage h
  have hp' := hpage'.isPage h
  obtain ⟨used, asked, hfound⟩ := hp.found
  obtain ⟨used', asked', hfound'⟩ := hp'.found
  refine ⟨hp.window_eq, fun j hj => covers_of_mem_journeys hfound hj, fun hne => ⟨?_, ?_⟩, ?_,
    ?_, hp.covers_iff, ?_, ?_⟩
  · exact hp.not_covers_of_ne hp' hne
  · intro j hj hj'
    have hplace : page'.placeOf j = page.placeOf j := by
      unfold Response.placeOf
      rw [hp.arriveBy_eq, hp'.arriveBy_eq]
    have hcovers := covers_of_mem_journeys hfound hj
    have hcovers' := covers_of_mem_journeys hfound' hj'
    rw [hplace] at hcovers'
    exact hp.not_covers_of_ne hp' hne _ ⟨hcovers, hcovers'⟩
  · rintro rfl
    rw [page.windowEnd_eq, hp.windowStart_eq, hp'.windowStart_eq, hp.window_eq, Int.add_mul]
    omega
  · rintro rfl
    exact hp.request_eq hp'
  · exact fun _ _ => Response.earlierPage_of_laterPage hp.request_window
  · exact fun _ _ => Response.laterPage_of_earlierPage hp.request_window

/-- To arrive no later than the bus, and at most 500 seconds before it. -/
def Request.aroundBusArrival : Request :=
  { Request.busAndTrain with
    time := Time.saturate 2000
    arriveBy := true
    window := some (Duration.saturate 500) }

/-- The bus arrives at the end of the first window.  The train arrives where that window
begins, which is the end of the window before. -/
theorem Timetable.pages_tile_busAndTrain :
    ∃ first before,
      Feed.busAndTrain.timetable.search .standard Request.aroundBusArrival = .ok first ∧
        Feed.busAndTrain.timetable.search .standard first.earlierPage = .ok before ∧
        first.journeys.map (fun j => (j.tripIds, j.merit.arrival)) = [([0], Time.saturate 2000)] ∧
        before.journeys.map (fun j => (j.tripIds, j.merit.arrival)) =
          [([1], Time.saturate 1500)] ∧
        (∀ j ∈ before.journeys, before.Covers (before.placeOf j)) ∧
        (∀ x, ¬ (before.Covers x ∧ first.Covers x)) ∧
        first.windowStart = before.windowEnd ∧
        before.laterPage = first.request := by
  have hanswer : ((Feed.busAndTrain.timetable.search .standard
      .aroundBusArrival).toOption.bind fun first =>
        (Feed.busAndTrain.timetable.search .standard first.earlierPage).toOption.map fun before =>
          (first.journeys.map (fun j => (j.tripIds, j.merit.arrival)),
            before.journeys.map (fun j => (j.tripIds, j.merit.arrival)),
            first.request.time, first.window)) =
      some ([([0], Time.saturate 2000)], [([1], Time.saturate 1500)], Time.saturate 2000,
        Duration.saturate 500) := by decide +kernel
  obtain ⟨first, hfirst, hanswer⟩ := Option.bind_eq_some_iff.mp hanswer
  obtain ⟨before, hbefore, hanswer⟩ := Option.map_eq_some_iff.mp hanswer
  obtain ⟨hbus, hrest⟩ := Prod.mk.inj hanswer
  obtain ⟨htrain, hrest⟩ := Prod.mk.inj hrest
  obtain ⟨htime, hwindow⟩ := Prod.mk.inj hrest
  have hfirst := Checks.eq_ok_of_toOption hfirst
  have hbefore := Checks.eq_ok_of_toOption hbefore
  have hrange : first.request.time.CanSubtract first.window := by
    rw [htime, hwindow]
    unfold Time.CanSubtract
    decide
  obtain ⟨-, hcovers, hdisjoint, hnext, -, -, -, -⟩ := Timetable.pages_tile hfirst
    (.earlier .here hrange hbefore) .here
  obtain ⟨-, -, -, -, -, -, -, hback⟩ := Timetable.pages_tile hfirst (z := 0) .here .here
  exact ⟨first, before, hfirst, hbefore, hbus, htrain, hcovers, (hdisjoint (by decide)).1,
    hnext rfl, hback _ _ hrange hbefore⟩

end TransitRouting
