/-
  TransitRouting.Proofs.Search.Pages
  ──────────────────────────────────
  Which pages of a response can be searched.

  A page is the request of the response at another time, in the window that was
  used.  Nothing but that window decides whether it is accepted.  A window of the
  request's own was accepted with it.  One that was picked has never been checked:
  it is as long as the settings say, and at most one step longer than that.

  Main statements:

    • `SearchContext.pickWindow_bounds` — how long a window is that is picked;
    • `Request.validate_page_iff` — a page is accepted if and only if the settings
      allow its window;
    • `Timetable.validate_pages_iff` — when the pages of a response are accepted;
    • `Timetable.laterPage_refused_sixHours` — a search succeeds, and its next page
      is refused.
-/
import TransitRouting.Proofs.Search.Windows

namespace TransitRouting

open Checks

/-! ## §1. Whole steps. -/

namespace Duration

variable {a b d step : Duration}

/-- No duration gets shorter by being rounded up. -/
theorem le_ceilTo (d step : Duration) : d ≤ d.ceilTo step := by
  have hfits := d.le_greatest
  unfold ceilTo
  split
  · exact Nat.le_refl _
  · next hstep =>
      have hdiv := Nat.div_add_mod (d.seconds + step.seconds - 1) step.seconds
      have hmod := Nat.mod_lt (d.seconds + step.seconds - 1) (Nat.pos_of_ne_zero hstep)
      rw [Nat.mul_comm] at hdiv
      rw [le_def, saturate_seconds]
      omega

/-- Rounding up keeps the order. -/
theorem ceilTo_le_ceilTo (h : a ≤ b) (step : Duration) : a.ceilTo step ≤ b.ceilTo step := by
  unfold ceilTo
  split
  · exact h
  · have hdiv : (a.seconds + step.seconds - 1) / step.seconds ≤
        (b.seconds + step.seconds - 1) / step.seconds :=
      Nat.div_le_div_right (by rw [le_def] at h; omega)
    have hmul := Nat.mul_le_mul_right step.seconds hdiv
    simp only [le_def, saturate_seconds]
    omega

end Duration

/-! ## §2. Windows that are picked. -/

namespace SearchSettings

variable {s : SearchSettings} {travel window : Duration}

/-- A request may ask for the window. -/
def Allows (s : SearchSettings) (window : Duration) : Prop :=
  0 < window.seconds ∧ window ≤ s.windowLimitDuration

/-- The shortest and the longest window that are picked, in whole steps, may be asked
for. -/
def PicksAllowed (s : SearchSettings) : Prop :=
  0 < s.minWindowDuration.seconds ∧ 0 < s.maxWindowDuration.seconds ∧
    s.maxWindowDuration.ceilTo s.stepDuration ≤ s.windowLimitDuration

/-- The window for a travel time is no shorter than the shortest one, and no longer than
the longest one in whole steps. -/
theorem windowFor?_bounds (h : s.windowFor? travel = some window) :
    s.minWindowDuration ≤ window ∧ window ≤ s.maxWindowDuration.ceilTo s.stepDuration := by
  have hfits := s.minWindowDuration.le_greatest
  have hfits' := s.maxWindowDuration.le_greatest
  unfold windowFor? at h
  simp only at h
  split at h
  · cases h
  · next hle =>
      obtain rfl := Option.some.inj h
      constructor
      · refine Nat.le_trans ?_ (Duration.le_ceilTo _ _)
        simp only [Duration.ofSeconds, Duration.saturate_seconds]
        omega
      · refine Duration.ceilTo_le_ceilTo ?_ _
        simp only [Duration.le_def, Duration.ofSeconds, Duration.saturate_seconds]
        omega

end SearchSettings

/-- A window that is picked is no longer than the longest one in whole steps.  It is no
shorter than the shortest one, unless it is the longest one. -/
theorem SearchContext.pickWindow_bounds {ctx : SearchContext} {settings : SearchSettings}
    {interrupt : Interrupt} {start : Time} {window : Duration}
    (h : ctx.pickWindow settings interrupt start = .ok window) :
    (settings.minWindowDuration ≤ window ∨ window = settings.maxWindowDuration) ∧
      window ≤ settings.maxWindowDuration.ceilTo settings.stepDuration := by
  unfold pickWindow at h
  simp only at h
  split at h
  · -- Nothing was found.
    obtain rfl := Except.ok.inj h
    exact ⟨.inr rfl, Duration.le_ceilTo _ _⟩
  · split at h
    · next picked hpicked =>
        obtain rfl := Except.ok.inj h
        obtain ⟨hleast, hgreatest⟩ := SearchSettings.windowFor?_bounds hpicked
        exact ⟨.inl hleast, hgreatest⟩
    · cases h

/-! ## §3. Requests for a page. -/

namespace Request

variable {r : Request} {stopCount : Nat} {settings : SearchSettings} {window : Duration}

/-- The same request at another time, in a given window. -/
def page (r : Request) (time : Time) (window : Duration) : Request :=
  { r with time := time, window := some window }

theorem checkWindow_eq_ok_iff :
    checkWindow settings.windowLimitDuration (some window) = .ok () ↔
      settings.Allows window := by
  unfold checkWindow SearchSettings.Allows
  simp only [Duration.le_def, Duration.lt_def]
  split
  · simp only [reduceCtorEq, false_iff]
    omega
  · split
    · simp only [reduceCtorEq, false_iff]
      omega
    · simp only [true_iff]
      omega

/-- A page of a request that is accepted is accepted if and only if its window may be
asked for. -/
theorem validate_page_iff (h : r.validate stopCount settings = .ok ()) (time : Time) :
    (r.page time window).validate stopCount settings = .ok () ↔ settings.Allows window := by
  unfold validate at h ⊢
  rw [guard_eq_ok, guard_eq_ok, check_eq_ok, check_eq_ok, check_eq_ok, guard_eq_ok] at h ⊢
  obtain ⟨haccess, hegress, hfrom, hto, -, hrest⟩ := h
  rw [← checkWindow_eq_ok_iff]
  constructor
  · rintro ⟨-, -, -, -, hwindow, -⟩
    exact hwindow
  · intro hwindow
    exact ⟨haccess, hegress, hfrom, hto, hwindow, hrest⟩

/-- A window of its own was accepted with the request. -/
theorem allows_of_validate (h : r.validate stopCount settings = .ok ())
    (hwindow : r.window = some window) : settings.Allows window := by
  have hpage : r.page r.time window = r := by
    unfold page
    rw [← hwindow]
  exact (validate_page_iff h r.time).mp (hpage.symm ▸ h)

end Request

/-! ## §4. Pages of a response. -/

section Pages

variable {t : Timetable} {settings : SearchSettings} {interrupt : SearchInterrupt} {r : Request}
  {response : Response}

/-- The request of a response is the one that was searched, with a window. -/
theorem Timetable.request_of_searchWith (h : t.searchWith settings interrupt r = .ok response) :
    response.request = r.page r.time response.window := by
  obtain ⟨-, window, -, rfl⟩ := searchWith_eq_ok h
  rfl

theorem Timetable.laterPage_of_searchWith (h : t.searchWith settings interrupt r = .ok response) :
    response.laterPage = r.page (r.time + response.window) response.window := by
  unfold Response.laterPage
  rw [request_of_searchWith h]
  rfl

theorem Timetable.earlierPage_of_searchWith
    (h : t.searchWith settings interrupt r = .ok response) :
    response.earlierPage = r.page (r.time - response.window) response.window := by
  unfold Response.earlierPage
  rw [request_of_searchWith h]
  rfl

/-- The window of a response is the one that was chosen. -/
theorem Timetable.chooseWindow_of_searchWith
    (h : t.searchWith settings interrupt r = .ok response) :
    r.chooseWindow t settings (interrupt 0) = .ok response.window := by
  obtain ⟨-, window, hwindow, rfl⟩ := searchWith_eq_ok h
  exact hwindow

/-- On every timetable, in either direction and for all settings, the pages next to a
response are accepted if and only if the window that was used may be asked for.  It may
if the request had it.  If the request had none, the window is at least the shortest
and at most the longest one in whole steps, so it may be asked for if those may. -/
theorem Timetable.validate_pages_iff (h : t.searchWith settings interrupt r = .ok response) :
    (response.laterPage.validate t.stopCount settings = .ok () ↔
        settings.Allows response.window) ∧
      (response.earlierPage.validate t.stopCount settings = .ok () ↔
        settings.Allows response.window) ∧
      (∀ window, r.window = some window →
        response.window = window ∧ settings.Allows window) ∧
      (r.window = none →
        (settings.minWindowDuration ≤ response.window ∨
            response.window = settings.maxWindowDuration) ∧
          response.window ≤ settings.maxWindowDuration.ceilTo settings.stepDuration ∧
          (settings.PicksAllowed → settings.Allows response.window)) := by
  obtain ⟨haccepted, -⟩ := searchWith_eq_ok h
  have hchosen := chooseWindow_of_searchWith h
  unfold Request.chooseWindow at hchosen
  rw [laterPage_of_searchWith h, earlierPage_of_searchWith h]
  refine ⟨Request.validate_page_iff haccepted _, Request.validate_page_iff haccepted _,
    fun window hwindow => ?_, fun hnone => ?_⟩
  · rw [hwindow] at hchosen
    exact ⟨(Except.ok.inj hchosen).symm, Request.allows_of_validate haccepted hwindow⟩
  · rw [hnone] at hchosen
    obtain ⟨hleast, hgreatest⟩ := SearchContext.pickWindow_bounds hchosen
    refine ⟨hleast, hgreatest, fun ⟨hmin, hmax, hlimit⟩ => ⟨?_, Nat.le_trans hgreatest hlimit⟩⟩
    rcases hleast with hleast | hlongest
    · exact Nat.lt_of_lt_of_le hmin hleast
    · exact hlongest ▸ hmax

end Pages

/-- The settings in use when none are given allow all windows that they pick. -/
theorem SearchSettings.picksAllowed_standard : standard.PicksAllowed := by
  unfold PicksAllowed
  decide

/-- For the bus and the train a window of 50 minutes is picked, and both pages next to
it are accepted. -/
theorem Timetable.validate_pages_busAndTrain :
    ∃ response,
      Feed.busAndTrain.timetable.search .standard Request.busAndTrain = .ok response ∧
        response.window = Duration.saturate 3000 ∧
        response.laterPage.validate Feed.busAndTrain.timetable.stopCount .standard = .ok () ∧
        response.earlierPage.validate Feed.busAndTrain.timetable.stopCount .standard = .ok () := by
  have hanswer : (Feed.busAndTrain.timetable.search .standard Request.busAndTrain).toOption.map
      Response.window = some (Duration.saturate 3000) := by decide +kernel
  obtain ⟨response, hresponse, hwindow⟩ := Option.map_eq_some_iff.mp hanswer
  have hsearch := Checks.eq_ok_of_toOption hresponse
  obtain ⟨hlater, hearlier, -, hpicked⟩ := Timetable.validate_pages_iff hsearch
  obtain ⟨-, -, hallows⟩ := hpicked rfl
  have hallowed := hallows SearchSettings.picksAllowed_standard
  exact ⟨response, hsearch, hwindow, hlater.mpr hallowed, hearlier.mpr hallowed⟩

/-- A bus that takes six hours. -/
def Feed.sixHours : Feed where
  stops := ["A", "B"]
  patterns :=
    [{ id := "bus"
       stops := [0, 1]
       noBoarding := []
       noAlighting := []
       minTransferTime := none
       trips := [⟨"b", [0, 21600].map Time.saturate, [0, 21600].map Time.saturate, 0, 1.0⟩] }]
  footpaths := []
  rules := []

/-- From the first stop to the second one. -/
def Request.sixHours : Request :=
  { Request.busAndTrain with access := [⟨0, Duration.zero, none⟩] }

/-- Three hours are the longest window that is picked or asked for, and a step is 25
minutes. -/
def SearchSettings.inLongSteps : SearchSettings :=
  { SearchSettings.standard with iterationStep := 1500, windowLimit := 180 }

/-- Three hours are no whole number of steps, so a window of 200 minutes is picked.  No
request may ask for it, and both pages next to it are refused. -/
theorem Timetable.laterPage_refused_sixHours :
    Feed.sixHours.compile = .ok Feed.sixHours.timetable ∧
      ∃ response,
        Feed.sixHours.timetable.search .inLongSteps Request.sixHours = .ok response ∧
          response.laterPage.validate Feed.sixHours.timetable.stopCount .inLongSteps =
            .error (.windowTooLong (Duration.saturate 12000) (Duration.saturate 10800)) ∧
          response.earlierPage.validate Feed.sixHours.timetable.stopCount .inLongSteps =
            .error (.windowTooLong (Duration.saturate 12000) (Duration.saturate 10800)) := by
  have hanswer : (Feed.sixHours.timetable.search .inLongSteps Request.sixHours).toOption.map
      (fun response =>
        (response.laterPage.validate Feed.sixHours.timetable.stopCount .inLongSteps,
          response.earlierPage.validate Feed.sixHours.timetable.stopCount .inLongSteps)) =
      some (.error (.windowTooLong (Duration.saturate 12000) (Duration.saturate 10800)),
        .error (.windowTooLong (Duration.saturate 12000) (Duration.saturate 10800))) := by
    decide +kernel
  obtain ⟨response, hresponse, hpages⟩ := Option.map_eq_some_iff.mp hanswer
  obtain ⟨hlater, hearlier⟩ := Prod.mk.inj hpages
  exact ⟨Feed.compile_eq_timetable (by decide +kernel), response,
    Checks.eq_ok_of_toOption hresponse, hlater, hearlier⟩

end TransitRouting
