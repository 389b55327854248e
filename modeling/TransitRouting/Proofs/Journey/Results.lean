/-
  TransitRouting.Proofs.Journey.Results
  ─────────────────────────────────────
  Where the journeys of a response come from.

  Merging and ranking drop journeys but make none, so every journey of a
  response was assembled from a destination label of one of its iterations.  It
  is put together from a route of timed rides and walks between two connectors.

  Main statements:

    • `Feed.assembled_of_upholds` — this holds of every search that succeeds,
      in either direction, and whatever the search makes sure of at its changes
      holds of the changes of its journeys;
    • `Feed.assembled_of_mem_journeys` — the changes can be made, as long as no
      time arithmetic of a search in reverse left its range.
-/
import TransitRouting.Proofs.Journey.Segments
import TransitRouting.Proofs.Ranking.Selection
import TransitRouting.Search

namespace TransitRouting

open Checks

/-! ## §1. Journeys that were assembled. -/

/-- The journey is a route of timed rides and walks between two connectors, with
a relation that holds of every change.  The first ride of a forward search needs
no rule. -/
def Journey.Assembled (a : Assembly) (R : ChangeRelation) (j : Journey) : Prop :=
  ∃ access first segments last egress, a.SegmentRoute R first segments last ∧
    j = a.finish access segments egress ∧ access ∈ a.access ∧ egress ∈ a.egress ∧
    access.stop = first.boardStop ∧ last.alightStop = egress.stop ∧
    (a.direction = .forward → first.rule = none)

namespace Assembly

variable {a : Assembly} {ctx : SearchContext} {t : Timetable} {s : LabelStore} {departure : Time}
  {d : Label} {access egress : Connector} {first last : Label × Ride} {middle : List Step}

/-- The connector at the end takes no part in the timing. -/
theorem segments_concat_egress (steps : List Step) (j : Nat) (ready : Option Time) :
    a.segments ready (steps ++ [.egress j]) = a.segments ready steps := by
  induction steps generalizing ready with
  | nil => rfl
  | cons step steps ih =>
      cases step with
      | ride r => exact congrArg (Segment.ride (a.time r ready) :: ·) (ih _)
      | walk origin destination d => exact congrArg (Segment.walk origin destination d :: ·) (ih _)
      | access _ => exact ih ready
      | egress _ => exact ih ready

/-- The journey that is built from a destination label. -/
theorem Leads.build?_eq (h : a.Leads ctx departure s d access first middle last egress) :
    a.build? s d = some (a.finish access
      (if a.slide then a.slideChanges (a.segments none middle) else a.segments none middle)
      egress) := by
  obtain ⟨i, j, hsteps, haccess, hegress⟩ := h.steps_eq
  obtain ⟨haccesses, hegresses⟩ := h.travels.filterMap_connectors i j
  have hsegments : a.segments none (Step.access i :: (middle ++ [Step.egress j])) =
      a.segments none middle := segments_concat_egress middle j none
  unfold build?
  simp only [hsteps, haccesses, hegresses, hsegments, List.mapM_cons, List.mapM_nil, haccess,
    hegress, Option.pure_def, Option.bind_eq_bind, Option.bind_some, List.getLast?_singleton]

/-- A journey along a route that starts and ends like the steps to a label is assembled
from that route. -/
theorem Leads.assembled_finish (h : a.Leads ctx departure s d access first middle last egress)
    {R : ChangeRelation} {x y : RideLeg} {segments : List Segment} {ready : Option Time}
    (hroute : a.SegmentRoute R x segments y)
    (hstart : (a.time (a.stepOf first.2) none).SameStart x)
    (hend : (a.time (a.stepOf last.2) ready).SameEnd y) :
    (a.finish access segments egress).Assembled a R := by
  obtain ⟨i, k, -, haccess, hegress⟩ := h.steps_eq
  refine ⟨access, x, segments, y, egress, hroute, rfl, List.mem_of_getElem? haccess,
    List.mem_of_getElem? hegress, h.boardStop.trans hstart.boardStop,
    hend.alightStop.symm.trans h.alightStop, ?_⟩
  intro hforward
  rw [← hstart.rule, stepOf_forward hforward]
  exact h.rule hforward

/-- A journey that is built from a destination label is assembled from a route. -/
theorem Leads.assembled (hsuits : a.Suits ctx t) {R : ChangeRelation} (hR : a.Durable R)
    (hupholds : a.Upholds ctx s R)
    (h : a.Leads ctx departure s d access first middle last egress) {j : Journey}
    (hj : a.build? s d = some j) : j.Assembled a R := by
  rw [h.build?_eq] at hj
  obtain rfl := Option.some.inj hj
  obtain ⟨ready, hsegments⟩ := h.travels.segments hsuits hupholds none
  -- Moving the changes leaves both ends of the route as they are.
  split
  · obtain ⟨first', last', hslid, hsameStart, hsameEnd⟩ := hsegments.slideChanges hR
    exact h.assembled_finish hslid hsameStart hsameEnd
  · exact h.assembled_finish hsegments (.refl _) (.refl _)

end Assembly

/-! ## §2. Searches. -/

namespace Request

variable {f : Feed} {t : Timetable} {settings : SearchSettings} {r : Request}

theorem direction_eq_forward_iff : r.direction = .forward ↔ r.arriveBy = false := by
  unfold direction
  cases r.arriveBy <;> simp

theorem direction_eq_reverse_iff : r.direction = .reverse ↔ r.arriveBy = true := by
  unfold direction
  cases r.arriveBy <;> simp

theorem checkStops_eq_ok {stopCount : Nat} {side : JourneySide} {connectors : List Connector}
    (h : checkStops stopCount side connectors = .ok ()) :
    ∀ c ∈ connectors, c.stop < stopCount := by
  unfold checkStops at h
  split at h
  · cases h
  · next hnone =>
      intro c hc
      have hfound := List.find?_eq_none.mp hnone c hc
      simpa using hfound

/-- A request that is accepted has connectors at stops that are there. -/
theorem stop_lt_of_validate {stopCount : Nat} (h : r.validate stopCount settings = .ok ()) :
    (∀ c ∈ r.access, c.stop < stopCount) ∧ ∀ c ∈ r.egress, c.stop < stopCount := by
  unfold validate at h
  rw [guard_eq_ok, guard_eq_ok] at h
  obtain ⟨-, -, h⟩ := h
  rw [check_eq_ok, check_eq_ok] at h
  obtain ⟨haccess, hegress, -⟩ := h
  exact ⟨checkStops_eq_ok haccess, checkStops_eq_ok hegress⟩

theorem context_valid (h : f.compile = .ok t) (hr : r.validate t.stopCount settings = .ok ()) :
    (r.context t settings).Valid where
  network := Feed.compile_network_valid h _
  access := by
    obtain ⟨haccess, hegress⟩ := stop_lt_of_validate hr
    have hcount : (r.context t settings).network.stopCount = t.stopCount :=
      Feed.compile_stopCount h _
    rw [hcount]
    show ∀ c ∈ (if r.arriveBy then r.egress else r.access), _
    split
    · exact hegress
    · exact haccess

/-- Journeys are assembled on the timetable that was searched. -/
theorem suits (h : f.compile = .ok t) (r : Request) (settings : SearchSettings) :
    (r.assembly t settings).Suits (r.context t settings) t where
  valid := Feed.compile_network_valid h
  reverse := Feed.compile_reverse h
  forward := rfl
  network := rfl
  transferSlack := rfl
  access := by
    show (if r.arriveBy then _ else _) = if r.direction = .forward then _ else _
    unfold direction
    cases r.arriveBy <;> rfl
  egress := by
    show (if r.arriveBy then _ else _) = if r.direction = .forward then _ else _
    unfold direction
    cases r.arriveBy <;> rfl

end Request

namespace Request

variable {f : Feed} {t : Timetable} {settings : SearchSettings} {r : Request}

/-- No time arithmetic of a search leaves its range: every time of the timetable
can be negated, and no iteration makes a label by a sum that is cut off. -/
structure Unsaturated (r : Request) (t : Timetable) (settings : SearchSettings)
    (interrupt : SearchInterrupt) (window : Duration) : Prop where
  negatable : ∀ p ∈ t.forward.schedule.patterns.toList, ∀ trip ∈ p.trips, trip.Negatable
  unsaturated : ∀ sample ∈
      ((r.context t settings).sampleTimes settings r.start window).zipIdx,
    (r.context t settings).Unsaturated
      (Iteration.run (r.context t settings) (interrupt (sample.2 + 1)) sample.1).store

theorem Unsaturated.inRange {interrupt : SearchInterrupt} {window : Duration}
    (h : r.Unsaturated t settings interrupt window) {departure : Time} {i : Nat}
    (hi : (departure, i) ∈
      ((r.context t settings).sampleTimes settings r.start window).zipIdx) :
    (r.assembly t settings).InRange (r.context t settings)
      (Iteration.run (r.context t settings) (interrupt (i + 1)) departure).store where
  negatable := Schedule.negatable_pattern h.negatable
  unsaturated := h.unsaturated _ hi

end Request

/-- The window in which a request is searched: its own, or one that is picked for
it. -/
def Request.chooseWindow (r : Request) (t : Timetable) (settings : SearchSettings)
    (interrupt : Interrupt) : Except SearchError Duration :=
  match r.window with
  | some window => .ok window
  | none => (r.context t settings).pickWindow settings interrupt r.start

/-- A search that succeeds was accepted, and its response is put together from
iterations in one window. -/
theorem Timetable.searchWith_eq_ok {t : Timetable} {settings : SearchSettings}
    {interrupt : SearchInterrupt} {r : Request} {response : Response}
    (h : t.searchWith settings interrupt r = .ok response) :
    r.validate t.stopCount settings = .ok () ∧
      ∃ window, r.chooseWindow t settings (interrupt 0) = .ok window ∧
        response = Response.ofYields r settings window
          (((r.context t settings).sampleTimes settings r.start window).zipIdx.map
            fun sample => r.iterate t settings window (interrupt (sample.2 + 1)) sample.1) := by
  unfold searchWith at h
  cases hvalid : r.validate t.stopCount settings with
  | error e =>
      rw [hvalid] at h
      exact absurd h throw_ne_ok
  | ok accepted =>
      rw [hvalid] at h
      unfold Request.chooseWindow
      -- Whether the window was given or picked, the rest is the same.
      cases hgiven : r.window with
      | some given =>
          simp only [hgiven] at h
          obtain ⟨window, hwindow, h⟩ := bind_eq_ok.mp h
          exact ⟨rfl, window, hwindow, (pure_eq_ok.mp h).symm⟩
      | none =>
          simp only [hgiven] at h
          obtain ⟨window, hwindow, h⟩ := bind_eq_ok.mp h
          exact ⟨rfl, window, hwindow, (pure_eq_ok.mp h).symm⟩

/-- Every journey of a response was built from a destination label of one of
the iterations. -/
theorem Timetable.exists_build_of_mem_journeys {t : Timetable} {settings : SearchSettings}
    {interrupt : SearchInterrupt} {r : Request} {response : Response}
    (h : t.searchWith settings interrupt r = .ok response) {j : Journey}
    (hj : j ∈ response.journeys) :
    ∃ departure i, (departure, i) ∈
        ((r.context t settings).sampleTimes settings r.start response.window).zipIdx ∧
      ∃ d ∈ (Iteration.run (r.context t settings) (interrupt (i + 1)) departure).destinations,
        (r.assembly t settings).build?
          (Iteration.run (r.context t settings) (interrupt (i + 1)) departure).store d = some j := by
  obtain ⟨-, window, -, rfl⟩ := searchWith_eq_ok h
  have hfound := Ranking.mem_of_mem_select hj
  obtain ⟨yielded, hyielded, hj⟩ := List.mem_flatMap.mp hfound
  obtain ⟨yielded?, hmem, heq⟩ := List.mem_filterMap.mp hyielded
  obtain ⟨⟨departure, i⟩, hi, hiterate⟩ := List.mem_map.mp hmem
  have hsome : r.iterate t settings window (interrupt (i + 1)) departure = some yielded :=
    hiterate.trans heq
  unfold Request.iterate at hsome
  split at hsome
  · cases hsome
  · obtain rfl := Option.some.inj hsome
    obtain ⟨d, hd, hbuild⟩ := List.mem_filterMap.mp (List.mem_filter.mp hj).1
    exact ⟨departure, i, hi, d, hd, hbuild⟩

/-- Every journey of a response was built from a destination label whose steps
lead from one connector to another. -/
theorem Feed.exists_leads_of_mem_journeys {f : Feed} {t : Timetable} (hf : f.compile = .ok t)
    {settings : SearchSettings} {interrupt : SearchInterrupt} {r : Request} {response : Response}
    (h : t.searchWith settings interrupt r = .ok response) {j : Journey}
    (hj : j ∈ response.journeys) :
    ∃ departure i, (departure, i) ∈
        ((r.context t settings).sampleTimes settings r.start response.window).zipIdx ∧
      ∃ d access first middle last egress,
        (r.assembly t settings).Leads (r.context t settings) departure
          (Iteration.run (r.context t settings) (interrupt (i + 1)) departure).store d
          access first middle last egress ∧
        (r.assembly t settings).build?
          (Iteration.run (r.context t settings) (interrupt (i + 1)) departure).store d =
            some j := by
  obtain ⟨departure, i, hi, d, hd, hbuild⟩ := Timetable.exists_build_of_mem_journeys h hj
  have hctx := Request.context_valid hf (Timetable.searchWith_eq_ok h).1
  obtain ⟨hsound, hdeparture⟩ := Iteration.run_sound hctx (interrupt (i + 1)) departure
  obtain ⟨access, first, middle, last, egress, hleads⟩ :=
    (Request.suits hf r settings).exists_leads hsound.store (hsound.destinations d hd)
  rw [hdeparture] at hleads
  exact ⟨departure, i, hi, d, access, first, middle, last, egress, hleads, hbuild⟩

/-- Every journey of a response is a route of timed rides and walks between two
connectors.  What the search makes sure of at its changes, and moving them keeps,
holds of all its changes. -/
theorem Feed.assembled_of_upholds {f : Feed} {t : Timetable} (hf : f.compile = .ok t)
    {settings : SearchSettings} {interrupt : SearchInterrupt} {r : Request} {response : Response}
    (h : t.searchWith settings interrupt r = .ok response) {R : ChangeRelation}
    (hR : (r.assembly t settings).Durable R)
    (hupholds : ∀ departure i, (departure, i) ∈
        ((r.context t settings).sampleTimes settings r.start response.window).zipIdx →
      (r.assembly t settings).Upholds (r.context t settings)
        (Iteration.run (r.context t settings) (interrupt (i + 1)) departure).store R)
    {j : Journey} (hj : j ∈ response.journeys) : j.Assembled (r.assembly t settings) R := by
  obtain ⟨departure, i, hi, d, access, first, middle, last, egress, hleads, hbuild⟩ :=
    Feed.exists_leads_of_mem_journeys hf h hj
  exact hleads.assembled (Request.suits hf r settings) hR (hupholds departure i hi) hbuild

/-- The changes of a response's journeys can be made, if no time arithmetic of a
search in reverse left its range. -/
theorem Feed.assembled_of_mem_journeys {f : Feed} {t : Timetable} (hf : f.compile = .ok t)
    {settings : SearchSettings} {interrupt : SearchInterrupt} {r : Request} {response : Response}
    (h : t.searchWith settings interrupt r = .ok response)
    (hrange : r.arriveBy = true → r.Unsaturated t settings interrupt response.window)
    {j : Journey} (hj : j ∈ response.journeys) :
    j.Assembled (r.assembly t settings) (r.assembly t settings).Joined := by
  refine Feed.assembled_of_upholds hf h (Assembly.durable_joined _) (fun departure i hi => ?_) hj
  refine (Request.suits hf r settings).upholds_joined fun hreverse => ?_
  exact (hrange (Request.direction_eq_reverse_iff.mp hreverse)).inRange hi

end TransitRouting
