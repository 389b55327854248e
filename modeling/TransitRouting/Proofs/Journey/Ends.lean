/-
  TransitRouting.Proofs.Journey.Ends
  ──────────────────────────────────
  When a journey starts and ends.

  One leaves the origin just in time for the first ride and gets to the
  destination right after the last one.  The search was at the stop of the first
  ride before that left, so no journey departs before the iteration that found
  it, on the timeline of the search.

  Main statements:

    • `Assembly.Leads.ends` — moving changes does not touch the two ends;
    • `Assembly.Leads.departure_le` — a journey departs no earlier than its
      iteration.
-/
import TransitRouting.Proofs.Journey.WellFormed

namespace TransitRouting

/-! ## §1. Ways that stay in range. -/

namespace Time

/-- Whoever gets somewhere in time left early enough. -/
theorem le_sub_of_add_le {x y : Time} {d : Duration} (hd : x.CanAdd d) (h : x + d ≤ y) :
    x ≤ y - d := by
  have := x.le_greatest
  have := y.le_greatest
  unfold CanAdd at hd
  rw [le_def] at h ⊢
  simp only [add_seconds, sub_seconds] at h ⊢
  omega

/-- The same on the negated timeline, where the way comes after the time. -/
theorem le_neg_add_of_add_le {x y : Time} {d : Duration} (hd : x.CanAdd d) (h : x + d ≤ -y) :
    x ≤ -(y + d) := by
  have := x.least_le
  have := y.least_le
  unfold CanAdd at hd
  rw [le_def] at h ⊢
  simp only [add_seconds, neg_seconds] at h ⊢
  omega

end Time

/-- The search was at the stop of its first ride before that left. -/
theorem SearchContext.Starts.ready_le {ctx : SearchContext} {departure : Time} {c : Connector}
    {x : Label × Ride} (h : ctx.Starts departure c x) :
    c ∈ ctx.access ∧ departure + c.duration ≤ x.2.boardTime := by
  obtain ⟨origin, index, hc, horigin, happroach, -, -, hcharges⟩ := h
  obtain ⟨c', index', -, -, harrival, happroach', -⟩ := mem_seeds horigin
  have hduration : c'.duration = c.duration := by
    rw [happroach] at happroach'
    exact (Approach.access.inj happroach').2.symm
  refine ⟨List.mem_of_getElem? (List.mem_zipIdx_iff_getElem?.mp hc), ?_⟩
  rw [← hduration, ← harrival]
  exact hcharges.ready_le

/-! ## §2. The ends of a journey. -/

namespace Assembly

variable {a : Assembly} {ctx : SearchContext} {t : Timetable} {s : LabelStore} {departure : Time}
  {d : Label} {access egress : Connector} {first last : Label × Ride} {middle : List Step}

/-- A journey along a route of segments starts before its first ride and ends after
its last one. -/
theorem SegmentRoute.finish_ends {R : ChangeRelation} {x y : RideLeg} {segments : List Segment}
    (h : a.SegmentRoute R x segments y) (access egress : Connector) :
    (a.finish access segments egress).merit.departure = x.boardTime - access.duration ∧
      (a.finish access segments egress).merit.arrival = y.alightTime + egress.duration := by
  constructor
  · obtain ⟨rest, rfl⟩ := h.exists_eq_cons
    rfl
  · show (a.legsFrom _ segments).2 + egress.duration = _
    rw [(h.legsFrom _).2]

/-- A journey of which no change was moved starts before the first ride that the
search took and ends after the last one. -/
theorem Leads.finish_ends (hsuits : a.Suits ctx t)
    (h : a.Leads ctx departure s d access first middle last egress) :
    (a.finish access (a.segments none middle) egress).merit.departure =
        (a.time (a.stepOf first.2) none).boardTime - access.duration ∧
      (a.finish access (a.segments none middle) egress).merit.arrival =
        (a.time (a.stepOf last.2) none).alightTime + egress.duration := by
  obtain ⟨ready, hroute⟩ := h.travels.segments hsuits (hsuits.upholds_lawful (s := s)) none
  exact hroute.finish_ends access egress

/-- It does so as well if changes were moved. -/
theorem Leads.ends (hsuits : a.Suits ctx t)
    (h : a.Leads ctx departure s d access first middle last egress) {j : Journey}
    (hj : a.build? s d = some j) :
    j.merit.departure = (a.time (a.stepOf first.2) none).boardTime - access.duration ∧
      j.merit.arrival = (a.time (a.stepOf last.2) none).alightTime + egress.duration := by
  rw [h.build?_eq] at hj
  obtain rfl := Option.some.inj hj
  split
  · obtain ⟨ready, hroute⟩ := h.travels.segments hsuits (hsuits.upholds_lawful (s := s)) none
    obtain ⟨x, y, hslid, hstart, hend⟩ := hroute.slideChanges (durable_lawful a)
    obtain ⟨hdeparture, harrival⟩ := hslid.finish_ends access egress
    exact ⟨hdeparture.trans (by rw [← hstart.boardTime]),
      harrival.trans (by rw [← hend.alightTime]; rfl)⟩
  · exact h.finish_ends hsuits

/-- A journey departs no earlier than the iteration that found it, on the timeline of
the search, as long as the way to the first stop stays in range. -/
theorem Leads.departure_le (hsuits : a.Suits ctx t)
    (hrange : ∀ c ∈ ctx.access, departure.CanAdd c.duration)
    (h : a.Leads ctx departure s d access first middle last egress) {j : Journey}
    (hj : a.build? s d = some j) : departure ≤ j.timelineDeparture a.direction := by
  obtain ⟨hdeparture, harrival⟩ := h.ends hsuits hj
  have hframed := h.framed
  cases hd : a.direction with
  | forward =>
      rw [hd] at hframed
      obtain ⟨haccess, hready⟩ := hframed.1.ready_le
      obtain ⟨-, -, hboard, -⟩ := hsuits.runs_forward hd h.travels.runs_first none
      show departure ≤ j.merit.departure
      rw [hdeparture, hboard]
      exact Time.le_sub_of_add_le (hrange _ haccess) hready
  | reverse =>
      -- The search in reverse starts with the last ride.
      rw [hd] at hframed
      obtain ⟨haccess, hready⟩ := hframed.1.ready_le
      obtain ⟨-, -, hboard, -⟩ := hsuits.runs_reverse hd h.travels.runs_last none
      show departure ≤ -j.merit.arrival
      rw [harrival]
      rw [hboard] at hready
      exact Time.le_neg_add_of_add_le (hrange _ haccess) hready

end Assembly

end TransitRouting
