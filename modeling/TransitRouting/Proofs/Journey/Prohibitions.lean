/-
  TransitRouting.Proofs.Journey.Prohibitions
  ──────────────────────────────────────────
  Connections that a rule forbids are on no journey.

  A search asks before it boards, in reverse with the ends of every rule
  exchanged, and asks again before a change is moved to another stop.  What it
  asks about is the trip that was left last, also after a walk.

  Main statement: `Journey.not_forbids_of_mem_journeys` — no two rides of a
  journey follow each other against a rule, whichever the direction of the
  search.
-/
import TransitRouting.Proofs.Journey.Connections

namespace TransitRouting

/-! ## §1. Rules against a connection. -/

/-- A rule forbids to leave the first ride's trip where it is left and to board
the second one's pattern, or just its trip, where that is boarded. -/
def Schedule.Forbids (s : Schedule) (a b : RideLeg) : Prop :=
  ∃ r ∈ s.rules, r.kind = .notAllowed ∧
    r.feeder.trip = some a.tripId ∧ r.feeder.position = a.alightPosition ∧
    r.onward.pattern = b.pattern ∧ r.onward.position = b.boardPosition ∧
    (r.onward.trip = none ∨ r.onward.trip = some b.tripId)

instance (s : Schedule) (a b : RideLeg) : Decidable (s.Forbids a b) :=
  inferInstanceAs (Decidable (∃ r ∈ s.rules, _ ∧ _ ∧ _ ∧ _ ∧ _ ∧ (_ ∨ _)))

/-- What a rule forbids, the search refuses. -/
theorem Network.forbidsTrip_of_forbids {n : Network} {a b : RideLeg} (h : n.schedule.Forbids a b) :
    n.forbidsTrip a.feeder b.pattern b.boardPosition b.tripId = true := by
  obtain ⟨r, hr, hkind, htrip, hposition, hpattern, hboard, htarget⟩ := h
  have happlies : r ∈ n.applicableRules a.feeder b.pattern b.boardPosition :=
    mem_applicableRules.mpr ⟨hr, hposition, Or.inl htrip, hpattern, hboard⟩
  have hcovers : r.onward.covers b.tripId = true := by
    unfold RuleEnd.covers
    rcases htarget with hnone | htarget
    · simp [hnone]
    · simp [htarget]
  unfold forbidsTrip
  rw [List.any_eq_true]
  refine ⟨r, happlies, ?_⟩
  simp [hkind, hcovers]

/-! ## §2. Journeys of a response. -/

/-- No two rides of a journey follow each other, directly or by way of a walk, if
a rule forbids to change from the first one to the second one. -/
theorem Journey.not_forbids_of_mem_journeys {f : Feed} {t : Timetable} (hf : f.compile = .ok t)
    {settings : SearchSettings} {interrupt : SearchInterrupt} {r : Request} {response : Response}
    (h : t.searchWith settings interrupt r = .ok response) {j : Journey}
    (hj : j ∈ response.journeys) {a b : RideLeg} {walk : Option WalkLeg}
    (hchange : j.Changes a walk b) : ¬ t.forward.schedule.Forbids a b := by
  intro hforbids
  have hassembled : j.Assembled (r.assembly t settings) (r.assembly t settings).Lawful := by
    apply Feed.assembled_of_upholds hf h (Assembly.durable_lawful _) _ hj
    intro departure i _
    exact (Request.suits hf r settings).upholds_lawful
  have hlawful : t.forward.forbidsTrip a.feeder b.pattern b.boardPosition b.tripId = false :=
    (hassembled.joined hchange).2.2
  rw [Network.forbidsTrip_of_forbids hforbids] at hlawful
  cases hlawful

/-- A line, and two others that go on from where it ends.  Nobody may change to
the first of them, which is the cheaper one. -/
def Feed.detoured : Feed where
  stops := ["A", "B", "C"]
  patterns :=
    [{ id := "feeder"
       stops := [0, 1]
       noBoarding := []
       noAlighting := []
       minTransferTime := none
       trips := [⟨"f", [0, 600].map Time.saturate, [0, 600].map Time.saturate, 0, 1.0⟩] },
     { id := "closed"
       stops := [1, 2]
       noBoarding := []
       noAlighting := []
       minTransferTime := none
       trips := [⟨"c", [700, 900].map Time.saturate, [700, 900].map Time.saturate, 0, 1.0⟩] },
     { id := "open"
       stops := [1, 2]
       noBoarding := []
       noAlighting := []
       minTransferTime := none
       trips := [⟨"o", [800, 1100].map Time.saturate, [800, 1100].map Time.saturate, 0, 1.0⟩] }]
  footpaths := []
  rules := [⟨"f", 1, none, some "closed", 0, .notAllowed, Duration.zero⟩]

/-- To arrive with the trip of the third line. -/
def Request.detoured : Request where
  access := [⟨0, Duration.zero, none⟩]
  egress := [⟨2, Duration.zero, none⟩]
  time := Time.saturate 1100
  arriveBy := true
  window := some (Duration.saturate 60)
  maxTransfers := 5
  costs := CostWeights.standard
  merge := GroupMerge.union

/-- Searching in reverse, one changes to the open line. -/
theorem Journey.not_forbids_detoured :
    ∃ response, Feed.detoured.timetable.search .standard .detoured = .ok response ∧
      response.journeys.map Journey.tripIds = [[0, 2]] ∧
      ∃ j ∈ response.journeys, ∃ a b, j.Changes a none b ∧
        ¬ Feed.detoured.timetable.forward.schedule.Forbids a b := by
  have hanswer : ∃ response ∈ (Feed.detoured.timetable.search .standard .detoured).toOption,
      response.journeys.map Journey.tripIds = [[0, 2]] ∧
        ∃ j ∈ response.journeys, ∃ a ∈ j.rides, ∃ b ∈ j.rides, j.Changes a none b := by
    decide +kernel
  have hcompile : Feed.detoured.compile = .ok Feed.detoured.timetable :=
    Feed.compile_eq_timetable (by decide +kernel)
  obtain ⟨response, hresponse, htrips, j, hj, a, -, b, -, hchange⟩ := hanswer
  have hsearch := Checks.eq_ok_of_toOption hresponse
  have hallowed := Journey.not_forbids_of_mem_journeys hcompile hsearch hj hchange
  exact ⟨response, hsearch, htrips, j, hj, a, b, hchange, hallowed⟩

end TransitRouting
