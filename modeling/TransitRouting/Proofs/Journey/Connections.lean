/-
  TransitRouting.Proofs.Journey.Connections
  ─────────────────────────────────────────
  The time that a journey leaves for changing from one trip to the next.

  One who changes is at the stop before the next trip leaves, with the time for
  changing to its pattern to spare, or with the time of a rule that covers the
  connection.  A forward search makes sure of this for every change of its
  journeys, and moving changes to other stops keeps it.

  A search in reverse boards the trip that is left on the real timeline, and so
  asks for the time for changing to that trip's pattern.  What it finds is
  right where that time is no shorter than the time for changing to the trip
  that is really boarded, and may be too tight elsewhere.

  Main statements:

    • `Journey.feasible_of_forward` — the changes of a forward search;
    • `Journey.keepsTransferTime_of_reverse` — those of a search in reverse;
    • `Journey.not_keepsTransferTime_tightChange` — a change that a search in
      reverse leaves too little time for.
-/
import TransitRouting.Proofs.Journey.WellFormed

namespace TransitRouting

/-! ## §1. Changes on a journey. -/

/-- The second ride follows the first one, directly or by way of the walk. -/
def Journey.Changes (j : Journey) (a : RideLeg) (walk : Option WalkLeg) (b : RideLeg) : Prop :=
  .ride a :: ((walk.map Leg.walk).toList ++ [.ride b]) <:+: j.legs

instance (j : Journey) (a : RideLeg) (walk : Option WalkLeg) (b : RideLeg) :
    Decidable (j.Changes a walk b) :=
  inferInstanceAs (Decidable (_ <:+: _))

/-- When one who left the ride, and then walked if there is a walk, is ready. -/
def RideLeg.readyBy (a : RideLeg) (walk : Option WalkLeg) : Time :=
  a.readyAfter (walk.map WalkLeg.footpath)

namespace Schedule

/-- The time for changing to a pattern, where `slack` is the usual one. -/
def transferTime (s : Schedule) (slack : Duration) (pattern : Nat) : Duration :=
  (s.pattern pattern).minTransferTime.getD slack

/-- A rule of the given kind, about leaving the first ride's trip where it is
left and boarding the second one's where it is boarded, gives enough time. -/
def Allows (s : Schedule) (kind : RuleKind) (a : RideLeg) (walk : Option WalkLeg) (b : RideLeg) :
    Prop :=
  ∃ r ∈ s.rules, r.kind = kind ∧ kind.overrides = true ∧
    r.feeder = ⟨a.pattern, a.alightPosition, some a.tripId⟩ ∧
    r.onward.pattern = b.pattern ∧ r.onward.position = b.boardPosition ∧
    (r.onward.trip = none ∨ r.onward.trip = some b.tripId) ∧
    a.readyBy walk + r.minTransferTime ≤ b.boardTime

/-- There is enough time to change: by the rule that the second ride names, or
by the time for changing to its pattern if it names none. -/
def Feasible (s : Schedule) (slack : Duration) (a : RideLeg) (walk : Option WalkLeg)
    (b : RideLeg) : Prop :=
  match b.rule with
  | none => a.readyBy walk + s.transferTime slack b.pattern ≤ b.boardTime
  | some kind => s.Allows kind a walk b

/-- There is the time for changing to the second ride's pattern, or that of some
rule. -/
def KeepsTransferTime (s : Schedule) (slack : Duration) (a : RideLeg) (walk : Option WalkLeg)
    (b : RideLeg) : Prop :=
  a.readyBy walk + s.transferTime slack b.pattern ≤ b.boardTime ∨ ∃ kind, s.Allows kind a walk b

end Schedule

/-! ## §2. Changes of assembled journeys. -/

namespace Journey

/-- What stands between the two connectors of a journey. -/
theorem infix_of_framed {access egress : ConnectorLeg} {middle xs : List Leg} {p q : RideLeg}
    (h : Leg.ride p :: (xs ++ [Leg.ride q]) <:+:
      Leg.access access :: (middle ++ [Leg.egress egress])) :
    ∃ ys zs, middle = ys ++ Leg.ride p :: (xs ++ Leg.ride q :: zs) := by
  obtain ⟨before, after, heq⟩ := h
  cases before with
  | nil => cases (List.cons.inj heq).1
  | cons leg before =>
      have htail : before ++ (Leg.ride p :: xs) ++ [Leg.ride q] ++ after =
          middle ++ [Leg.egress egress] := by
        simpa using (List.cons.inj heq).2
      -- The last leg is no ride, so it comes after the second one.
      rcases List.eq_nil_or_concat after with rfl | ⟨after, last, rfl⟩
      · rw [List.append_nil] at htail
        cases (List.append_singleton_inj.mp htail).2
      · rw [List.concat_eq_append, ← List.append_assoc] at htail
        refine ⟨before, after, ?_⟩
        rw [← (List.append_singleton_inj.mp htail).1]
        simp

/-- Two rides that follow each other on an assembled journey run, and the change
from one to the other is as all changes are. -/
theorem Assembled.joined {asm : Assembly} {R : ChangeRelation} {j : Journey}
    (h : j.Assembled asm R) {a b : RideLeg} {walk : Option WalkLeg}
    (hchange : j.Changes a walk b) :
    asm.network.schedule.Runs a ∧ asm.network.schedule.Runs b ∧
      R a (walk.map WalkLeg.footpath) b := by
  obtain ⟨access, first, middle, last, egress, hlegs, hroute, -⟩ := h.exists_route
  unfold Changes at hchange
  rw [hlegs] at hchange
  obtain ⟨ys, zs, hmiddle⟩ := infix_of_framed hchange
  have hruns : ∀ l, Leg.ride l ∈ middle → asm.network.schedule.Runs l := by
    intro l hl
    rcases hroute.of_mem hl with ⟨l', hruns, heq⟩ | ⟨_, _, _, -, heq⟩
    · obtain rfl := Leg.ride.inj heq
      exact hruns
    · cases heq
  have hjoined := hroute.joined_of_eq_append (fun h => Leg.ride.inj h) (fun h => Leg.walk.inj h)
    (fun h => by cases h) hmiddle
  exact ⟨hruns a (by simp [hmiddle]), hruns b (by simp [hmiddle]), hjoined.1⟩

/-- The first ride of an assembled journey of a forward search needs no rule. -/
theorem Assembled.rule_eq_none {asm : Assembly} {R : ChangeRelation} {j : Journey}
    (h : j.Assembled asm R) (hforward : asm.direction = .forward) {first : RideLeg}
    (hfirst : j.rides.head? = some first) :
    first.rule = none := by
  obtain ⟨access, ride, middle, last, egress, hlegs, hroute, -, -, -, -, -, -, -, hrule⟩ :=
    h.exists_route
  obtain ⟨rest, rfl⟩ := hroute.exists_eq_cons
  unfold rides at hfirst
  rw [hlegs] at hfirst
  obtain rfl := Option.some.inj hfirst
  exact hrule hforward

end Journey

/-- A rule that applies to a connection names the trip that is left, and where. -/
theorem Feed.of_mem_applicableRules {f : Feed} {t : Timetable} (hf : f.compile = .ok t)
    {feeder : Feeder} {pattern position : Nat}
    (hserves : t.forward.schedule.Serves feeder.pattern feeder.trip) {r : Rule}
    (hr : r ∈ t.forward.applicableRules feeder pattern position) :
    r ∈ t.forward.schedule.rules ∧
      r.feeder = ⟨feeder.pattern, feeder.position, some feeder.trip⟩ ∧
      r.onward.pattern = pattern ∧ r.onward.position = position := by
  have hn := Feed.compile_valid hf
  obtain ⟨hmem, hposition, htrip, hpattern, hposition'⟩ := Network.mem_applicableRules.mp hr
  have hnamedTrip : r.feeder.trip = some feeder.trip := by
    rcases htrip with htrip | ⟨hnone, -⟩
    · exact htrip
    · have hsome := Feed.compile_feeder_isSome hf hmem
      rw [hnone] at hsome
      cases hsome
  -- The trip that the rule names runs on one pattern only.
  have hhome : r.feeder.pattern = feeder.pattern :=
    hn.home_unique ((hn.ends r hmem).1.serves _ hnamedTrip) hserves
  have hfeeder : r.feeder = ⟨feeder.pattern, feeder.position, some feeder.trip⟩ := by
    rw [← hhome, ← hnamedTrip, ← hposition]
  exact ⟨hmem, hfeeder, hpattern, hposition'⟩

/-- An end that covers a trip is for all trips or for that one. -/
theorem RuleEnd.trip_eq_of_covers {e : RuleEnd} {trip : Nat} (h : e.covers trip = true) :
    e.trip = none ∨ e.trip = some trip := by
  unfold covers at h
  cases hnamed : e.trip with
  | none => exact Or.inl rfl
  | some id =>
      rw [hnamed] at h
      simp only [Option.all_some, decide_eq_true_eq] at h
      exact Or.inr (congrArg some h)

/-- A rule that applies to a change and covers the trip that is boarded allows
the change in its time. -/
theorem Feed.allows_of_mem_applicableRules {f : Feed} {t : Timetable} (hf : f.compile = .ok t)
    {a b : RideLeg} {walk : Option WalkLeg} (ha : t.forward.schedule.Runs a) {r : Rule}
    (hr : r ∈ t.forward.applicableRules a.feeder b.pattern b.boardPosition)
    (hoverrides : r.kind.overrides = true) (hcovers : r.onward.covers b.tripId = true)
    (hle : a.readyBy walk + r.minTransferTime ≤ b.boardTime) :
    t.forward.schedule.Allows r.kind a walk b := by
  obtain ⟨hmem, hfeeder, hpattern, hposition⟩ := Feed.of_mem_applicableRules hf ha.serves hr
  exact ⟨r, hmem, rfl, hoverrides, hfeeder, hpattern, hposition,
    RuleEnd.trip_eq_of_covers hcovers, hle⟩

/-! ## §3. Searching forward. -/

/-- The first ride of a journey that departs after a time needs no rule, and
every change on it leaves enough time, whether or not it was moved to another
stop. -/
theorem Journey.feasible_of_forward {f : Feed} {t : Timetable} (hf : f.compile = .ok t)
    {settings : SearchSettings} {interrupt : SearchInterrupt} {r : Request} {response : Response}
    (hdepart : r.arriveBy = false) (h : t.searchWith settings interrupt r = .ok response)
    {j : Journey} (hj : j ∈ response.journeys) :
    (∀ first, j.rides.head? = some first → first.rule = none) ∧
      ∀ a walk b, j.Changes a walk b →
        t.forward.schedule.Feasible settings.slackDuration a walk b := by
  have hassembled := Feed.assembled_of_mem_journeys hf h
    (fun harrive => by rw [hdepart] at harrive; cases harrive) hj
  have hforward : (r.assembly t settings).direction = .forward :=
    Request.direction_eq_forward_iff.mpr hdepart
  refine ⟨fun first hfirst => hassembled.rule_eq_none hforward hfirst, ?_⟩
  intro a walk b hchange
  obtain ⟨hrunsA, -, hjoined⟩ := hassembled.joined hchange
  have hcatches := hjoined.catches hforward
  unfold SlidingContext.Catches Network.Catches at hcatches
  unfold Schedule.Feasible
  cases hrule : b.rule with
  | none =>
      rw [hrule] at hcatches
      exact hcatches
  | some kind =>
      rw [hrule] at hcatches
      obtain ⟨q, hq, hoverrides, rfl, hcovers, hle⟩ := hcatches.exists_rule
      exact Feed.allows_of_mem_applicableRules hf hrunsA hq hoverrides hcovers hle

/-- Two lines that meet.  The second one waits for the first. -/
def Feed.connection : Feed where
  stops := ["A", "B", "C"]
  patterns :=
    [{ id := "first"
       stops := [0, 1]
       noBoarding := []
       noAlighting := []
       minTransferTime := none
       trips := [⟨"f", [0, 600].map Time.saturate, [0, 600].map Time.saturate, 0, 1.0⟩] },
     { id := "second"
       stops := [1, 2]
       noBoarding := []
       noAlighting := []
       minTransferTime := none
       trips := [⟨"s", [600, 1000].map Time.saturate, [600, 1000].map Time.saturate, 0, 1.0⟩] }]
  footpaths := []
  rules := [⟨"f", 1, some "s", none, 0, .guaranteed, Duration.zero⟩]

theorem Feed.compile_connection : Feed.connection.compile = .ok Feed.connection.timetable :=
  Feed.compile_eq_timetable (by decide +kernel)

/-- To depart with the trip of the first line. -/
def Request.connection : Request where
  access := [⟨0, Duration.zero, none⟩]
  egress := [⟨2, Duration.zero, none⟩]
  time := Time.midnight
  arriveBy := false
  window := some (Duration.saturate 60)
  maxTransfers := 5
  costs := CostWeights.standard
  merge := GroupMerge.union

/-- The second trip leaves as the first one arrives, and is caught. -/
theorem Journey.feasible_connection :
    ∃ response, Feed.connection.timetable.search .standard .connection = .ok response ∧
      ∃ j ∈ response.journeys, ∃ a b, j.Changes a none b ∧ b.rule = some .guaranteed ∧
        Feed.connection.timetable.forward.schedule.Feasible
          SearchSettings.standard.slackDuration a none b := by
  have hanswer : ∃ response ∈ (Feed.connection.timetable.search .standard .connection).toOption,
      ∃ j ∈ response.journeys, ∃ a ∈ j.rides, ∃ b ∈ j.rides,
        j.Changes a none b ∧ b.rule = some .guaranteed := by decide +kernel
  obtain ⟨response, hresponse, j, hj, a, -, b, -, hchange, hrule⟩ := hanswer
  have hsearch := Checks.eq_ok_of_toOption hresponse
  have hfeasible :=
    (Journey.feasible_of_forward Feed.compile_connection rfl hsearch hj).2 a none b hchange
  exact ⟨response, hsearch, j, hj, a, b, hchange, hrule, hfeasible⟩

/-! ## §4. Searching in reverse. -/

/-- A change on a journey that arrives by a time leaves the time for changing to
one of its two patterns, or that of a rule.  It leaves the time for changing to
the second one wherever that is no longer than the time for changing to the
first one. -/
theorem Journey.keepsTransferTime_of_reverse {f : Feed} {t : Timetable} (hf : f.compile = .ok t)
    {settings : SearchSettings} {interrupt : SearchInterrupt} {r : Request} {response : Response}
    (harrive : r.arriveBy = true) (h : t.searchWith settings interrupt r = .ok response)
    (hrange : r.Unsaturated t settings interrupt response.window)
    {j : Journey} (hj : j ∈ response.journeys) {a b : RideLeg} {walk : Option WalkLeg}
    (hchange : j.Changes a walk b) :
    (t.forward.schedule.KeepsTransferTime settings.slackDuration a walk b ∨
        a.readyBy walk + t.forward.schedule.transferTime settings.slackDuration a.pattern ≤
          b.boardTime) ∧
      (t.forward.schedule.transferTime settings.slackDuration b.pattern ≤
          t.forward.schedule.transferTime settings.slackDuration a.pattern →
        t.forward.schedule.KeepsTransferTime settings.slackDuration a walk b) := by
  have hassembled := Feed.assembled_of_mem_journeys hf h (fun _ => hrange) hj
  have hreverse : (r.assembly t settings).direction = .reverse :=
    Request.direction_eq_reverse_iff.mpr harrive
  obtain ⟨hrunsA, -, hjoined⟩ := hassembled.joined hchange
  have hkept : t.forward.schedule.KeepsTransferTime settings.slackDuration a walk b ∨
      a.readyBy walk + t.forward.schedule.transferTime settings.slackDuration a.pattern ≤
        b.boardTime := by
    rcases hjoined.either hreverse with ⟨q, hq, hoverrides, hcovers, hle⟩ | hle | hle
    · have hallows := Feed.allows_of_mem_applicableRules hf hrunsA hq hoverrides hcovers hle
      exact Or.inl (Or.inr ⟨q.kind, hallows⟩)
    · exact Or.inl (Or.inl hle)
    · exact Or.inr hle
  refine ⟨hkept, fun hshorter => ?_⟩
  -- The time that was kept is long enough.
  rcases hkept with hkept | hle
  · exact hkept
  · exact Or.inl (Time.le_trans (Time.add_le_add (Time.le_refl _) hshorter) hle)

/-- The walk on the way across town. -/
def WalkLeg.acrossTown : WalkLeg where
  origin := 1
  destination := 2
  departure := Time.saturate 600
  arrival := Time.saturate 720
  duration := Duration.saturate 120
  cost := ⟨24000⟩

/-- There is time to change after the walk. -/
theorem Journey.keepsTransferTime_acrossTown :
    ∃ response, Feed.acrossTown.timetable.search .standard .acrossTown = .ok response ∧
      ∃ j ∈ response.journeys, ∃ a b, j.Changes a (some .acrossTown) b ∧
        Feed.acrossTown.timetable.forward.schedule.KeepsTransferTime
          SearchSettings.standard.slackDuration a (some .acrossTown) b := by
  have hanswer : ∃ response ∈ (Feed.acrossTown.timetable.search .standard .acrossTown).toOption,
      response.window = Duration.saturate 60 ∧ ∃ j ∈ response.journeys, ∃ a ∈ j.rides,
        ∃ b ∈ j.rides, j.Changes a (some .acrossTown) b ∧
          Feed.acrossTown.timetable.forward.schedule.transferTime
              SearchSettings.standard.slackDuration b.pattern ≤
            Feed.acrossTown.timetable.forward.schedule.transferTime
              SearchSettings.standard.slackDuration a.pattern := by decide +kernel
  obtain ⟨response, hresponse, hwindow, j, hj, a, -, b, -, hchange, hshorter⟩ := hanswer
  have hsearch := Checks.eq_ok_of_toOption hresponse
  have hrange : Request.acrossTown.Unsaturated Feed.acrossTown.timetable .standard
      (fun _ => Interrupt.never) response.window := by
    rw [hwindow]
    exact ⟨by decide +kernel, by decide +kernel⟩
  have hkeeps :=
    (Journey.keepsTransferTime_of_reverse Feed.compile_acrossTown rfl hsearch hrange hj hchange).2
  exact ⟨response, hsearch, j, hj, a, b, hchange, hkeeps hshorter⟩

/-- Two lines that meet.  Changing to the second one takes ten minutes, and its
trip leaves after less than two. -/
def Feed.tightChange : Feed where
  stops := ["A", "B", "C"]
  patterns :=
    [{ id := "P"
       stops := [0, 1]
       noBoarding := []
       noAlighting := []
       minTransferTime := none
       trips := [⟨"p1", [0, 600].map Time.saturate, [0, 600].map Time.saturate, 0, 1.0⟩] },
     { id := "Q"
       stops := [1, 2]
       noBoarding := []
       noAlighting := []
       minTransferTime := some (Duration.saturate 600)
       trips := [⟨"q1", [700, 1000].map Time.saturate, [700, 1000].map Time.saturate, 0, 1.0⟩] }]
  footpaths := []
  rules := []

/-- To arrive with the trip of the second line. -/
def Request.tightChange : Request where
  access := [⟨0, Duration.zero, none⟩]
  egress := [⟨2, Duration.zero, none⟩]
  time := Time.saturate 1000
  arriveBy := true
  window := some (Duration.saturate 60)
  maxTransfers := 5
  costs := CostWeights.standard
  merge := GroupMerge.union

/-- A search in reverse changes to the second line all the same. -/
theorem Journey.not_keepsTransferTime_tightChange :
    ∃ response, Feed.tightChange.timetable.search .standard .tightChange = .ok response ∧
      ∃ j ∈ response.journeys, ∃ a b, j.Changes a none b ∧
        ¬ Feed.tightChange.timetable.forward.schedule.KeepsTransferTime
          SearchSettings.standard.slackDuration a none b := by
  have hanswer : ∃ response ∈ (Feed.tightChange.timetable.search .standard .tightChange).toOption,
      ∃ j ∈ response.journeys, ∃ a ∈ j.rides, ∃ b ∈ j.rides, j.Changes a none b ∧
        ¬ a.readyBy none + Feed.tightChange.timetable.forward.schedule.transferTime
          SearchSettings.standard.slackDuration b.pattern ≤ b.boardTime := by decide +kernel
  have hrules : Feed.tightChange.timetable.forward.schedule.rules = [] := by decide +kernel
  obtain ⟨response, hresponse, j, hj, a, -, b, -, hchange, htight⟩ := hanswer
  refine ⟨response, Checks.eq_ok_of_toOption hresponse, j, hj, a, b, hchange, ?_⟩
  intro hgiven
  rcases hgiven with hle | ⟨kind, q, hq, -⟩
  · exact htight hle
  · rw [hrules] at hq
    cases hq

end TransitRouting
