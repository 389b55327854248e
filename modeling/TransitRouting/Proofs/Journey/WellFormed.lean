/-
  TransitRouting.Proofs.Journey.WellFormed
  ────────────────────────────────────────
  The legs of a journey fit together.

  A journey leads from an access connector over rides and walks to an egress
  connector.  Every ride keeps to the schedule, every walk follows a footpath,
  and every leg starts where and when the one before it ends, save that a ride
  other than the first may be waited for.

  Main statement: `Journey.wellFormed_of_mem_journeys` — every journey of a
  response is of this form, whichever the direction of the search, and whether
  or not changes were moved to cheaper stops.
-/
import TransitRouting.Proofs.Journey.Results

namespace TransitRouting

/-! ## §1. Legs that fit together. -/

/-- The footpath that a walk follows. -/
def WalkLeg.footpath (w : WalkLeg) : Footpath := ⟨w.origin, w.destination, w.duration⟩

namespace Leg

/-- The stop where the leg starts; a way from the origin starts at none. -/
def origin? : Leg → Option Nat
  | access _ => none
  | ride l => some l.boardStop
  | walk l => some l.origin
  | egress l => some l.stop

/-- The stop where the leg ends; a way to the destination ends at none. -/
def destination? : Leg → Option Nat
  | access l => some l.stop
  | ride l => some l.alightStop
  | walk l => some l.destination
  | egress _ => none

/-- The second leg follows the first one: at the same stop and no earlier, at
once unless it is a ride other than the first, and not on foot again. -/
structure Precedes (a b : Leg) : Prop where
  meets : ∃ stop, a.destination? = some stop ∧ b.origin? = some stop
  arrival_le : a.arrival ≤ b.departure
  waits : a.arrival = b.departure ∨ (∃ l, b = ride l) ∧ ∀ l, a ≠ access l
  walks_once : ∀ v w, ¬ (a = walk v ∧ b = walk w)

/-- A leg that starts at once follows any leg, but not a walk on a walk. -/
theorem Precedes.at_once {a b : Leg} {stop : Nat} (ha : a.destination? = some stop)
    (hb : b.origin? = some stop) (htime : a.arrival = b.departure)
    (hwalks : ∀ v w, ¬ (a = walk v ∧ b = walk w)) : a.Precedes b where
  meets := ⟨stop, ha, hb⟩
  arrival_le := by
    rw [htime]
    exact Time.le_refl _
  waits := Or.inl htime
  walks_once := hwalks

/-- A ride may be waited for after a ride or a walk. -/
theorem Precedes.waiting {a : Leg} {l : RideLeg} (ha : a.destination? = some l.boardStop)
    (htime : a.arrival ≤ l.boardTime) (haccess : ∀ c, a ≠ access c) : a.Precedes (ride l) where
  meets := ⟨l.boardStop, ha, rfl⟩
  arrival_le := htime
  waits := Or.inr ⟨⟨l, rfl⟩, haccess⟩
  walks_once := fun _ _ hwalks => by cases hwalks.2

end Leg

namespace Journey

/-- A journey from door to door on a schedule. -/
structure WellFormed (s : Schedule) (j : Journey) : Prop where
  /-- The first leg leads to a ride that is boarded at once, the last leg leads
  to the destination, and they tell when the journey starts and ends. -/
  framed : ∃ access first rest egress,
    j.legs = .access access :: .ride first :: (rest ++ [.egress egress]) ∧
      (∀ leg ∈ rest, (∃ l, leg = .ride l) ∨ ∃ l, leg = .walk l) ∧
      access.arrival = first.boardTime ∧
      j.merit.departure = access.departure ∧ j.merit.arrival = egress.arrival
  /-- Rides keep to the schedule. -/
  rides : ∀ l, .ride l ∈ j.legs → s.Runs l
  /-- Walks follow footpaths. -/
  walks : ∀ l, .walk l ∈ j.legs →
    l.footpath ∈ s.footpaths ∧ l.arrival = l.departure + l.duration
  /-- Every leg follows the one before it. -/
  chain : j.legs.IsChain Leg.Precedes
  /-- The journey costs what its legs cost. -/
  cost_eq : j.merit.cost = Cost.sum (j.legs.map Leg.cost)

end Journey

/-! ## §2. Routes of legs. -/

namespace Assembly

/-- A change of which a relation holds, with a walk right after the first ride if
there is one. -/
def Changes (R : ChangeRelation) (x : RideLeg) (walk : Option WalkLeg) (y : RideLeg) : Prop :=
  R x (walk.map WalkLeg.footpath) y ∧
    ∀ w ∈ walk, w.departure = x.alightTime ∧ w.arrival = w.departure + w.duration

/-- Legs on board trips and on foot, one after the other. -/
def LegRoute (a : Assembly) (R : ChangeRelation) : RideLeg → List Leg → RideLeg → Prop :=
  Itinerary Leg.ride Leg.walk a.network.schedule.Runs (Changes R)

variable {a : Assembly} {R : ChangeRelation}

theorem legsFrom_rides (clock : Time) (segments : List Segment) :
    (a.legsFrom clock segments).1.filterMap Leg.ride? = segments.filterMap Segment.ride? := by
  induction segments generalizing clock with
  | nil => rfl
  | cons segment segments ih =>
      cases segment with
      | ride l => exact congrArg (l :: ·) (ih l.alightTime)
      | walk origin destination d => exact ih (clock + d)

/-- The legs of the segments stand between two connectors. -/
theorem finish_legs (access egress : Connector) (segments : List Segment) :
    ∃ start clock finish, (a.finish access segments egress).legs =
      Leg.access start :: ((a.legsFrom clock segments).1 ++ [Leg.egress finish]) :=
  ⟨_, _, _, rfl⟩

/-- The rides of a journey are those of its segments. -/
theorem rides_finish (access egress : Connector) (segments : List Segment) :
    (a.finish access segments egress).rides = segments.filterMap Segment.ride? := by
  obtain ⟨start, clock, finish, hlegs⟩ := a.finish_legs access egress segments
  unfold Journey.rides
  rw [hlegs, List.filterMap_cons, List.filterMap_append, legsFrom_rides]
  exact List.append_nil _

/-- The legs of a route end when its last ride does. -/
theorem SegmentRoute.legsFrom {x y : RideLeg} {segments : List Segment}
    (h : a.SegmentRoute R x segments y) (clock : Time) :
    a.LegRoute R x (a.legsFrom clock segments).1 y ∧
      (a.legsFrom clock segments).2 = y.alightTime := by
  unfold SegmentRoute at h
  induction h generalizing clock with
  | single hx => exact ⟨.single hx, rfl⟩
  | @direct x y z segments hx hxy hrest ih =>
      obtain ⟨hroute, hend⟩ := ih x.alightTime
      exact ⟨.direct hx ⟨hxy, fun _ hw => absurd hw (by simp)⟩ hroute, hend⟩
  | @walking x y z path segments hx hxy hrest ih =>
      obtain ⟨hroute, hend⟩ := ih (x.alightTime + path.duration)
      refine ⟨.walking hx ⟨hxy, ?_⟩ hroute, hend⟩
      intro w hw
      obtain rfl := Option.some.inj hw
      exact ⟨rfl, rfl⟩

/-- The legs of a route follow each other. -/
theorem LegRoute.isChain_precedes {x y : RideLeg} {legs : List Leg}
    (h : a.LegRoute a.Joined x legs y) : legs.IsChain Leg.Precedes := by
  refine h.isChain (fun {p q} hchange => ?_) (fun {p w q} hchange => ?_)
  · have hstop : (Leg.ride p).destination? = some q.boardStop := congrArg some hchange.1.connects
    exact .waiting hstop hchange.1.readyAfter_le fun _ hp => by cases hp
  · obtain ⟨hjoined, hwalk⟩ := hchange
    obtain ⟨-, horigin, hdestination⟩ := hjoined.connects
    obtain ⟨hdeparture, harrival⟩ := hwalk w rfl
    have hready : w.arrival ≤ q.boardTime := by
      rw [harrival, hdeparture]
      exact hjoined.readyAfter_le
    constructor
    · exact .at_once rfl (congrArg some horigin) hdeparture.symm fun _ _ hwalks => by
        cases hwalks.1
    · exact .waiting (congrArg some hdestination) hready fun _ hp => by cases hp

end Assembly

/-! ## §3. Journeys that were assembled. -/

namespace Journey

/-- The legs of an assembled journey are a route between two connectors. -/
theorem Assembled.exists_route {a : Assembly} {R : ChangeRelation} {j : Journey}
    (h : j.Assembled a R) :
    ∃ access first middle last egress,
      j.legs = Leg.access access :: (middle ++ [Leg.egress egress]) ∧
      a.LegRoute R first middle last ∧
      access.stop = first.boardStop ∧ access.arrival = first.boardTime ∧
      last.alightStop = egress.stop ∧ egress.departure = last.alightTime ∧
      j.merit.departure = access.departure ∧ j.merit.arrival = egress.arrival ∧
      j.merit.cost = Cost.sum (j.legs.map Leg.cost) ∧
      (a.direction = .forward → first.rule = none) := by
  obtain ⟨access, first, segments, last, egress, hroute, rfl, -, -, hstart, hend, hrule⟩ := h
  obtain ⟨rest, hrest⟩ := hroute.exists_eq_cons
  have hfirst : first.boardTime =
      ((segments.filterMap Segment.ride?).head?.map (·.boardTime)).getD Time.midnight := by
    rw [hrest]
    rfl
  obtain ⟨hlegs, hfinish⟩ := hroute.legsFrom first.boardTime
  -- The clock starts with the first ride.
  rw [hfirst] at hlegs hfinish
  exact ⟨_, first, _, last, _, rfl, hlegs, hstart, hfirst.symm, hend, hfinish, rfl, rfl, rfl, hrule⟩

/-- An assembled journey whose changes can be made is well formed. -/
theorem Assembled.wellFormed {a : Assembly} {j : Journey} (h : j.Assembled a a.Joined) :
    j.WellFormed a.network.schedule := by
  obtain ⟨access, first, middle, last, egress, hlegs, hroute, hstart, hatOnce, hend, hleave,
    hdeparture, harrival, hcost, -⟩ := h.exists_route
  obtain ⟨rest, rfl⟩ := hroute.exists_eq_cons
  have hmiddle : ∀ leg ∈ Leg.ride first :: rest,
      (∃ l, a.network.schedule.Runs l ∧ leg = .ride l) ∨
        ∃ x l y, Assembly.Changes a.Joined x (some l) y ∧ leg = .walk l :=
    fun leg hleg => hroute.of_mem hleg
  refine ⟨?_, ?_, ?_, ?_, hcost⟩
  · refine ⟨access, first, rest, egress, hlegs, ?_, hatOnce, hdeparture, harrival⟩
    intro leg hleg
    rcases hmiddle leg (List.mem_cons_of_mem _ hleg) with ⟨l, -, rfl⟩ | ⟨_, l, _, -, rfl⟩
    · exact Or.inl ⟨l, rfl⟩
    · exact Or.inr ⟨l, rfl⟩
  · intro l hl
    rw [hlegs] at hl
    have hmem : Leg.ride l ∈ Leg.ride first :: rest := by simpa using hl
    rcases hmiddle _ hmem with ⟨l', hruns, heq⟩ | ⟨_, _, _, -, heq⟩
    · obtain rfl := Leg.ride.inj heq
      exact hruns
    · cases heq
  · intro l hl
    rw [hlegs] at hl
    have hmem : Leg.walk l ∈ Leg.ride first :: rest := by simpa using hl
    rcases hmiddle _ hmem with ⟨_, -, heq⟩ | ⟨_, l', _, ⟨hjoined, hwalk⟩, heq⟩
    · cases heq
    · obtain rfl := Leg.walk.inj heq
      exact ⟨hjoined.connects.1, (hwalk l rfl).2⟩
  · rw [hlegs]
    have hfirst : (Leg.access access).Precedes (.ride first) :=
      .at_once rfl (congrArg some hstart.symm) hatOnce fun _ _ hwalks => by cases hwalks.1
    have hlast : (Leg.ride last).Precedes (.egress egress) :=
      .at_once rfl (congrArg some hend.symm) hleave.symm fun _ _ hwalks => by cases hwalks.1
    refine List.IsChain.cons_cons hfirst (List.isChain_append.mpr
      ⟨hroute.isChain_precedes, .singleton _, ?_⟩)
    rw [hroute.getLast?_eq]
    intro x hx y hy
    obtain rfl := Option.some.inj hx
    obtain rfl := Option.some.inj hy
    exact hlast

end Journey

/-! ## §4. Journeys of a response. -/

/-- Every journey of a response is well formed, whichever the direction of the
search, as long as no time arithmetic of a search in reverse leaves its
range. -/
theorem Journey.wellFormed_of_mem_journeys {f : Feed} {t : Timetable} (hf : f.compile = .ok t)
    {settings : SearchSettings} {interrupt : SearchInterrupt} {r : Request} {response : Response}
    (h : t.searchWith settings interrupt r = .ok response)
    (hrange : r.arriveBy = true → r.Unsaturated t settings interrupt response.window)
    {j : Journey} (hj : j ∈ response.journeys) : j.WellFormed t.forward.schedule := by
  have hassembled := Feed.assembled_of_mem_journeys hf h hrange hj
  exact hassembled.wellFormed

/-- Two lines with a walk from one to the other. -/
def Feed.acrossTown : Feed where
  stops := ["A", "B", "C", "D"]
  patterns :=
    [{ id := "east"
       stops := [0, 1]
       noBoarding := []
       noAlighting := []
       minTransferTime := none
       trips := [⟨"e", [0, 600].map Time.saturate, [0, 600].map Time.saturate, 0, 1.0⟩] },
     { id := "west"
       stops := [2, 3]
       noBoarding := []
       noAlighting := []
       minTransferTime := none
       trips := [⟨"w", [900, 1500].map Time.saturate, [900, 1500].map Time.saturate, 0, 1.0⟩] }]
  footpaths := [⟨1, 2, Duration.saturate 120⟩]
  rules := []

theorem Feed.compile_acrossTown : Feed.acrossTown.compile = .ok Feed.acrossTown.timetable :=
  Feed.compile_eq_timetable (by decide +kernel)

/-- To arrive at the last stop with the trip of the second line. -/
def Request.acrossTown : Request where
  access := [⟨0, Duration.saturate 30, none⟩]
  egress := [⟨3, Duration.zero, none⟩]
  time := Time.saturate 1500
  arriveBy := true
  window := some (Duration.saturate 60)
  maxTransfers := 5
  costs := CostWeights.standard
  merge := GroupMerge.union

/-- It is answered with one journey, on both lines. -/
theorem Timetable.search_acrossTown :
    ∃ response, Feed.acrossTown.timetable.search .standard .acrossTown = .ok response ∧
      response.journeys.map Journey.tripIds = [[0, 1]] ∧
      response.window = Duration.saturate 60 := by
  have hanswer : (Feed.acrossTown.timetable.search .standard .acrossTown).toOption.map
      (fun response => (response.journeys.map Journey.tripIds, response.window)) =
        some ([[0, 1]], Duration.saturate 60) := by decide +kernel
  obtain ⟨response, hresponse, heq⟩ := Option.map_eq_some_iff.mp hanswer
  obtain ⟨htrips, hwindow⟩ := Prod.mk.inj heq
  exact ⟨response, Checks.eq_ok_of_toOption hresponse, htrips, hwindow⟩

/-- Searching in reverse, one takes both lines, and walks. -/
theorem Journey.wellFormed_acrossTown :
    ∃ response, Feed.acrossTown.timetable.search .standard .acrossTown = .ok response ∧
      response.journeys.map Journey.tripIds = [[0, 1]] ∧
      ∀ j ∈ response.journeys, j.WellFormed Feed.acrossTown.timetable.forward.schedule := by
  obtain ⟨response, hsearch, htrips, hwindow⟩ := Timetable.search_acrossTown
  refine ⟨response, hsearch, htrips, fun j hj => ?_⟩
  refine Journey.wellFormed_of_mem_journeys Feed.compile_acrossTown hsearch (fun _ => ?_) hj
  rw [hwindow]
  exact ⟨by decide +kernel, by decide +kernel⟩

end TransitRouting
