/-
  TransitRouting.Proofs.Journey.Segments
  ──────────────────────────────────────
  Timing the steps of a route, and moving its changes to other stops.

  Timing gives every ride the times of the schedule.  Moving a change gives
  both rides new ends on the trips that they are on, at a pair of halts where
  the change can be made in time on the real timeline.  A ride that is moved at
  one end stays as it was at the other, so the changes before and after are not
  touched.

  Main statements:

    • `SlidingContext.of_cheapestChange?` — a change that was moved leads from
      one ride to the other, the second ride is caught, and no rule forbids it;
    • `Assembly.SegmentRoute.slideChanges_marked` — moving all changes of a
      route gives a route that starts and ends in the same way, with marks on
      the rides to which changes were moved.
-/
import TransitRouting.Proofs.Journey.Steps

namespace TransitRouting

/-! ## §1. Moving one change. -/

namespace SlidingContext

variable {ctx : SlidingContext}

theorem mem_of_cheapestBelow {limit : Cost} {pairs : List (RideLeg × RideLeg)}
    {pair : RideLeg × RideLeg} (h : cheapestBelow limit pairs = some pair) : pair ∈ pairs := by
  refine mem_of_foldl_pick (fun best? other => ?_) h
  by_cases hcheaper : pairCost other < (best?.map pairCost).getD limit
  · exact Or.inl (if_pos hcheaper)
  · exact Or.inr (if_neg hcheaper)

/-- Whoever is ready in time at the new halts catches the second ride there. -/
theorem catches_of_readiness? {before after : RideLeg} {alight board : Nat} {ready time : Time}
    {rule : Option RuleKind} (h : ctx.readiness? before after alight board = some (ready, rule))
    (hle : ready ≤ time) :
    ctx.network.Catches (ctx.slackFor after.pattern) ⟨before.pattern, before.tripId, alight⟩
      after.pattern board after.tripId
      (((ctx.network.pattern before.pattern).trip before.trip).arrivalAt alight) time rule := by
  unfold readiness? at h
  simp only at h
  cases hruling : ctx.network.ruling ⟨before.pattern, before.tripId, alight⟩ after.pattern
      board with
  | forbidden =>
      rw [hruling] at h
      cases h
  | unrestricted =>
      rw [hruling] at h
      cases h
      exact hle
  | override kind minTransferTime target =>
      rw [hruling] at h
      simp only at h
      split at h
      · next hcovers =>
          cases h
          exact ⟨minTransferTime, target, hruling, hcovers, hle⟩
      · cases h
        exact hle

/-- The positions that are common to two rides: halts of both at one stop, after the first
one is boarded and before the second one is left, other than those in use. -/
theorem mem_commonHalts_iff {before after : RideLeg} {alight board : Nat} :
    (alight, board) ∈ ctx.commonHalts before after ↔
      before.boardPosition < alight ∧
        (ctx.network.pattern before.pattern).canAlight alight = true ∧
        board < after.alightPosition ∧
        (ctx.network.pattern after.pattern).canBoard board = true ∧
        (ctx.network.pattern after.pattern).stopAt board =
          (ctx.network.pattern before.pattern).stopAt alight ∧
        ¬ (alight = before.alightPosition ∧ board = after.boardPosition) := by
  unfold commonHalts Pattern.laterPositions
  simp only [List.mem_flatMap, List.mem_map, List.mem_filter, List.mem_range'_1, List.mem_range,
    Prod.mk.injEq, Bool.and_eq_true, Bool.not_eq_true', Bool.and_eq_false_iff, decide_eq_true_eq,
    decide_eq_false_iff_not]
  constructor
  · rintro ⟨alight, ⟨hlater, hcanAlight⟩, board, ⟨hearlier, ⟨hcanBoard, hstop⟩, hother⟩, rfl, rfl⟩
    refine ⟨by omega, hcanAlight, hearlier, hcanBoard, hstop, ?_⟩
    rintro ⟨halight, hboard⟩
    exact hother.elim (· halight) (· hboard)
  · rintro ⟨hlater, hcanAlight, hearlier, hcanBoard, hstop, hother⟩
    have hlength := Pattern.lt_length_of_canAlight hcanAlight
    refine ⟨alight, ⟨by omega, hcanAlight⟩, board, ⟨hearlier, ⟨hcanBoard, hstop⟩, ?_⟩, rfl, rfl⟩
    exact not_and_or.mp hother

/-- The positions where a change can be made are halts of both rides, at one
stop. -/
theorem of_mem_commonHalts {before after : RideLeg} {alight board : Nat}
    (h : (alight, board) ∈ ctx.commonHalts before after) :
    before.boardPosition < alight ∧ alight < (ctx.network.pattern before.pattern).length ∧
      (ctx.network.pattern before.pattern).canAlight alight = true ∧
      board < after.alightPosition ∧ (ctx.network.pattern after.pattern).canBoard board = true ∧
      (ctx.network.pattern after.pattern).stopAt board =
        (ctx.network.pattern before.pattern).stopAt alight := by
  obtain ⟨hlater, hcanAlight, hearlier, hcanBoard, hstop, -⟩ := mem_commonHalts_iff.mp h
  exact ⟨hlater, Pattern.lt_length_of_canAlight hcanAlight, hcanAlight, hearlier, hcanBoard, hstop⟩

/-- Two rides with the change between them made elsewhere. -/
structure Moved (ctx : SlidingContext) (before after before' after' : RideLeg) : Prop where
  runs_before : ctx.network.schedule.Runs before'
  runs_after : ctx.network.schedule.Runs after'
  sameStart : before.SameStart before'
  sameEnd : after.SameEnd after'
  connects : ctx.network.schedule.Connects before' none after'
  catches : ctx.Catches before' none after'
  lawful : ctx.network.forbidsTrip before'.feeder after'.pattern after'.boardPosition
    after'.tripId = false

theorem of_changeAt? {before after before' after' : RideLeg} {alight board : Nat}
    (hbefore : ctx.network.schedule.Runs before) (hafter : ctx.network.schedule.Runs after)
    (hhalts : (alight, board) ∈ ctx.commonHalts before after)
    (h : ctx.changeAt? before after alight board = some (before', after')) :
    ctx.Moved before after before' after' := by
  obtain ⟨hlater, hlength, hcanAlight, hearlier, hcanBoard, hstop⟩ := of_mem_commonHalts hhalts
  unfold changeAt? at h
  obtain ⟨⟨earliest, rule⟩, hready, h⟩ := Option.bind_eq_some_iff.mp h
  simp only at h
  split at h
  · cases h
  · next hdeparts =>
      split at h
      · cases h
      · next hallowed =>
        have hlawful := Bool.not_eq_true _ |>.mp hallowed
        -- Each ride keeps the end that was not moved.
        obtain ⟨rfl, rfl⟩ := Prod.mk.inj (Option.some.inj h)
        exact {
          runs_before := ⟨hbefore.trip_lt, hbefore.tripId_eq, hbefore.canBoard, hcanAlight, hlater,
            hlength, hbefore.boardStop_eq, rfl, hbefore.boardTime_eq, rfl⟩
          runs_after := ⟨hafter.trip_lt, hafter.tripId_eq, hcanBoard, hafter.canAlight, hearlier,
            hafter.alight_lt, hstop.symm, hafter.alightStop_eq, rfl, hafter.alightTime_eq⟩
          sameStart := ⟨rfl, rfl, rfl, rfl, rfl, rfl, rfl⟩
          sameEnd := ⟨rfl, rfl, rfl, rfl, rfl, rfl⟩
          connects := rfl
          catches := catches_of_readiness? hready (Time.not_lt.mp hdeparts)
          lawful := hlawful }

/-- A change that was moved is one that can be made. -/
theorem of_cheapestChange? {before after before' after' : RideLeg}
    (hbefore : ctx.network.schedule.Runs before) (hafter : ctx.network.schedule.Runs after)
    (h : ctx.cheapestChange? before after = some (before', after')) :
    ctx.Moved before after before' after' := by
  have hmem := mem_of_cheapestBelow h
  obtain ⟨⟨alight, board⟩, hhalts, hchange⟩ := List.mem_filterMap.mp hmem
  exact of_changeAt? hbefore hafter hhalts hchange

end SlidingContext

/-! ## §2. Routes of segments. -/

/-- The segment of a walk along a footpath. -/
def Footpath.toSegment (path : Footpath) : Segment :=
  .walk path.origin path.destination path.duration

namespace Assembly

/-- Timed rides and walks, one after the other, with a relation that holds of
every change. -/
def SegmentRoute (a : Assembly) (R : ChangeRelation) : RideLeg → List Segment → RideLeg → Prop :=
  Itinerary Segment.ride Footpath.toSegment a.network.schedule.Runs R

/-- The relation depends on how the first ride ends and how the second one
starts, and holds of changes that were moved. -/
structure Durable (a : Assembly) (R : ChangeRelation) : Prop where
  congr : ∀ {x x' y y' : RideLeg} {walk : Option Footpath}, R x walk y → x.SameEnd x' →
    y.SameStart y' → R x' walk y'
  moved : ∀ {x x' y y' : RideLeg}, a.Moved x y x' y' → R x' none y'

theorem durable_joined (a : Assembly) : a.Durable a.Joined where
  congr := fun h hend hstart => h.congr hend hstart
  moved := fun h => ⟨h.connects, fun _ => h.catches, fun _ => h.catches.either⟩

theorem durable_lawful (a : Assembly) : a.Durable a.Lawful where
  congr := fun h hend hstart => h.congr hend hstart
  moved := fun h => h.lawful

variable {a : Assembly} {ctx : SearchContext} {t : Timetable} {s : LabelStore} {R : ChangeRelation}

/-- The ride of a step runs on the schedule, whenever the traveller is ready. -/
theorem Suits.runs (h : a.Suits ctx t) {x : Label × Ride} (hx : ctx.network.Brings x.1 x.2)
    (ready : Option Time) : a.network.schedule.Runs (a.time (a.stepOf x.2) ready) := by
  cases hdirection : a.direction with
  | forward => exact (h.runs_forward hdirection hx ready).1
  | reverse => exact (h.runs_reverse hdirection hx ready).1

/-- The segments of a ride, the way to the next one, and the steps from there on. -/
theorem segments_change (r : RideStep) (walk : Option (Label × Footpath)) (steps : List Step)
    (ready : Option Time) :
    a.segments ready (.ride r :: ((walk.map fun w => (a.pathOf w.2).toStep).toList ++ steps)) =
      .ride (a.time r ready) ::
        ((((walk.map Prod.snd).map a.pathOf).map Footpath.toSegment).toList ++
          a.segments (some ((a.time r ready).readyAfter ((walk.map Prod.snd).map a.pathOf)))
            steps) := by
  cases walk <;> rfl

/-- Timing the steps of a search gives a route of segments. -/
theorem Travels.segments (hsuits : a.Suits ctx t) (hR : a.Upholds ctx s R) {x y : Label × Ride}
    {steps : List Step} (h : a.Travels ctx s x steps y) (ready : Option Time) :
    ∃ ready', a.SegmentRoute R (a.time (a.stepOf x.2) ready) (a.segments ready steps)
      (a.time (a.stepOf y.2) ready') := by
  unfold Travels at h
  induction h using Itinerary.change_induction generalizing ready with
  | @single x hx => exact ⟨ready, .single (hsuits.runs hx ready)⟩
  | @change x z y walk steps hx hxz hrest ih =>
      -- Whoever changes is ready for the second ride when the way to it ends.
      obtain ⟨ready', hroute⟩ := ih (some ((a.time (a.stepOf x.2) ready).readyAfter
        ((walk.map Prod.snd).map a.pathOf)))
      rw [segments_change]
      exact ⟨ready', .cons (hsuits.runs hx ready) (hR hx hrest.runs_first hxz ready _) hroute⟩

/-! ## §3. Moving all changes of a route. -/

/-- Rides that carry a mark if the change to them was moved. -/
abbrev MarkedRelation := RideLeg × Bool → Option Footpath → RideLeg × Bool → Prop

/-- Timed rides and walks, one after the other, with a relation that holds of
every change and takes note of the marks. -/
def MarkedRoute (a : Assembly) (R : MarkedRelation) :
    RideLeg × Bool → List Segment → RideLeg × Bool → Prop :=
  Itinerary (fun x => Segment.ride x.1) Footpath.toSegment
    (fun x => a.network.schedule.Runs x.1) R

/-- What holds of the changes of a route turns into what holds of them once they
may have been moved, the last one first. -/
structure Tracks (a : Assembly) (R : ChangeRelation) (R' : MarkedRelation) : Prop where
  /-- A change that stays where it is, though the next one may have been moved. -/
  kept : ∀ {x y y' : RideLeg} {walk : Option Footpath}, R x walk y → y.SameStart y' →
    R' (x, false) walk (y', false)
  /-- A change that is moved. -/
  moved : ∀ {x x' y y' z : RideLeg}, R x none y → y.SameStart y' → a.Moved x y' x' z →
    R' (x', false) none (z, true)
  /-- The change after one that is moved. -/
  later : ∀ {x x' y z : RideLeg} {walk : Option Footpath} {q : RideLeg × Bool},
    a.Moved x y x' z → R' (y, false) walk q → R' (z, true) walk q

/-- Moving the changes of a route to other stops gives a route that starts and
ends in the same way.  A last ride that is not marked names the rule that it
named. -/
theorem SegmentRoute.slideChanges_marked {R' : MarkedRelation} (hR : a.Tracks R R')
    {x y : RideLeg} {segments : List Segment} (h : a.SegmentRoute R x segments y) :
    ∃ x' y', a.MarkedRoute R' (x', false) (a.slideChanges segments) y' ∧ x.SameStart x' ∧
      y.SameEnd y'.1 ∧ (y'.2 = false → y'.1.rule = y.rule) := by
  unfold SegmentRoute at h
  induction h with
  | @single x hx => exact ⟨x, (x, false), .single hx, .refl x, .refl x, fun _ => rfl⟩
  | @direct x y z segments hx hxy hrest ih =>
      obtain ⟨y', z', hroute, hstart, hend, hrule⟩ := ih
      obtain ⟨others, hothers⟩ := hroute.exists_eq_cons
      rw [hothers] at hroute
      show ∃ x' y', a.MarkedRoute R' (x', false) (a.slideChanges (.ride x :: segments)) y' ∧ _
      unfold Assembly.slideChanges
      rw [hothers]
      simp only
      cases hchange : a.cheapestChange? x y' with
      | none =>
          -- The second ride may start elsewhere by now, where one can change to it as well.
          exact ⟨x, z', .direct hx (hR.kept hxy hstart) hroute, .refl x, hend, hrule⟩
      | some pair =>
          obtain ⟨x₂, y₂⟩ := pair
          have hmoved := SlidingContext.of_cheapestChange? hx hroute.runs_first hchange
          have hchanged := hR.moved hxy hstart hmoved
          -- The second ride ends as before, so the change after it still can be made.
          rcases hroute.restart (c := (y₂, true)) hmoved.runs_after fun hnext =>
            hR.later hmoved hnext with hroute' | ⟨rfl, hroute'⟩
          · exact ⟨x₂, z', .direct hmoved.runs_before hchanged hroute', hmoved.sameStart, hend,
              hrule⟩
          · exact ⟨x₂, (y₂, true), .direct hmoved.runs_before hchanged hroute', hmoved.sameStart,
              hend.trans hmoved.sameEnd, fun hmark => by cases hmark⟩
  | @walking x y z path segments hx hxy hrest ih =>
      obtain ⟨y', z', hroute, hstart, hend, hrule⟩ := ih
      exact ⟨x, z', .walking hx (hR.kept hxy hstart) hroute, .refl x, hend, hrule⟩

/-- A durable relation takes no note of marks. -/
theorem Durable.tracks (hR : a.Durable R) : a.Tracks R fun x walk y => R x.1 walk y.1 where
  kept := fun h hstart => hR.congr h (.refl _) hstart
  moved := fun _ _ hmoved => hR.moved hmoved
  later := fun hmoved hnext => hR.congr hnext hmoved.sameEnd (.refl _)

/-- What holds of the changes of a route, and of changes that were moved, holds
of all changes afterwards. -/
theorem SegmentRoute.slideChanges (hR : a.Durable R) {x y : RideLeg} {segments : List Segment}
    (h : a.SegmentRoute R x segments y) :
    ∃ x' y', a.SegmentRoute R x' (a.slideChanges segments) y' ∧ x.SameStart x' ∧
      y.SameEnd y' := by
  obtain ⟨x', y', hroute, hstart, hend, -⟩ := h.slideChanges_marked hR.tracks
  -- The marks are dropped.
  have hplain : a.SegmentRoute R x' ((a.slideChanges segments).map id) y'.1 := by
    unfold MarkedRoute at hroute
    refine Itinerary.map id Prod.fst id ?_ ?_ ?_ hroute
    · intro r hr
      exact ⟨rfl, hr⟩
    · intro p w q _
      rfl
    · intro p w q _ _ hjoined
      rw [Option.map_id]
      exact hjoined
  rw [List.map_id] at hplain
  exact ⟨x', y'.1, hplain, hstart, hend⟩

end Assembly

end TransitRouting
