/-
  TransitRouting.Proofs.Journey.Timeline
  ──────────────────────────────────────
  From the timeline of a search to the real one.

  A forward search sees every ride as it is, from its start to its end.  A
  search in reverse sees the same rides backwards, on the negated timeline and
  between halts that are counted from the other end.  Either way the labels of
  a trail become steps that run on the schedule and are joined on the real
  timeline, as long as no sum of times left its range.  That no rule forbids a
  change does not depend on any time.

  Main statements:

    • `Assembly.Suits.terms_eq` — a search in reverse changes on the terms on which
      the change is made on the timeline;
    • `Assembly.Suits.upholds_joined` — the changes of a trail, in either
      direction, are changes on the timeline;
    • `Assembly.Suits.upholds_lawful` — and no rule forbids them.
-/
import TransitRouting.Proofs.Boarding.Opposites
import TransitRouting.Proofs.Journey.Legs
import TransitRouting.Proofs.Journey.Trails

namespace TransitRouting

/-! ## §1. Assemblies that suit a search. -/

/-- The journeys are assembled on the timetable that was searched. -/
structure Assembly.Suits (a : Assembly) (ctx : SearchContext) (t : Timetable) : Prop where
  valid : ∀ d, (t.network d).Valid
  reverse : t.reverse.schedule = t.forward.schedule.reversed
  forward : a.network = t.forward
  network : ctx.network = t.network a.direction
  transferSlack : a.transferSlack = ctx.transferSlack
  /-- A forward search starts at the origin, one in reverse at the destination. -/
  access : ctx.access = if a.direction = .forward then a.access else a.egress
  egress : ctx.egress = if a.direction = .forward then a.egress else a.access

/-- The step of a ride that was found in the direction of the assembly. -/
def Assembly.stepOf (a : Assembly) (r : Ride) : RideStep :=
  r.toStep a.direction (a.network.pattern r.pattern)

/-- The footpath on the real timeline: a search in reverse walks it backwards. -/
def Assembly.pathOf (a : Assembly) (path : Footpath) : Footpath :=
  match a.direction with
  | .forward => path
  | .reverse => path.reversed

/-- The search changed between two rides, which are given in the order of
travel. -/
def Assembly.Changed (a : Assembly) (ctx : SearchContext) (s : LabelStore)
    (before : Label × Ride) (walk : Option (Label × Footpath)) (after : Label × Ride) : Prop :=
  match a.direction with
  | .forward => ctx.Changes s after walk before
  | .reverse => ctx.Changes s before walk after

/-- The relation holds of all changes of the search, on the real timeline. -/
def Assembly.Upholds (a : Assembly) (ctx : SearchContext) (s : LabelStore)
    (R : ChangeRelation) : Prop :=
  ∀ {before after : Label × Ride} {walk : Option (Label × Footpath)},
    ctx.network.Brings before.1 before.2 → ctx.network.Brings after.1 after.2 →
    a.Changed ctx s before walk after → ∀ rx ry,
      R (a.time (a.stepOf before.2) rx) ((walk.map Prod.snd).map a.pathOf)
        (a.time (a.stepOf after.2) ry)

theorem Label.toStep_ride {l : Label} {r : Ride} (h : l.approach = .ride r) (d : Direction)
    (n : Network) : l.toStep d n = .ride (r.toStep d (n.pattern r.pattern)) := by
  unfold Label.toStep
  rw [h]

namespace Assembly

variable {a : Assembly} {ctx : SearchContext} {t : Timetable} {s : LabelStore}

theorem Suits.network_valid (h : a.Suits ctx t) : ctx.network.Valid :=
  h.network ▸ h.valid a.direction

theorem Suits.slackFor_eq (h : a.Suits ctx t) (pattern : Nat) :
    (a.network.pattern pattern).minTransferTime.getD ctx.transferSlack = a.slackFor pattern := by
  unfold SlidingContext.slackFor
  rw [h.transferSlack]

/-! ## §2. Searching forward. -/

theorem Suits.network_forward (h : a.Suits ctx t) (hd : a.direction = .forward) :
    ctx.network = a.network := by
  rw [h.network, hd, h.forward]
  rfl

theorem stepOf_forward (hd : a.direction = .forward) (r : Ride) :
    a.stepOf r = ⟨r.pattern, r.trip, r.boardPosition, r.alightPosition, r.rule⟩ := by
  unfold stepOf
  rw [hd]
  rfl

theorem pathOf_forward (hd : a.direction = .forward) : a.pathOf = id := by
  funext path
  unfold pathOf
  rw [hd]
  rfl

/-- The leg of a ride that a forward search found is that ride. -/
theorem Suits.runs_forward (h : a.Suits ctx t) (hd : a.direction = .forward) {l : Label}
    {r : Ride} (hbrings : ctx.network.Brings l r) (ready : Option Time) :
    a.network.schedule.Runs (a.time (a.stepOf r) ready) ∧
      (a.time (a.stepOf r) ready).tripId = r.tripId ∧
      (a.time (a.stepOf r) ready).boardTime = r.boardTime ∧
      (a.time (a.stepOf r) ready).alightTime = l.arrival ∧
      (a.time (a.stepOf r) ready).alightStop = l.stop := by
  rw [h.network_forward hd] at hbrings
  rw [stepOf_forward hd]
  obtain ⟨-, hcarries, hstop, harrival⟩ := hbrings
  exact ⟨⟨hcarries.trip_lt, rfl, hcarries.canBoard, hcarries.canAlight, hcarries.board_lt_alight,
    hcarries.alight_lt, rfl, rfl, rfl, rfl⟩, hcarries.tripId_eq.symm, hcarries.boardTime_eq.symm,
    harrival.symm, hstop.symm⟩

/-- Whoever changed in a forward search was ready when the label says so from
which the next trip was boarded. -/
theorem Suits.readyAfter_forward (h : a.Suits ctx t) (hd : a.direction = .forward)
    {later earlier : Label × Ride} {walk : Option (Label × Footpath)}
    (hearlier : ctx.network.Brings earlier.1 earlier.2)
    (hchange : ctx.Changes s later walk earlier) (rx : Option Time) :
    (a.time (a.stepOf earlier.2) rx).readyAfter (walk.map Prod.snd) =
      (SearchContext.boardedFrom walk earlier).arrival := by
  obtain ⟨-, -, -, hend, -⟩ := h.runs_forward hd hearlier rx
  cases walk with
  | none => exact hend
  | some w =>
      show _ + _ = w.1.arrival
      rw [hend, (hchange.walked w rfl).arrival_eq]

/-- The stops of a change that a search forward made. -/
theorem Suits.connects_forward (h : a.Suits ctx t) (hd : a.direction = .forward)
    {later earlier : Label × Ride} {walk : Option (Label × Footpath)}
    (hearlier : ctx.network.Brings earlier.1 earlier.2)
    (hchange : ctx.Changes s later walk earlier) (rx ry : Option Time) :
    a.network.schedule.Connects (a.time (a.stepOf earlier.2) rx) (walk.map Prod.snd)
      (a.time (a.stepOf later.2) ry) := by
  have hnetwork := h.network_forward hd
  obtain ⟨-, -, -, -, hstop⟩ := h.runs_forward hd hearlier rx
  have hboard : (a.time (a.stepOf later.2) ry).boardStop =
      (SearchContext.boardedFrom walk earlier).stop := by
    rw [← hchange.stop_eq, hnetwork, stepOf_forward hd]
    rfl
  cases walk with
  | none =>
      show (a.time (a.stepOf earlier.2) rx).alightStop = _
      rw [hstop, hboard]
      rfl
  | some w =>
      have hwalks := hchange.walked w rfl
      obtain ⟨hmem, horigin⟩ := h.network_valid.mem_footpathsFrom hwalks.mem_footpaths
      rw [hnetwork] at hmem
      refine ⟨hmem, ?_, ?_⟩
      · rw [hstop]
        exact horigin
      · rw [hboard]
        exact hwalks.stop_eq.symm

/-- It is caught, as the search found. -/
theorem Suits.catches_forward (h : a.Suits ctx t) (hd : a.direction = .forward)
    {later earlier : Label × Ride} {walk : Option (Label × Footpath)}
    (hearlier : ctx.network.Brings earlier.1 earlier.2)
    (hlater : ctx.network.Brings later.1 later.2)
    (hchange : ctx.Changes s later walk earlier) (rx ry : Option Time) :
    a.Catches (a.time (a.stepOf earlier.2) rx) (walk.map Prod.snd)
      (a.time (a.stepOf later.2) ry) := by
  have hcatches := hchange.catches
  obtain ⟨-, htripX, -, -, -⟩ := h.runs_forward hd hearlier rx
  obtain ⟨-, htripY, hstartY, -, -⟩ := h.runs_forward hd hlater ry
  have hfeeder : (a.time (a.stepOf earlier.2) rx).feeder = earlier.2.feeder := by
    unfold RideLeg.feeder
    rw [htripX, stepOf_forward hd]
    rfl
  unfold SlidingContext.Catches
  rw [hfeeder, htripY, h.readyAfter_forward hd hearlier hchange rx, hstartY]
  rw [h.network_forward hd] at hcatches
  unfold SearchContext.slackFor at hcatches
  rw [h.slackFor_eq] at hcatches
  rw [stepOf_forward hd]
  exact hcatches

/-- A change that a forward search made. -/
theorem Suits.joined_forward (h : a.Suits ctx t) (hd : a.direction = .forward)
    {later earlier : Label × Ride} {walk : Option (Label × Footpath)}
    (hlater : ctx.network.Brings later.1 later.2)
    (hearlier : ctx.network.Brings earlier.1 earlier.2)
    (hchange : ctx.Changes s later walk earlier) (rx ry : Option Time) :
    a.Joined (a.time (a.stepOf earlier.2) rx) (walk.map Prod.snd)
      (a.time (a.stepOf later.2) ry) := by
  refine ⟨h.connects_forward hd hearlier hchange rx ry, fun _ => ?_, fun hreverse => ?_⟩
  · exact h.catches_forward hd hearlier hlater hchange rx ry
  · rw [hd] at hreverse
    cases hreverse

end Assembly

/-! ## §3. Sums that stay in range. -/

/-- The time a duration later is in range. -/
def Time.CanAdd (t : Time) (d : Duration) : Prop := t.seconds + d.seconds ≤ 2147483647

instance (t : Time) (d : Duration) : Decidable (t.CanAdd d) :=
  inferInstanceAs (Decidable (_ ≤ _))

/-- What is in time on the negated timeline is in time on the real one. -/
theorem Time.add_le_of_add_neg_le {x y : Time} {d : Duration} (hy : y.seconds ≠ -2147483648)
    (hd : (-y).CanAdd d) (h : -y + d ≤ -x) : x + d ≤ y := by
  have := x.least_le
  have := x.le_greatest
  have := y.least_le
  have := y.le_greatest
  unfold CanAdd at hd
  rw [le_def] at h ⊢
  simp only [add_seconds, neg_seconds] at h hd ⊢
  omega

/-- What is in time after a walk on the negated timeline is in time after it on
the real one. -/
theorem Time.add_add_le_of_add_neg_le {x y : Time} {w d : Duration}
    (hy : y.seconds ≠ -2147483648) (hw : (-y).CanAdd w) (hd : (-y + w).CanAdd d)
    (h : -y + w + d ≤ -x) : x + w + d ≤ y := by
  have := x.least_le
  have := x.le_greatest
  have := y.least_le
  have := y.le_greatest
  unfold CanAdd at hw hd
  rw [le_def] at h ⊢
  simp only [add_seconds, neg_seconds] at h hw hd ⊢
  omega

/-- The times of a trip that can be negated can be negated, at every position. -/
theorem Trip.Negatable.seconds_ne {t : Trip} (h : t.Negatable) (position : Nat) :
    (t.arrivalAt position).seconds ≠ -2147483648 ∧
      (t.departureAt position).seconds ≠ -2147483648 := by
  unfold Trip.arrivalAt Trip.departureAt
  by_cases hlt : position < t.calls.length
  · rw [List.getD_eq_getElem _ _ hlt]
    exact h _ (List.getElem_mem hlt)
  · rw [List.getD_eq_default _ _ (Nat.le_of_not_lt hlt)]
    decide

/-- A ride on trips that can be negated starts and ends at times that can. -/
theorem Schedule.Runs.seconds_ne {s : Schedule}
    (hneg : ∀ number, ∀ trip ∈ (s.pattern number).trips, trip.Negatable) {l : RideLeg}
    (h : s.Runs l) :
    l.boardTime.seconds ≠ -2147483648 ∧ l.alightTime.seconds ≠ -2147483648 := by
  have hcalls := (hneg _ _ (Pattern.trip_mem h.trip_lt)).seconds_ne
  rw [h.boardTime_eq, h.alightTime_eq]
  exact ⟨(hcalls _).2, (hcalls _).1⟩

namespace SearchContext

/-- What is added to the arrival of one who left `feeder` last, when a label is
made from it. -/
def delays (ctx : SearchContext) (feeder : Feeder) : Approach → List Duration
  | .walk _ d => [d]
  | .ride r =>
    ctx.slackFor (ctx.network.pattern r.pattern) ::
      match ctx.network.ruling feeder r.pattern r.boardPosition with
      | .override _ minTransferTime _ => [minTransferTime]
      | _ => []
  | _ => []

/-- No label of the store was made by a sum of times that left its range. -/
def Unsaturated (ctx : SearchContext) (s : LabelStore) : Prop :=
  ∀ round ∈ s.rounds, ∀ l ∈ round.labels.toList, ∀ place ∈ l.parent, ∀ q ∈ s.label? place,
    ∀ f ∈ s.arrivingTrip q, ∀ d ∈ ctx.delays f l.approach, q.arrival.CanAdd d

variable {ctx : SearchContext} {s : LabelStore}

instance : Decidable (ctx.Unsaturated s) :=
  inferInstanceAs (Decidable (∀ round ∈ s.rounds, ∀ l ∈ round.labels.toList, ∀ place ∈ l.parent,
    ∀ q ∈ s.label? place, ∀ f ∈ s.arrivingTrip q, ∀ d ∈ ctx.delays f l.approach,
      q.arrival.CanAdd d))

theorem Unsaturated.canAdd (h : ctx.Unsaturated s) {l q : Label} {f : Feeder} {d : Duration}
    (hl : ∃ place, s.label? place = some l)
    (hq : ∃ place, l.parent = some place ∧ s.label? place = some q)
    (hf : s.arrivingTrip q = some f) (hd : d ∈ ctx.delays f l.approach) : q.arrival.CanAdd d := by
  obtain ⟨at', hat⟩ := hl
  obtain ⟨place, hparent, hstored⟩ := hq
  unfold LabelStore.label? at hat
  obtain ⟨round, hround, hindex⟩ := Option.bind_eq_some_iff.mp hat
  have hmem : l ∈ round.labels.toList := Array.mem_toList_iff.mpr (Array.mem_of_getElem? hindex)
  exact h round (List.mem_of_getElem? hround) l hmem place hparent q hstored f hf d hd

/-- Walking on from a ride stays in range. -/
theorem Unsaturated.canAdd_walk (h : ctx.Unsaturated s) {w : Label × Footpath}
    {earlier : Label × Ride} (hwalks : ctx.Walks s w earlier)
    (hbrings : ctx.network.Brings earlier.1 earlier.2) :
    earlier.1.arrival.CanAdd w.2.duration := by
  refine h.canAdd hwalks.stored hwalks.parent (hbrings.arrivingTrip s) ?_
  rw [hwalks.approach]
  exact List.mem_singleton_self _

/-- Changing to a ride in the usual time stays in range. -/
theorem Unsaturated.canAdd_slack (h : ctx.Unsaturated s) {later earlier : Label × Ride}
    {walk : Option (Label × Footpath)} (hchange : ctx.Changes s later walk earlier)
    (hbrings : ctx.network.Brings later.1 later.2) :
    (boardedFrom walk earlier).arrival.CanAdd
      (ctx.slackFor (ctx.network.pattern later.2.pattern)) := by
  refine h.canAdd hchange.stored hchange.parent hchange.arrivingTrip ?_
  rw [hbrings.approach]
  exact List.mem_cons_self

/-- Changing to a ride in the time of a rule stays in range. -/
theorem Unsaturated.canAdd_rule (h : ctx.Unsaturated s) {later earlier : Label × Ride}
    {walk : Option (Label × Footpath)} (hchange : ctx.Changes s later walk earlier)
    (hbrings : ctx.network.Brings later.1 later.2) {kind : RuleKind} {minTransferTime : Duration}
    {target : Option Nat}
    (hruling : ctx.network.ruling earlier.2.feeder later.2.pattern later.2.boardPosition =
      .override kind minTransferTime target) :
    (boardedFrom walk earlier).arrival.CanAdd minTransferTime := by
  refine h.canAdd hchange.stored hchange.parent hchange.arrivingTrip ?_
  rw [hbrings.approach]
  simp [delays, hruling]

end SearchContext

/-! ## §4. Searching in reverse. -/

namespace Assembly

variable {a : Assembly} {ctx : SearchContext} {t : Timetable} {s : LabelStore}

theorem stepOf_reverse (hd : a.direction = .reverse) (r : Ride) :
    a.stepOf r =
      ⟨r.pattern, Numbering.opposite (a.network.pattern r.pattern).trips.length r.trip,
        Numbering.opposite (a.network.pattern r.pattern).length r.alightPosition,
        Numbering.opposite (a.network.pattern r.pattern).length r.boardPosition, r.rule⟩ := by
  unfold stepOf
  rw [hd]
  rfl

theorem pathOf_reverse (hd : a.direction = .reverse) : a.pathOf = Footpath.reversed := by
  funext path
  unfold pathOf
  rw [hd]

theorem Suits.schedule_reverse (h : a.Suits ctx t) (hd : a.direction = .reverse) :
    ctx.network.schedule = a.network.schedule.reversed := by
  rw [h.network, hd, h.forward]
  exact h.reverse

theorem Suits.pattern_reverse (h : a.Suits ctx t) (hd : a.direction = .reverse) (number : Nat) :
    ctx.network.pattern number = (a.network.pattern number).reversed := by
  unfold Network.pattern
  rw [h.schedule_reverse hd]
  exact Schedule.reversed_pattern _ number

theorem Suits.valid_forward (h : a.Suits ctx t) : a.network.schedule.Valid := by
  rw [h.forward]
  exact (h.valid .forward).schedule

/-- The leg of a ride that a search in reverse found is that ride backwards. -/
theorem Suits.runs_reverse (h : a.Suits ctx t) (hd : a.direction = .reverse) {l : Label}
    {r : Ride} (hbrings : ctx.network.Brings l r) (ready : Option Time) :
    a.network.schedule.Runs (a.time (a.stepOf r) ready) ∧
      (a.time (a.stepOf r) ready).tripId = r.tripId ∧
      r.boardTime = -(a.time (a.stepOf r) ready).alightTime ∧
      l.arrival = -(a.time (a.stepOf r) ready).boardTime ∧
      (a.time (a.stepOf r) ready).boardStop = l.stop := by
  obtain ⟨-, hcarries, hstop, harrival⟩ := hbrings
  have hpattern := h.pattern_reverse hd r.pattern
  have htripLt := hcarries.trip_lt
  have htripId := hcarries.tripId_eq
  have hcanBoard := hcarries.canBoard
  have hcanAlight := hcarries.canAlight
  have hboardTime := hcarries.boardTime_eq
  have hlt := hcarries.board_lt_alight
  have halight := hcarries.alight_lt
  -- What is known of the reversed pattern is said of the pattern as it runs.
  rw [hpattern] at hstop harrival htripLt htripId hcanBoard hcanAlight hboardTime halight
  rw [Pattern.reversed_trips_length] at htripLt
  rw [Pattern.reversed_length] at halight
  have hboard : r.boardPosition < (a.network.pattern r.pattern).length := Nat.lt_trans hlt halight
  rw [Pattern.reversed_trip _ htripLt] at htripId harrival hboardTime
  rw [Pattern.reversed_canBoard _ hboard] at hcanBoard
  rw [Pattern.reversed_canAlight _ halight] at hcanAlight
  rw [Pattern.reversed_stopAt _ halight] at hstop
  have htrip := Numbering.opposite_lt htripLt
  have hcalls : ((a.network.pattern r.pattern).trip
      (Numbering.opposite (a.network.pattern r.pattern).trips.length r.trip)).calls.length =
        (a.network.pattern r.pattern).length :=
    (h.valid_forward.pattern_of_lt_length halight).calls_length _ (Pattern.trip_mem htrip)
  rw [Trip.reversed_arrivalAt _ (by omega), hcalls] at harrival
  rw [Trip.reversed_departureAt _ (by omega), hcalls] at hboardTime
  rw [stepOf_reverse hd]
  have hpositions : Numbering.opposite (a.network.pattern r.pattern).length r.alightPosition <
      Numbering.opposite (a.network.pattern r.pattern).length r.boardPosition := by
    unfold Numbering.opposite
    omega
  exact ⟨⟨htrip, rfl, hcanAlight, hcanBoard, hpositions, Numbering.opposite_lt hboard, rfl, rfl,
    rfl, rfl⟩, htripId.symm, hboardTime, harrival, hstop.symm⟩

/-- The terms on which a search in reverse changed are those of the same change on the
real timeline. -/
theorem Suits.terms_eq (h : a.Suits ctx t) (hd : a.direction = .reverse) {lx ly : Label}
    {later earlier : Ride} (hlater : ctx.network.Brings lx later)
    (hearlier : ctx.network.Brings ly earlier) (rx ry : Option Time) :
    a.network.terms (a.time (a.stepOf later) rx).feeder (a.time (a.stepOf earlier) ry).pattern
        (a.time (a.stepOf earlier) ry).boardPosition (a.time (a.stepOf earlier) ry).tripId =
      ctx.network.terms earlier.feeder later.pattern later.boardPosition later.tripId := by
  obtain ⟨hruns, htrip, -, -, -⟩ := h.runs_reverse hd hlater rx
  obtain ⟨hruns', htrip', -, -, -⟩ := h.runs_reverse hd hearlier ry
  have halight := hearlier.carries.alight_lt
  have hboard := Nat.lt_trans hlater.carries.board_lt_alight hlater.carries.alight_lt
  rw [h.pattern_reverse hd, Pattern.reversed_length] at halight hboard
  have hleft : (a.time (a.stepOf later) rx).feeder.trip = later.tripId := htrip
  rw [Network.terms_eq_reversed h.valid_forward (h.schedule_reverse hd)
    (f := (a.time (a.stepOf later) rx).feeder) hruns.serves hruns.alight_lt hruns'.serves
    (Nat.lt_trans hruns'.board_lt_alight hruns'.alight_lt), hleft, htrip', stepOf_reverse hd,
    stepOf_reverse hd]
  -- Positions that are counted from the other end twice are the same again.
  show ctx.network.terms ⟨earlier.pattern, earlier.tripId,
      Numbering.opposite (a.network.pattern earlier.pattern).length
        (Numbering.opposite (a.network.pattern earlier.pattern).length earlier.alightPosition)⟩
      later.pattern (Numbering.opposite (a.network.pattern later.pattern).length
        (Numbering.opposite (a.network.pattern later.pattern).length later.boardPosition)) _ = _
  rw [Numbering.opposite_opposite halight, Numbering.opposite_opposite hboard]
  rfl

/-- A rule by which a search in reverse changed applies to the same change on
the real timeline. -/
theorem Suits.exists_applicable (h : a.Suits ctx t) (hd : a.direction = .reverse)
    {later earlier : Ride} {lx ly : Label} (hlater : ctx.network.Brings lx later)
    (hearlier : ctx.network.Brings ly earlier) {q : Rule}
    (hq : q ∈ ctx.network.applicableRules earlier.feeder later.pattern later.boardPosition)
    (hcovers : q.onward.covers later.tripId = true) (rx ry : Option Time) :
    ∃ r ∈ a.network.applicableRules (a.time (a.stepOf later) rx).feeder
      (a.time (a.stepOf earlier) ry).pattern (a.time (a.stepOf earlier) ry).boardPosition,
      r.kind = q.kind ∧ r.minTransferTime = q.minTransferTime ∧
        r.onward.covers (a.time (a.stepOf earlier) ry).tripId = true := by
  rw [← Network.mem_terms, h.terms_eq hd hlater hearlier, Network.mem_terms]
  exact ⟨q, hq, rfl, rfl, hcovers⟩

/-- A rule that applies to a change on the real timeline was met by the search
in reverse that made the change. -/
theorem Suits.exists_applicable_reversed (h : a.Suits ctx t) (hd : a.direction = .reverse)
    {later earlier : Label × Ride} (hlater : ctx.network.Brings later.1 later.2)
    (hearlier : ctx.network.Brings earlier.1 earlier.2) {rx ry : Option Time} {r : Rule}
    (hr : r ∈ a.network.applicableRules (a.time (a.stepOf later.2) rx).feeder
      (a.time (a.stepOf earlier.2) ry).pattern (a.time (a.stepOf earlier.2) ry).boardPosition)
    (hcovers : r.onward.covers (a.time (a.stepOf earlier.2) ry).tripId = true) :
    ∃ q ∈ ctx.network.applicableRules earlier.2.feeder later.2.pattern later.2.boardPosition,
      q.kind = r.kind ∧ q.minTransferTime = r.minTransferTime ∧
        q.onward.covers later.2.tripId = true := by
  rw [← Network.mem_terms, ← h.terms_eq hd hlater hearlier rx ry, Network.mem_terms]
  exact ⟨r, hr, rfl, rfl, hcovers⟩

/-- One who boards in time in a search in reverse is in time on the real
timeline. -/
theorem Suits.readyAfter_add_le (h : a.Suits ctx t) (hd : a.direction = .reverse)
    (hneg : ∀ number, ∀ trip ∈ (a.network.pattern number).trips, trip.Negatable)
    (hsums : ctx.Unsaturated s) {later earlier : Label × Ride}
    {walk : Option (Label × Footpath)} (hlater : ctx.network.Brings later.1 later.2)
    (hearlier : ctx.network.Brings earlier.1 earlier.2)
    (hchange : ctx.Changes s later walk earlier) {d : Duration}
    (hadd : (SearchContext.boardedFrom walk earlier).arrival.CanAdd d)
    (hle : (SearchContext.boardedFrom walk earlier).arrival + d ≤ later.2.boardTime)
    (rx ry : Option Time) :
    (a.time (a.stepOf later.2) rx).readyAfter ((walk.map Prod.snd).map Footpath.reversed) + d ≤
      (a.time (a.stepOf earlier.2) ry).boardTime := by
  obtain ⟨-, -, hstart, -, -⟩ := h.runs_reverse hd hlater rx
  obtain ⟨hruns, -, -, hend, -⟩ := h.runs_reverse hd hearlier ry
  obtain ⟨hy, -⟩ := hruns.seconds_ne hneg
  rw [hstart] at hle
  cases walk with
  | none =>
      have harrival : (SearchContext.boardedFrom none earlier).arrival = earlier.1.arrival := rfl
      rw [harrival, hend] at hadd hle
      exact Time.add_le_of_add_neg_le hy hadd hle
  | some w =>
      have hwalks := hchange.walked w rfl
      have harrival : (SearchContext.boardedFrom (some w) earlier).arrival =
          earlier.1.arrival + w.2.duration := hwalks.arrival_eq
      have hwalk := hsums.canAdd_walk hwalks hearlier
      rw [harrival, hend] at hadd hle
      rw [hend] at hwalk
      exact Time.add_add_le_of_add_neg_le hy hwalk hadd hle

/-- The stops of a change that a search in reverse made, on the real timeline. -/
theorem Suits.connects_reverse (h : a.Suits ctx t) (hd : a.direction = .reverse)
    {later earlier : Label × Ride} {walk : Option (Label × Footpath)}
    (hlater : ctx.network.Brings later.1 later.2)
    (hearlier : ctx.network.Brings earlier.1 earlier.2)
    (hchange : ctx.Changes s later walk earlier) (rx ry : Option Time) :
    a.network.schedule.Connects (a.time (a.stepOf later.2) rx)
      ((walk.map Prod.snd).map Footpath.reversed) (a.time (a.stepOf earlier.2) ry) := by
  obtain ⟨-, -, -, -, hstop⟩ := h.runs_reverse hd hearlier ry
  have hboard : (a.time (a.stepOf later.2) rx).alightStop =
      (SearchContext.boardedFrom walk earlier).stop := by
    have hlt := Nat.lt_trans hlater.carries.board_lt_alight hlater.carries.alight_lt
    rw [← hchange.stop_eq]
    rw [h.pattern_reverse hd, Pattern.reversed_length] at hlt
    rw [h.pattern_reverse hd, Pattern.reversed_stopAt _ hlt, stepOf_reverse hd]
    rfl
  cases walk with
  | none =>
      show (a.time (a.stepOf later.2) rx).alightStop = _
      rw [hboard, hstop]
      rfl
  | some w =>
      have hwalks := hchange.walked w rfl
      obtain ⟨hmem, horigin⟩ := h.network_valid.mem_footpathsFrom hwalks.mem_footpaths
      rw [h.schedule_reverse hd] at hmem
      -- The search walked the footpath the other way.
      obtain ⟨path, hpath, hreversed⟩ := List.mem_map.mp hmem
      refine ⟨?_, ?_, ?_⟩
      · show w.2.reversed ∈ a.network.schedule.footpaths
        rw [← hreversed]
        exact hpath
      · show w.2.destination = _
        rw [hboard]
        exact hwalks.stop_eq.symm
      · show w.2.origin = _
        rw [hstop]
        exact horigin

/-- In the time by which the search caught it, it is caught on the real timeline. -/
theorem Suits.catchesEither_reverse (h : a.Suits ctx t) (hd : a.direction = .reverse)
    (hneg : ∀ number, ∀ trip ∈ (a.network.pattern number).trips, trip.Negatable)
    (hsums : ctx.Unsaturated s) {later earlier : Label × Ride}
    {walk : Option (Label × Footpath)} (hlater : ctx.network.Brings later.1 later.2)
    (hearlier : ctx.network.Brings earlier.1 earlier.2)
    (hchange : ctx.Changes s later walk earlier) (rx ry : Option Time) :
    a.CatchesEither (a.time (a.stepOf later.2) rx) ((walk.map Prod.snd).map Footpath.reversed)
      (a.time (a.stepOf earlier.2) ry) := by
  have hcatches := hchange.catches
  unfold Network.Catches at hcatches
  split at hcatches
  · -- The time for changing to the pattern that the search boarded.
    refine Or.inr (Or.inr ?_)
    have hslack : ctx.slackFor (ctx.network.pattern later.2.pattern) =
        a.slackFor (a.time (a.stepOf later.2) rx).pattern := by
      unfold SearchContext.slackFor
      rw [h.pattern_reverse hd, Pattern.reversed_minTransferTime, h.slackFor_eq,
        stepOf_reverse hd]
      rfl
    rw [← hslack]
    exact h.readyAfter_add_le hd hneg hsums hlater hearlier hchange
      (hsums.canAdd_slack hchange hlater) hcatches rx ry
  · -- A rule, found from its other end.
    obtain ⟨minTransferTime, target, hruling, hcovers, hle⟩ := hcatches
    obtain ⟨q, hq, hoverrides, -, rfl, rfl⟩ := Network.of_ruling_eq_override hruling
    have hinTime := h.readyAfter_add_le hd hneg hsums hlater hearlier hchange
      (hsums.canAdd_rule hchange hlater hruling) hle rx ry
    obtain ⟨r, hr, hkind, htime, hcoversLater⟩ := h.exists_applicable hd hlater hearlier hq
      hcovers rx ry
    refine Or.inl ⟨r, hr, hkind ▸ hoverrides, hcoversLater, ?_⟩
    rw [htime]
    exact hinTime

/-- A change that a search in reverse made, on the real timeline. -/
theorem Suits.joined_reverse (h : a.Suits ctx t) (hd : a.direction = .reverse)
    (hneg : ∀ number, ∀ trip ∈ (a.network.pattern number).trips, trip.Negatable)
    (hsums : ctx.Unsaturated s) {later earlier : Label × Ride}
    {walk : Option (Label × Footpath)} (hlater : ctx.network.Brings later.1 later.2)
    (hearlier : ctx.network.Brings earlier.1 earlier.2)
    (hchange : ctx.Changes s later walk earlier) (rx ry : Option Time) :
    a.Joined (a.time (a.stepOf later.2) rx) ((walk.map Prod.snd).map Footpath.reversed)
      (a.time (a.stepOf earlier.2) ry) := by
  refine ⟨h.connects_reverse hd hlater hearlier hchange rx ry, fun hforward => ?_, fun _ => ?_⟩
  · rw [hd] at hforward
    cases hforward
  · exact h.catchesEither_reverse hd hneg hsums hlater hearlier hchange rx ry

/-! ## §5. Either direction. -/

/-- No sum of times left its range, which matters to a search in reverse. -/
structure InRange (a : Assembly) (ctx : SearchContext) (s : LabelStore) : Prop where
  negatable : ∀ number, ∀ trip ∈ (a.network.pattern number).trips, trip.Negatable
  unsaturated : ctx.Unsaturated s

/-- Every change of the search is one on the real timeline, if no sum of times
left its range. -/
theorem Suits.upholds_joined (h : a.Suits ctx t)
    (hrange : a.direction = .reverse → a.InRange ctx s) : a.Upholds ctx s a.Joined := by
  intro before after walk hbefore hafter hchange rx ry
  unfold Changed at hchange
  cases hdirection : a.direction with
  | forward =>
      rw [hdirection] at hchange
      rw [pathOf_forward hdirection, Option.map_id]
      exact h.joined_forward hdirection hafter hbefore hchange rx ry
  | reverse =>
      rw [hdirection] at hchange
      obtain ⟨hneg, hsums⟩ := hrange hdirection
      rw [pathOf_reverse hdirection]
      exact h.joined_reverse hdirection hneg hsums hbefore hafter hchange rx ry

/-- No rule forbids a change of the search.  A rule that forbids it on the real
timeline has a counterpart that the search met. -/
theorem Suits.upholds_lawful (h : a.Suits ctx t) : a.Upholds ctx s a.Lawful := by
  intro before after walk hbefore hafter hchange rx ry
  unfold Changed at hchange
  unfold Lawful
  cases hdirection : a.direction with
  | forward =>
      rw [hdirection] at hchange
      have hlawful := hchange.lawful
      obtain ⟨-, htripX, -⟩ := h.runs_forward hdirection hbefore rx
      obtain ⟨-, htripY, -⟩ := h.runs_forward hdirection hafter ry
      have hfeeder : (a.time (a.stepOf before.2) rx).feeder = before.2.feeder := by
        unfold RideLeg.feeder
        rw [htripX, stepOf_forward hdirection]
        rfl
      rw [hfeeder, htripY, stepOf_forward hdirection]
      rw [h.network_forward hdirection] at hlawful
      exact hlawful
  | reverse =>
      rw [hdirection] at hchange
      have hlawful := hchange.lawful
      unfold Network.forbidsTrip at hlawful ⊢
      rw [List.any_eq_false] at hlawful ⊢
      intro r hr hforbids
      simp only [Bool.and_eq_true, decide_eq_true_eq] at hforbids
      obtain ⟨hkind, hcovers⟩ := hforbids
      obtain ⟨q, hq, hqkind, -, hqcovers⟩ := h.exists_applicable_reversed hdirection hbefore hafter
        hr hcovers
      refine hlawful q hq ?_
      rw [hqkind, hkind, hqcovers]
      rfl

end Assembly

end TransitRouting
