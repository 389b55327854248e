/-
  TransitRouting.Proofs.Journey.Merits
  ────────────────────────────────────
  A journey is worth what its label was.

  A label collects its cost, its transfers and its groups while the search goes
  on, on its own timeline.  A journey is priced anew on the real timeline, leg by
  leg.  Both come to the same, for chains of any length, and whatever function
  turns seconds and a factor into a cost.

  Main statements:

    • `Assembly.Travels.spentOn_segments` — the legs of a route cost what the
      account of the search says;
    • `Journey.exists_build_restates` — from every destination label a journey
      is built, and it has the label's values.
-/
import TransitRouting.Proofs.Journey.Charges
import TransitRouting.Proofs.Journey.Ends

namespace TransitRouting

/-! ## §1. What segments add up to. -/

namespace Assembly

/-- What a segment costs. -/
def segmentCost (a : Assembly) : Segment → Cost
  | .ride l => l.cost
  | .walk _ _ d => a.pricing.walk d

/-- What all segments cost. -/
def spentOn (a : Assembly) (segments : List Segment) : Cost :=
  (segments.map a.segmentCost).sum

/-- The groups of one who starts with some and rides all segments. -/
def groupsAlong (a : Assembly) (groups : GroupSet) (segments : List Segment) : GroupSet :=
  (segments.filterMap Segment.ride?).foldl
    (fun groups l => a.merge groups (a.network.trip l.pattern l.trip).group) groups

/-- The number of trips that are ridden. -/
def rideCount (segments : List Segment) : Nat := (segments.filterMap Segment.ride?).length

variable {a : Assembly}

theorem legsFrom_costs (clock : Time) (segments : List Segment) :
    (a.legsFrom clock segments).1.map Leg.cost = segments.map a.segmentCost := by
  induction segments generalizing clock with
  | nil => rfl
  | cons segment segments ih =>
      cases segment with
      | ride l => exact congrArg (l.cost :: ·) (ih l.alightTime)
      | walk origin destination d => exact congrArg (a.pricing.walk d :: ·) (ih (clock + d))

/-- The costs of the legs of a journey. -/
theorem finish_costs (a : Assembly) (access egress : Connector) (segments : List Segment) :
    (a.finish access segments egress).legs.map Leg.cost =
      a.pricing.connector access :: (segments.map a.segmentCost ++
        [a.pricing.connector egress]) := by
  unfold finish
  simp only [List.map_cons, List.cons_append, List.map_append, legsFrom_costs, List.map_nil]
  rfl

/-- A journey costs what its connectors and its segments cost. -/
theorem finish_cost (access egress : Connector) (segments : List Segment) :
    (a.finish access segments egress).merit.cost =
      a.pricing.connector access + a.spentOn segments + a.pricing.connector egress := by
  show Cost.sum ((a.finish access segments egress).legs.map Leg.cost) = _
  rw [finish_costs, Cost.sum_eq, List.sum_cons, List.sum_append, List.sum_singleton, ← add_assoc]
  rfl

end Assembly

/-! ## §2. Accounts along the steps of a search. -/

namespace SearchContext

/-- The first ride of a search is charged like the first leg of a journey. -/
theorem Charges.first_cost {ctx : SearchContext} {a : Assembly} {t : Timetable} {s : LabelStore}
    (h : a.Suits ctx t) (hagrees : a.Agrees ctx)
    (hrange : a.direction = .reverse → a.InRange ctx s) {x : Label × Ride} {origin : Label}
    (hx : ctx.network.Brings x.1 x.2) (hcharges : ctx.Charges x origin true) :
    x.1.criteria.cost = origin.criteria.cost + (a.time (a.stepOf x.2) none).rideCost := by
  rw [hcharges.cost_eq, h.rideCost_eq hagrees hrange hx none]
  exact congrArg (· + _) (add_zero _)

/-- Transfers are counted in one byte. -/
theorem StoreSound.transfers_lt {ctx : SearchContext} {departure : Time} {s : LabelStore}
    {last : Nat} (hs : ctx.StoreSound departure s last) {place : LabelPlace} {l : Label}
    (hl : s.label? place = some l) : l.criteria.transfers < 256 := by
  obtain ⟨rest, hway⟩ := hs.realised hl
  rw [hway.transfers_eq rfl]
  exact Nat.mod_lt _ (by decide)

end SearchContext

namespace Assembly

variable {a : Assembly} {ctx : SearchContext} {t : Timetable} {s : LabelStore}
  {x y : Label × Ride} {steps : List Step}

theorem spentOn_change (l : RideLeg) (walk : Option Footpath) (segments : List Segment) :
    a.spentOn (.ride l :: ((walk.map Footpath.toSegment).toList ++ segments)) =
      l.cost + a.pricing.change walk + a.spentOn segments := by
  unfold spentOn
  rw [List.map_cons, List.map_append, List.sum_cons, List.sum_append, ← add_assoc]
  cases walk with
  | none => rfl
  | some path =>
      show l.cost + (a.pricing.walk path.duration + 0) + _ = _
      rw [add_zero]
      rfl

theorem rideCount_change (l : RideLeg) (walk : Option Footpath) (segments : List Segment) :
    rideCount (.ride l :: ((walk.map Footpath.toSegment).toList ++ segments)) =
      rideCount segments + 1 := by
  cases walk <;> rfl

theorem groupsAlong_change (groups : GroupSet) (l : RideLeg) (walk : Option Footpath)
    (segments : List Segment) :
    a.groupsAlong groups (.ride l :: ((walk.map Footpath.toSegment).toList ++ segments)) =
      a.groupsAlong (a.merge groups (a.network.trip l.pattern l.trip).group) segments := by
  cases walk <;> rfl

/-- The segments between two rides cost the difference of the account, and the
first ride. -/
theorem Travels.spentOn_segments (hsuits : a.Suits ctx t) (hagrees : a.Agrees ctx)
    (hrange : a.direction = .reverse → a.InRange ctx s) (h : a.Travels ctx s x steps y)
    (ready : Option Time) :
    a.spentOn (a.segments ready steps) + a.spentBy x =
      (a.time (a.stepOf x.2) ready).cost + a.spentBy y := by
  -- A walk, and the wait after it, are accounted for with the ride that follows.
  unfold Travels at h
  induction h using Itinerary.change_induction generalizing ready with
  | @single x hx =>
      show (a.time (a.stepOf x.2) ready).cost + 0 + a.spentBy x = _
      rw [add_zero]
  | @change x z y walk steps hx hxz hrest ih =>
      have hchange := hsuits.spentBy_change hagrees hrange hx hrest.runs_first hxz ready
      have hspent := ih (some ((a.time (a.stepOf x.2) ready).readyAfter
        ((walk.map Prod.snd).map a.pathOf)))
      rw [hchange] at hspent
      rw [segments_change, spentOn_change, eq_sub_of_add_eq hspent]
      abel

/-- As many trips are ridden as have been boarded in between, and one. -/
theorem Travels.rideCount_segments (h : a.Travels ctx s x steps y) (ready : Option Time) :
    (rideCount (a.segments ready steps) + a.boardedBy x - a.boardedBy y - 1) % 256 = 0 ∧
      1 ≤ rideCount (a.segments ready steps) := by
  unfold Travels at h
  induction h using Itinerary.change_induction generalizing ready with
  | @single x hx =>
      show (((1 : Nat) : Int) + a.boardedBy x - a.boardedBy x - 1) % 256 = 0 ∧ 1 ≤ 1
      omega
  | @change x z y walk steps hx hxz hrest ih =>
      have hchange := boardedBy_change hxz
      rw [segments_change, rideCount_change]
      obtain ⟨hcount, -⟩ := ih (some ((a.time (a.stepOf x.2) ready).readyAfter
        ((walk.map Prod.snd).map a.pathOf)))
      omega

/-- Riding on from the groups of the first ride gives those of the last one. -/
theorem Travels.groups_forward (hsuits : a.Suits ctx t) (hagrees : a.Agrees ctx)
    (hd : a.direction = .forward) (h : a.Travels ctx s x steps y) {groups : GroupSet}
    (hx : x.1.criteria.groups = a.merge groups
      (a.network.trip (a.stepOf x.2).pattern (a.stepOf x.2).trip).group) (ready : Option Time) :
    a.groupsAlong groups (a.segments ready steps) = y.1.criteria.groups := by
  unfold Travels at h
  induction h using Itinerary.change_induction generalizing groups ready with
  | single => exact hx.symm
  | @change x z y walk steps _ hxz hrest ih =>
      -- The groups before the second ride are those after the first one.
      have hz : z.1.criteria.groups = a.merge x.1.criteria.groups
          (a.network.trip (a.stepOf z.2).pattern (a.stepOf z.2).trip).group := by
        unfold Changed at hxz
        rw [hd] at hxz
        obtain ⟨-, -, hboarded⟩ := hxz.boarded
        rw [hsuits.groups_eq hagrees hrest.runs_first hxz.charges, hboarded]
      rw [segments_change, groupsAlong_change]
      show a.groupsAlong (a.merge groups
        (a.network.trip (a.stepOf x.2).pattern (a.stepOf x.2).trip).group) _ = _
      rw [← hx]
      exact ih hz _

/-- A set of all groups does not depend on the order of the rides, so those that a
search in reverse has found come out. -/
theorem Travels.groups_reverse (hsuits : a.Suits ctx t) (hagrees : a.Agrees ctx)
    (hd : a.direction = .reverse) (hunion : a.merge = GroupMerge.union)
    (h : a.Travels ctx s x steps y)
    (hy : y.1.criteria.groups = GroupSet.empty.insert
      (a.network.trip (a.stepOf y.2).pattern (a.stepOf y.2).trip).group) (groups : GroupSet)
    (ready : Option Time) :
    (a.groupsAlong groups (a.segments ready steps)).bits =
      groups.bits ||| x.1.criteria.groups.bits := by
  -- The search came to the first ride last, so it holds the groups of all that follow.
  unfold Travels at h
  induction h using Itinerary.change_induction generalizing groups ready with
  | @single x hx =>
      rw [hy]
      show (a.merge groups _).bits = groups.bits ||| (0 ||| _)
      rw [hunion, UInt32.zero_or]
      rfl
  | @change x z y walk steps hx hxz hrest ih =>
      have hx : x.1.criteria.groups = z.1.criteria.groups.insert
          (a.network.trip (a.stepOf x.2).pattern (a.stepOf x.2).trip).group := by
        unfold Changed at hxz
        rw [hd] at hxz
        obtain ⟨-, -, hboarded⟩ := hxz.boarded
        rw [hsuits.groups_eq hagrees hx hxz.charges, hboarded, hunion]
        rfl
      rw [segments_change, groupsAlong_change, ih hy, hx, hunion]
      show (groups.bits ||| _) ||| _ = groups.bits ||| (_ ||| _)
      rw [UInt32.or_assoc, UInt32.or_comm z.1.criteria.groups.bits]
      rfl

end Assembly

/-! ## §3. Destination labels. -/

/-- The merit says what a search in the direction has counted for the label. -/
structure Merit.Restates (m : Merit) (d : Label) (direction : Direction) (merge : GroupMerge) :
    Prop where
  cost_eq : m.cost = d.criteria.cost
  transfers_eq : m.transfers = d.criteria.transfers
  /-- A forward search knows when the journey ends. -/
  arrival_eq : direction = .forward → m.arrival = d.arrival
  /-- A search in reverse knows when it starts. -/
  departure_eq : direction = .reverse → m.departure = -d.arrival
  /-- In reverse the groups were recorded in the opposite order, which a set of
  all of them does not show. -/
  groups_eq : direction = .forward ∨ merge = GroupMerge.union → m.groups = d.criteria.groups

/-- How long the way takes on which a label has left the network. -/
def Approach.egressDuration? : Approach → Option Duration
  | .egress _ d => some d
  | _ => none

/-- The label was made by a sum of times that stayed in range. -/
def LabelStore.CanLeave (s : LabelStore) (d : Label) : Prop :=
  ∀ place ∈ d.parent, ∀ q ∈ s.label? place, ∀ x ∈ d.approach.egressDuration?, q.arrival.CanAdd x

instance (s : LabelStore) (d : Label) : Decidable (s.CanLeave d) :=
  inferInstanceAs (Decidable (∀ place ∈ d.parent, ∀ q ∈ s.label? place,
    ∀ x ∈ d.approach.egressDuration?, _))

namespace Assembly

variable {a : Assembly} {ctx : SearchContext} {t : Timetable} {s : LabelStore} {departure : Time}
  {rounds : Nat} {d : Label} {access egress : Connector} {first last : Label × Ride}
  {middle : List Step}

/-- The first leg of a journey is boarded for nothing. -/
theorem first_cost (r : RideStep) :
    (a.time r none).cost = (a.time r none).rideCost := zero_add _

/-- A route has as many rides as the label counts, whatever happened to its times. -/
theorem Leads.transfers_eq (hs : ctx.StoreSound departure s rounds)
    (h : a.Leads ctx departure s d access first middle last egress) :
    (rideCount (a.segments none middle) - 1) % 256 = d.criteria.transfers := by
  obtain ⟨hcount, hone⟩ := h.travels.rideCount_segments none
  have hframed := h.framed
  cases hd : a.direction with
  | forward =>
      rw [hd] at hframed
      obtain ⟨⟨origin, index, -, -, -, -, -, hcharges⟩, place, j, hplace, -, rfl⟩ := hframed
      have hstart := hcharges.transfers_eq
      rw [if_pos rfl] at hstart
      rw [boardedBy_forward hd, boardedBy_forward hd] at hcount
      have hlt := hs.transfers_lt hplace
      show _ = last.1.criteria.transfers
      omega
  | reverse =>
      rw [hd] at hframed
      obtain ⟨⟨origin, index, -, -, -, -, -, hcharges⟩, place, j, hplace, -, rfl⟩ := hframed
      have hstart := hcharges.transfers_eq
      rw [if_pos rfl] at hstart
      rw [boardedBy_reverse hd, boardedBy_reverse hd] at hcount
      have hlt := hs.transfers_lt hplace
      show _ = first.1.criteria.transfers
      omega

/-- The journey that a forward search has found is worth what its label is. -/
theorem Leads.restates_forward (hsuits : a.Suits ctx t) (hagrees : a.Agrees ctx)
    (hs : ctx.StoreSound departure s rounds) (hd : a.direction = .forward)
    (h : a.Leads ctx departure s d access first middle last egress) :
    (a.finish access (a.segments none middle) egress).merit.Restates d a.direction a.merge := by
  have hforward : a.direction = .reverse → a.InRange ctx s := by
    intro hreverse
    rw [hd] at hreverse
    cases hreverse
  have hfirst := h.travels.runs_first
  have hlast := h.travels.runs_last
  have hframed := h.framed
  rw [hd] at hframed
  obtain ⟨⟨origin, index, -, -, -, hcost, hgroups, hcharges⟩, place, j, hplace, -, rfl⟩ := hframed
  refine ⟨?_, ?_, ?_, ?_, ?_⟩
  · have hspent := h.travels.spentOn_segments hsuits hagrees hforward none
    have hstart := hcharges.first_cost hsuits hagrees hforward hfirst
    rw [spentBy_forward hd, spentBy_forward hd, first_cost, hstart, hcost] at hspent
    rw [finish_cost, hagrees.pricing]
    show _ = last.1.criteria.cost + ctx.pricing.connector egress
    rw [eq_sub_of_add_eq hspent]
    abel
  · exact h.transfers_eq hs
  · intro _
    obtain ⟨-, -, -, hend, -⟩ := hsuits.runs_forward hd hlast none
    show _ = last.1.arrival + egress.duration
    rw [(h.finish_ends hsuits).2, hend]
  · intro hreverse
    rw [hd] at hreverse
    cases hreverse
  · intro _
    have hstart := hsuits.groups_eq hagrees hfirst hcharges
    rw [hgroups] at hstart
    exact h.travels.groups_forward hsuits hagrees hd hstart none

/-- The journey that a search in reverse has found is worth what its label is. -/
theorem Leads.restates_reverse (hsuits : a.Suits ctx t) (hagrees : a.Agrees ctx)
    (hs : ctx.StoreSound departure s rounds) (hd : a.direction = .reverse)
    (hrange : a.InRange ctx s) (hleave : s.CanLeave d)
    (h : a.Leads ctx departure s d access first middle last egress) :
    (a.finish access (a.segments none middle) egress).merit.Restates d a.direction a.merge := by
  have hfirst := h.travels.runs_first
  have hlast := h.travels.runs_last
  have hframed := h.framed
  rw [hd] at hframed
  obtain ⟨⟨origin, index, -, -, -, hcost, hgroups, hcharges⟩, place, j, hplace, -, rfl⟩ := hframed
  refine ⟨?_, ?_, ?_, ?_, ?_⟩
  · have hspent := h.travels.spentOn_segments hsuits hagrees (fun _ => hrange) none
    have hstart := hcharges.first_cost hsuits hagrees (fun _ => hrange) hlast
    rw [spentBy_reverse hd, spentBy_reverse hd, first_cost, hstart, hcost] at hspent
    rw [finish_cost, hagrees.pricing]
    show _ = first.1.criteria.cost + ctx.pricing.connector access
    rw [eq_sub_of_add_eq hspent]
    abel
  · exact h.transfers_eq hs
  · intro hforward
    rw [hd] at hforward
    cases hforward
  · intro _
    obtain ⟨hruns, -, -, hend, -⟩ := hsuits.runs_reverse hd hfirst none
    obtain ⟨hstart, -⟩ := hruns.seconds_ne hrange.negatable
    have hsum : first.1.arrival.CanAdd access.duration := hleave place rfl first.1 hplace _ rfl
    show _ = -(first.1.arrival + access.duration)
    rw [hend] at hsum ⊢
    rw [(h.finish_ends hsuits).1, Time.neg_add_eq_sub hstart hsum]
  · intro hunion
    have hunion := hunion.resolve_left (by rw [hd]; exact Direction.noConfusion)
    have hend := hsuits.groups_eq hagrees hlast hcharges
    rw [hgroups, hunion] at hend
    have hbits := h.travels.groups_reverse hsuits hagrees hd hunion hend GroupSet.empty none
    show a.groupsAlong GroupSet.empty (a.segments none middle) = first.1.criteria.groups
    have hsame : (a.groupsAlong GroupSet.empty (a.segments none middle)).bits =
        first.1.criteria.groups.bits := hbits.trans (UInt32.zero_or)
    exact congrArg GroupSet.mk hsame

end Assembly

/-! ## §4. Requests. -/

namespace Request

/-- The search for a request at any prices. -/
def contextAt (r : Request) (t : Timetable) (settings : SearchSettings) (pricing : Pricing) :
    SearchContext :=
  { r.context t settings with pricing }

/-- What the journeys for a request are assembled with at any prices, if no change
is moved. -/
def assemblyAt (r : Request) (t : Timetable) (settings : SearchSettings) (pricing : Pricing) :
    Assembly :=
  { r.assembly t settings with pricing, slide := false }

/-- The times of the timetable can be negated, and neither a label of the store nor
the destination label was made by a sum that left its range. -/
structure Exact (r : Request) (t : Timetable) (settings : SearchSettings) (pricing : Pricing)
    (s : LabelStore) (d : Label) : Prop where
  negatable : ∀ p ∈ t.forward.schedule.patterns.toList, ∀ trip ∈ p.trips, trip.Negatable
  unsaturated : (r.contextAt t settings pricing).Unsaturated s
  canLeave : s.CanLeave d

theorem Exact.inRange {r : Request} {t : Timetable} {settings : SearchSettings} {pricing : Pricing}
    {s : LabelStore} {d : Label} (h : r.Exact t settings pricing s d) :
    (r.assemblyAt t settings pricing).InRange (r.contextAt t settings pricing) s where
  negatable := Schedule.negatable_pattern h.negatable
  unsaturated := h.unsaturated

end Request

/-- From every destination label of an iteration a journey is built that is worth
what the label is, whatever the prices and in either direction, as long as no
time arithmetic of a search in reverse leaves its range. -/
theorem Journey.exists_build_restates {f : Feed} {t : Timetable} (hf : f.compile = .ok t)
    {settings : SearchSettings} {r : Request}
    (hstops : ∀ c ∈ r.access ++ r.egress, c.stop < t.stopCount) {pricing : Pricing}
    {interrupt : Interrupt} {departure : Time} {d : Label}
    (hd : d ∈ (Iteration.run (r.contextAt t settings pricing) interrupt departure).destinations)
    (hrange : r.arriveBy = true → r.Exact t settings pricing
      (Iteration.run (r.contextAt t settings pricing) interrupt departure).store d) :
    ∃ j, (r.assemblyAt t settings pricing).build?
        (Iteration.run (r.contextAt t settings pricing) interrupt departure).store d = some j ∧
      j.merit.Restates d r.direction r.merge := by
  have hsuits : (r.assemblyAt t settings pricing).Suits (r.contextAt t settings pricing) t :=
    have h := Request.suits hf r settings
    ⟨h.valid, h.reverse, h.forward, h.network, h.transferSlack, h.access, h.egress⟩
  have hagrees : (r.assemblyAt t settings pricing).Agrees (r.contextAt t settings pricing) :=
    ⟨rfl, rfl⟩
  have hctx : (r.contextAt t settings pricing).Valid := by
    have hnetwork : (r.contextAt t settings pricing).network = t.network r.direction := rfl
    refine Feed.context_valid hf hnetwork ?_
    show ∀ c ∈ (if r.arriveBy then r.egress else r.access), _
    intro c hc
    apply hstops
    rw [List.mem_append]
    split at hc
    · exact Or.inr hc
    · exact Or.inl hc
  obtain ⟨hsound, -⟩ := Iteration.run_sound hctx interrupt departure
  obtain ⟨access, first, middle, last, egress, hleads⟩ :=
    hsuits.exists_leads hsound.store (hsound.destinations d hd)
  refine ⟨_, hleads.build?_eq, ?_⟩
  show ((r.assemblyAt t settings pricing).finish access
    ((r.assemblyAt t settings pricing).segments none middle) egress).merit.Restates d
      (r.assemblyAt t settings pricing).direction (r.assemblyAt t settings pricing).merge
  cases hdirection : (r.assemblyAt t settings pricing).direction with
  | forward =>
      rw [← hdirection]
      exact hleads.restates_forward hsuits hagrees hsound.store hdirection
  | reverse =>
      have hexact := hrange (Request.direction_eq_reverse_iff.mp hdirection)
      rw [← hdirection]
      exact hleads.restates_reverse hsuits hagrees hsound.store hdirection hexact.inRange
        hexact.canLeave

/-- Every second costs the same, whatever one does. -/
def Pricing.bySeconds : Pricing where
  price seconds _ := ⟨100 * seconds.toInt64⟩
  waitReluctance := 1.0
  walkReluctance := 1.0
  rideReluctance := 1.0
  transferPenalty := ⟨30000⟩
  alightSlack := Duration.zero

/-- The search in reverse from the last arrival across town. -/
def Iteration.acrossTown : Iteration :=
  Iteration.run (Request.acrossTown.contextAt Feed.acrossTown.timetable .standard .bySeconds)
    Interrupt.never (Time.saturate (-1500))

/-- Its label and the journey cost the same: 25 minutes and a half on the way, and
the penalty. -/
theorem Journey.restates_acrossTown :
    ∃ d ∈ Iteration.acrossTown.destinations, d.criteria.cost = ⟨183000⟩ ∧
      ∃ j, (Request.acrossTown.assemblyAt Feed.acrossTown.timetable .standard .bySeconds).build?
          Iteration.acrossTown.store d = some j ∧
        j.merit.Restates d .reverse GroupMerge.union := by
  have hrun : Iteration.acrossTown.destinations.map (·.criteria.cost) = [⟨183000⟩] ∧
      (Request.acrossTown.contextAt Feed.acrossTown.timetable .standard .bySeconds).Unsaturated
        Iteration.acrossTown.store ∧
      ∀ e ∈ Iteration.acrossTown.destinations, Iteration.acrossTown.store.CanLeave e := by
    decide +kernel
  obtain ⟨hfound, hunsaturated, hleave⟩ := hrun
  obtain ⟨d, hd, hcost⟩ := List.mem_map.mp (hfound ▸ List.mem_singleton_self _)
  have hexact : Request.acrossTown.Exact Feed.acrossTown.timetable .standard .bySeconds
      Iteration.acrossTown.store d :=
    ⟨by decide +kernel, hunsaturated, hleave d hd⟩
  exact ⟨d, hd, hcost,
    Journey.exists_build_restates Feed.compile_acrossTown (by decide +kernel) hd fun _ => hexact⟩

end TransitRouting
