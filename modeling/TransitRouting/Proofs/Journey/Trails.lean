/-
  TransitRouting.Proofs.Journey.Trails
  ────────────────────────────────────
  The rides on the way to a label, and how each was caught.

  From a ride label back to the origin every second label at the latest is a
  ride again.  Of each ride the network's halts, times and trip are known, and
  of each change the walk in between, why the next trip could be boarded, and
  what that added to the cost and to the groups.

  Main statement: `SearchContext.Way.trail` — the way to a ride is an itinerary
  of rides that the network offers, joined by changes that can be made, and it
  starts at a stop to which a connector leads.
-/
import TransitRouting.Proofs.Iteration.Invariant
import TransitRouting.Proofs.Journey.Itinerary

namespace TransitRouting

/-! ## §1. Rides of labels. -/

/-- The ride is one that the network offers. -/
structure Network.Carries (n : Network) (r : Ride) : Prop where
  trip_lt : r.trip < (n.pattern r.pattern).trips.length
  tripId_eq : r.tripId = ((n.pattern r.pattern).trip r.trip).id
  canBoard : (n.pattern r.pattern).canBoard r.boardPosition = true
  canAlight : (n.pattern r.pattern).canAlight r.alightPosition = true
  board_lt_alight : r.boardPosition < r.alightPosition
  alight_lt : r.alightPosition < (n.pattern r.pattern).length
  boardTime_eq :
    r.boardTime = ((n.pattern r.pattern).trip r.trip).departureAt r.boardPosition

/-- The label was reached by the ride. -/
structure Network.Brings (n : Network) (l : Label) (r : Ride) : Prop where
  approach : l.approach = .ride r
  carries : n.Carries r
  stop_eq : l.stop = (n.pattern r.pattern).stopAt r.alightPosition
  arrival_eq : l.arrival = ((n.pattern r.pattern).trip r.trip).arrivalAt r.alightPosition

theorem Network.Brings.arrivingTrip {n : Network} {l : Label} {r : Ride} (h : n.Brings l r)
    (s : LabelStore) : s.arrivingTrip l = some r.feeder := by
  unfold LabelStore.arrivingTrip
  rw [h.approach]
  rfl

namespace SearchContext

/-- The label from which one who arrived with `earlier` and then walked, if at
all, boards the next trip. -/
def boardedFrom (walk : Option (Label × Footpath)) (earlier : Label × Ride) : Label :=
  (walk.map Prod.fst).getD earlier.1

/-- The walk label was made from the ride label by the footpath. -/
structure Walks (ctx : SearchContext) (s : LabelStore) (w : Label × Footpath)
    (earlier : Label × Ride) : Prop where
  mem_footpaths : w.2 ∈ ctx.network.footpathsFrom earlier.1.stop
  approach : w.1.approach = .walk earlier.1.stop w.2.duration
  stop_eq : w.1.stop = w.2.destination
  arrival_eq : w.1.arrival = earlier.1.arrival + w.2.duration
  stored : ∃ place, s.label? place = some w.1
  parent : ∃ place, w.1.parent = some place ∧ s.label? place = some earlier.1
  cost_eq : w.1.criteria.cost = earlier.1.criteria.cost + ctx.pricing.walk w.2.duration
  transfers_eq : w.1.criteria.transfers = earlier.1.criteria.transfers
  groups_eq : w.1.criteria.groups = earlier.1.criteria.groups

/-- What waiting, boarding and riding added to the cost, the transfers and the groups
of the label from which the trip was boarded. -/
structure Charges (ctx : SearchContext) (later : Label × Ride) (boarded : Label) (first : Bool) :
    Prop where
  cost_eq : later.1.criteria.cost = boarded.criteria.cost +
    ctx.pricing.boarding (later.2.boardTime.waitSince boarded.arrival) first +
    ctx.pricing.ride ((ctx.network.pattern later.2.pattern).trip later.2.trip).reluctance
      later.2.boardTime later.1.arrival
  transfers_eq : later.1.criteria.transfers =
    if first then 0 else (boarded.criteria.transfers + 1) % 256
  groups_eq : later.1.criteria.groups = ctx.merge boarded.criteria.groups
    ((ctx.network.pattern later.2.pattern).trip later.2.trip).group
  /-- Nobody waits for less than nothing. -/
  ready_le : boarded.arrival ≤ later.2.boardTime

/-- The later ride was boarded after the earlier one, with a walk in between if
there is one. -/
structure Changes (ctx : SearchContext) (s : LabelStore) (later : Label × Ride)
    (walk : Option (Label × Footpath)) (earlier : Label × Ride) : Prop where
  walked : ∀ w ∈ walk, ctx.Walks s w earlier
  stored : ∃ place, s.label? place = some later.1
  parent : ∃ place, later.1.parent = some place ∧
    s.label? place = some (boardedFrom walk earlier)
  /-- The earlier ride was the trip left last. -/
  arrivingTrip : s.arrivingTrip (boardedFrom walk earlier) = some earlier.2.feeder
  stop_eq : (ctx.network.pattern later.2.pattern).stopAt later.2.boardPosition =
    (boardedFrom walk earlier).stop
  catches : ctx.network.Catches (ctx.slackFor (ctx.network.pattern later.2.pattern))
    earlier.2.feeder later.2.pattern later.2.boardPosition later.2.tripId
    (boardedFrom walk earlier).arrival later.2.boardTime later.2.rule
  lawful : ctx.network.forbidsTrip earlier.2.feeder later.2.pattern later.2.boardPosition
    later.2.tripId = false
  charges : ctx.Charges later (boardedFrom walk earlier) false

/-- The way is a trail of rides from a ride label back to the origin. -/
def Trail (ctx : SearchContext) (departure : Time) (s : LabelStore) (l : Label)
    (way : List Label) : Prop :=
  ∃ r first rides origin, way = rides ++ [origin] ∧ origin ∈ ctx.seeds departure ∧
    Itinerary Prod.fst Prod.fst (fun x => ctx.network.Brings x.1 x.2) (ctx.Changes s)
      (l, r) rides first ∧
    first.2.rule = none ∧ ctx.Charges first origin true ∧
    (ctx.network.pattern first.2.pattern).stopAt first.2.boardPosition = origin.stop

variable {ctx : SearchContext} {departure : Time} {s : LabelStore}

/-! ## §2. Ways are trails. -/

/-- The ride of a rider who gets off. -/
def rideOf (pattern alight : Nat) (r : Rider) : Ride :=
  { pattern
    trip := r.boarding.trip
    tripId := r.boarding.tripId
    boardPosition := r.boarding.position
    boardTime := r.boarding.time
    alightPosition := alight
    rule := r.boarding.rule }

theorem brings_alight (hn : ctx.network.Valid) {round pattern board alight : Nat}
    {f : Option Feeder} {place : LabelPlace} {l : Label} {r : Rider}
    (hrider : ctx.riderFrom? f round pattern board place l = some r) (hlt : board < alight)
    (hlength : alight < (ctx.network.pattern pattern).length)
    (hcan : (ctx.network.pattern pattern).canAlight alight = true) :
    ctx.network.Brings (ctx.alight round pattern alight r) (rideOf pattern alight r) := by
  obtain ⟨-, hfound⟩ := of_riderFrom? hrider
  obtain ⟨hboard, ⟨htrip, hboarding, -⟩, -⟩ :=
    Network.Boardable.of_earliestBoarding hn hfound
  have hposition : r.boarding.position = board := congrArg Boarding.position hboarding
  refine ⟨rfl, ⟨htrip, congrArg Boarding.tripId hboarding, ?_, hcan, ?_, hlength, ?_⟩, rfl, rfl⟩
  · show (ctx.network.pattern pattern).canBoard r.boarding.position = true
    rw [hposition]
    exact hboard
  · show r.boarding.position < alight
    rw [hposition]
    exact hlt
  · show r.boarding.time =
      ((ctx.network.pattern pattern).trip r.boarding.trip).departureAt r.boarding.position
    rw [hposition]
    exact congrArg Boarding.time hboarding

theorem charges_of_riderFrom? (hn : ctx.network.Valid) {f : Option Feeder}
    {round pattern board : Nat} {place : LabelPlace} {l : Label} {r : Rider}
    (hcount : l.criteria.transfers = transferCount round)
    (hrider : ctx.riderFrom? f (round + 1) pattern board place l = some r) (alight : Nat) :
    ctx.Charges (ctx.alight (round + 1) pattern alight r, rideOf pattern alight r) l
      (decide (round = 0)) := by
  have htransfers : transferCount (round + 1) =
      if decide (round = 0) = true then 0 else (l.criteria.transfers + 1) % 256 := by
    rw [hcount]
    unfold transferCount
    cases round with
    | zero => rfl
    | succ earlier =>
        rw [if_neg (by simp)]
        omega
  have hready : l.arrival ≤ r.boarding.time := by
    obtain ⟨-, hfound⟩ := of_riderFrom? hrider
    obtain ⟨-, hboardable, -⟩ := Network.Boardable.of_earliestBoarding hn hfound
    refine hboardable.inTime.ready_le ?_
    split
    · exact Time.le_refl _
    · exact Time.le_add _ _
  unfold riderFrom? at hrider
  simp only [Nat.add_eq_right] at hrider
  split at hrider
  · obtain rfl := Option.some.inj hrider
    exact ⟨rfl, htransfers, rfl, hready⟩
  · cases hrider

/-- A trip that was boarded after another one was caught, and no rule forbids
it. -/
theorem changes_of_riderFrom? (hn : ctx.network.Valid) {round pattern board alight : Nat}
    {place parent : LabelPlace} {walk : Option (Label × Footpath)} {earlier : Label × Ride}
    {r : Rider} (hround : round ≠ 0) (hwalked : ∀ w ∈ walk, ctx.Walks s w earlier)
    (hcount : (boardedFrom walk earlier).criteria.transfers = transferCount round)
    (hparent : s.label? parent = some (boardedFrom walk earlier))
    (hfeeder : s.arrivingTrip (boardedFrom walk earlier) = some earlier.2.feeder)
    (hstop : (ctx.network.pattern pattern).stopAt board = (boardedFrom walk earlier).stop)
    (hrider : ctx.riderFrom? (s.arrivingTrip (boardedFrom walk earlier)) (round + 1) pattern board
      parent (boardedFrom walk earlier) = some r)
    (hstored : s.label? place = some (ctx.alight (round + 1) pattern alight r)) :
    ctx.Changes s (ctx.alight (round + 1) pattern alight r, rideOf pattern alight r) walk
      earlier := by
  obtain ⟨hplace, hfound⟩ := of_riderFrom? hrider
  rw [if_neg (by omega)] at hfound
  obtain ⟨-, ⟨-, hboarding, hinTime⟩, hlawful⟩ := Network.Boardable.of_earliestBoarding hn hfound
  have hposition : r.boarding.position = board := congrArg Boarding.position hboarding
  have hcharges := charges_of_riderFrom? hn hcount hrider alight
  rw [decide_eq_false hround] at hcharges
  refine ⟨hwalked, ⟨place, hstored⟩, ⟨parent, congrArg some hplace, hparent⟩, hfeeder, ?_, ?_, ?_,
    hcharges⟩
  · show (ctx.network.pattern pattern).stopAt r.boarding.position = _
    rw [hposition]
    exact hstop
  · show ctx.network.Catches _ earlier.2.feeder pattern r.boarding.position r.boarding.tripId _
      r.boarding.time r.boarding.rule
    unfold Network.InTime at hinTime
    unfold Network.Catches
    cases hrule : r.boarding.rule with
    | none =>
        rw [hrule] at hinTime
        exact hinTime
    | some kind =>
        rw [hrule, hfeeder] at hinTime
        obtain ⟨f, hf, hopens⟩ := hinTime
        obtain rfl := Option.some.inj hf
        exact hopens
  · show ctx.network.forbidsTrip earlier.2.feeder pattern r.boarding.position _ = false
    rw [hposition]
    exact hlawful _ hfeeder

/-- A label's transfers are those of its round. -/
theorem Way.transfers_eq {round : Nat} {way : List Label} (h : ctx.Way departure s round way) :
    ∀ {l rest}, way = l :: rest → l.criteria.transfers = transferCount round := by
  induction h with
  | access hl =>
      intro l rest heq
      cases heq
      obtain ⟨_, -, rfl⟩ := List.mem_map.mp hl
      rfl
  | ride =>
      intro l rest heq
      cases heq
      rfl
  | walk _ _ _ _ _ ih =>
      intro l rest heq
      cases heq
      have hcount := ih rfl
      exact hcount

/-- The first trip needs no rule. -/
theorem rule_eq_none_of_riderFrom? (hn : ctx.network.Valid) {round pattern board : Nat}
    {place : LabelPlace} {l : Label} {r : Rider}
    (hrider : ctx.riderFrom? none round pattern board place l = some r) :
    r.boarding.rule = none := by
  obtain ⟨-, hfound⟩ := of_riderFrom? hrider
  obtain ⟨-, ⟨-, -, hinTime⟩, -⟩ := Network.Boardable.of_earliestBoarding hn hfound
  unfold Network.InTime at hinTime
  cases hrule : r.boarding.rule with
  | none => rfl
  | some kind =>
      rw [hrule] at hinTime
      obtain ⟨f, hf, -⟩ := hinTime
      cases hf

/-- The ride that was made from a label, put in front of the label's trail. -/
theorem Trail.ride {l : Label} {way : List Label} (h : ctx.Trail departure s l way)
    {w : Option (Label × Footpath)} {later : Label} {next : Ride}
    (hlater : ctx.network.Brings later next)
    (hjoined : ∀ r, ctx.network.Brings l r → ctx.Changes s (later, next) w (l, r)) :
    ctx.Trail departure s later (later :: ((w.map Prod.fst).toList ++ way)) := by
  obtain ⟨r, first, rides, origin, rfl, horigin, hrides, hrule, hcharges, hstop⟩ := h
  have hchange := hjoined r hrides.runs_first
  refine ⟨next, first, later :: ((w.map Prod.fst).toList ++ rides), origin, ?_, horigin,
    ?_, hrule, hcharges, hstop⟩
  · simp
  · cases w with
    | none => exact .direct hlater hchange hrides
    | some w => exact .walking hlater hchange hrides

/-- The way to a ride is a trail.  A way that ends on foot is one up to the
walk. -/
theorem Way.trail (hn : ctx.network.Valid) {round : Nat} {way : List Label}
    (h : ctx.Way departure s round way) :
    ∀ {l rest place}, way = l :: rest → s.label? place = some l →
      (l.isRide = true → ctx.Trail departure s l way) ∧
      ∀ {q before}, l.isRide = false → rest = q :: before → ctx.Trail departure s q rest := by
  induction h with
  | access hl =>
      intro l rest place heq _
      cases heq
      refine ⟨fun hride => ?_, fun _ hrest => by cases hrest⟩
      rw [isRide_of_mem_seeds hl] at hride
      cases hride
  | @ride round p before parent pattern board alight r hway hparent hround hstop hrider hlt
      hlength hcan ih =>
      intro l rest place heq hstored
      cases heq
      refine ⟨fun _ => ?_, fun hride => by cases hride⟩
      have hbrings := brings_alight hn hrider hlt hlength hcan
      have hcount := hway.transfers_eq rfl
      -- What was boarded from decides how the trail goes on.
      cases hway with
      | access hl =>
          have hfeeder : s.arrivingTrip p = none := by
            obtain ⟨c, index, -, -, -, happroach, -⟩ := mem_seeds hl
            simp [LabelStore.arrivingTrip, happroach]
          rw [hfeeder] at hrider
          have hposition : r.boarding.position = board := by
            obtain ⟨-, hfound⟩ := of_riderFrom? hrider
            obtain ⟨-, ⟨-, hboarding, -⟩, -⟩ := Network.Boardable.of_earliestBoarding hn hfound
            exact congrArg Boarding.position hboarding
          have hstop' : (ctx.network.pattern pattern).stopAt r.boarding.position = p.stop := by
            rw [hposition]
            exact hstop
          exact ⟨rideOf pattern alight r, (_, rideOf pattern alight r), [_], p, rfl, hl,
            .single hbrings, rule_eq_none_of_riderFrom? hn hrider,
            charges_of_riderFrom? hn hcount hrider alight, hstop'⟩
      | @ride round' p' before' parent' pattern' board' alight' r' hway' =>
          have htrail := (ih rfl hparent).1 rfl
          refine htrail.ride (w := none) hbrings fun r₀ hr₀ => ?_
          exact changes_of_riderFrom? hn (Nat.succ_ne_zero _) (fun _ hw => absurd hw (by simp))
            hcount hparent (hr₀.arrivingTrip s) hstop hrider hstored
      | @walk _ q before' parent' path hway' hparent₀ hround' hride hpath =>
          have htrail := (ih rfl hparent).2 rfl rfl
          refine htrail.ride (w := some (ctx.walkOn parent' q path, path)) hbrings fun r₀ hr₀ => ?_
          have hfeeder : s.arrivingTrip (ctx.walkOn parent' q path) = some r₀.feeder := by
            show ((s.label? parent').bind fun p => p.ride?.map fun r =>
              (⟨r.pattern, r.tripId, r.alightPosition⟩ : Feeder)) = _
            rw [hparent₀]
            simp [Label.ride?, hr₀.approach, Ride.feeder]
          have hwalks : ctx.Walks s (ctx.walkOn parent' q path, path) (q, r₀) :=
            ⟨hpath, rfl, rfl, rfl, ⟨parent, hparent⟩, ⟨parent', rfl, hparent₀⟩, rfl, rfl, rfl⟩
          refine changes_of_riderFrom? hn (hway'.round_ne_zero hride) (fun w hw => ?_)
            hcount hparent hfeeder hstop hrider hstored
          obtain rfl := Option.some.inj hw
          exact hwalks
  | @walk round p before parent path hway hparent hround hride hpath ih =>
      intro l rest place heq _
      cases heq
      refine ⟨(fun hwalk => by cases hwalk), ?_⟩
      intro q before' _ heq
      cases heq
      exact (ih rfl hparent).1 hride

end SearchContext

end TransitRouting
