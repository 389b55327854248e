/-
  TransitRouting.Proofs.Iteration.Derivations
  ───────────────────────────────────────────
  A stored label can be derived again from the labels it refers to.

  What a label says of its last step can be checked against the label before
  it, and what it says of its criteria can be reckoned anew along the whole
  chain, from nothing but how each stop was reached.  Both hold of every label
  of a store, also of those that are no longer best.

  Main statements:

    • `SearchContext.Way.derived` — the last step of a way is one that the
      network offers;
    • `SearchContext.Way.reckon?_eq` — the steps of a way add up to the
      criteria of its label;
    • `Iteration.derivable_run` — every label that an iteration leaves behind,
      interrupted or not, can be derived.
-/
import TransitRouting.Proofs.Iteration.EarliestArrival
import TransitRouting.Proofs.Iteration.Limits

namespace TransitRouting

/-! ## §1. The last step of a label. -/

namespace SearchContext

/-- When one who arrived with a label is ready for a pattern.  Nobody changes
trips in the first round. -/
def readyFor (ctx : SearchContext) (round pattern : Nat) (l : Label) : Time :=
  if round = 1 then l.arrival else l.arrival + ctx.slackFor (ctx.network.pattern pattern)

/-- The ride leads from the one label to the other: it is what one boards who
comes from the first, and it is left further on, where passengers may alight,
when the timetable says. -/
structure RidesFrom (ctx : SearchContext) (s : LabelStore) (round : Nat) (r : Ride)
    (before l : Label) : Prop where
  board_eq : (ctx.network.pattern r.pattern).stopAt r.boardPosition = before.stop
  boarding : ctx.network.earliestBoarding r.pattern r.boardPosition
      (ctx.readyFor round r.pattern before) before.arrival (s.arrivingTrip before) =
    .found ⟨r.trip, r.tripId, r.boardPosition, before.stop, r.boardTime, r.rule⟩
  board_lt_alight : r.boardPosition < r.alightPosition
  alight_lt : r.alightPosition < (ctx.network.pattern r.pattern).length
  canAlight : (ctx.network.pattern r.pattern).canAlight r.alightPosition = true
  stop_eq : l.stop = (ctx.network.pattern r.pattern).stopAt r.alightPosition
  arrival_eq : l.arrival =
    ((ctx.network.pattern r.pattern).trip r.trip).arrivalAt r.alightPosition

/-- The label before one of the given round is where it should be, and leads to
it: a connector starts a chain in round 0, a ride comes from the round before,
and a walk from a ride of the same round. -/
def Derived (ctx : SearchContext) (s : LabelStore) (round : Nat) (l : Label) : Prop :=
  match l.approach with
  | .access index d =>
    round = 0 ∧ l.parent = none ∧ ∃ c, ctx.access[index]? = some c ∧ c.stop = l.stop ∧
      c.duration = d
  | .ride r =>
    ∃ place before, l.parent = some place ∧ s.label? place = some before ∧
      place.round + 1 = round ∧ ctx.RidesFrom s round r before l
  | .walk origin d =>
    ∃ place before, l.parent = some place ∧ s.label? place = some before ∧
      place.round = round ∧ before.isRide = true ∧ before.stop = origin ∧
      ⟨origin, l.stop, d⟩ ∈ ctx.network.schedule.footpaths
  | .egress .. => False

end SearchContext

/-! ## §2. Reckoning anew. -/

/-- The stop was reached on board a trip. -/
def Approach.isRide : Approach → Bool
  | .ride _ => true
  | _ => false

namespace SearchContext

/-- What one arrives with who rides on after a number of rides.  Only the
timetable is asked for times. -/
def afterRide (ctx : SearchContext) (r : Ride) (rides : Nat) (before : Criteria) : Criteria :=
  let trip := ctx.network.trip r.pattern r.trip
  let boardTime := trip.departureAt r.boardPosition
  let arrival := trip.arrivalAt r.alightPosition
  { arrival
    -- The first ride is no transfer.
    transfers := rides
    cost := before.cost +
      ctx.pricing.boarding (boardTime.waitSince before.arrival) (decide (rides = 0)) +
      ctx.pricing.ride trip.reluctance boardTime arrival
    groups := ctx.merge before.groups trip.group }

/-- What the steps of a chain, the last one first, come to: time, transfers,
cost and groups. -/
def reckon? (ctx : SearchContext) (departure : Time) : List Approach → Option Criteria
  | [.access index _] =>
    ctx.access[index]?.map fun c =>
      { arrival := departure + c.duration
        transfers := 0
        cost := ctx.pricing.connector c
        groups := GroupSet.empty }
  | .ride r :: earlier =>
    (ctx.reckon? departure earlier).map (ctx.afterRide r (earlier.countP Approach.isRide))
  | .walk _ d :: earlier =>
    (ctx.reckon? departure earlier).map fun before =>
      { before with
        arrival := before.arrival + d
        cost := before.cost + ctx.pricing.walk d }
  | _ => none

/-- A stored label can be derived again: from the label before it, and from the
steps of its chain, which leads back to a connector in round 0. -/
structure Derivable (ctx : SearchContext) (departure : Time) (s : LabelStore)
    (place : LabelPlace) (l : Label) : Prop where
  derived : ctx.Derived s place.round l
  /-- Following the references ends in round 0. -/
  originates : ∃ chain, s.trail? l = some chain ∧
    (∃ start origin index d, chain.getLast? = some origin ∧ s.label? start = some origin ∧
      start.round = 0 ∧ origin.approach = .access index d) ∧
    ctx.reckon? departure (chain.map Label.approach) = some l.criteria

variable {ctx : SearchContext} {departure : Time} {s : LabelStore}

/-! ## §3. Ways can be derived. -/

theorem ridesFrom_alight (hn : ctx.network.Valid) {round pattern board alight : Nat}
    {place : LabelPlace} {l : Label} {r : Rider}
    (hstop : (ctx.network.pattern pattern).stopAt board = l.stop)
    (hrider : ctx.riderFrom? (s.arrivingTrip l) round pattern board place l = some r)
    (hlt : board < alight) (hlength : alight < (ctx.network.pattern pattern).length)
    (hcan : (ctx.network.pattern pattern).canAlight alight = true) :
    ctx.RidesFrom s round (rideOf pattern alight r) l (ctx.alight round pattern alight r) := by
  obtain ⟨-, hfound⟩ := of_riderFrom? hrider
  obtain ⟨-, hboardable, -⟩ := Network.Boardable.of_earliestBoarding hn hfound
  have hposition : r.boarding.position = board :=
    congrArg Boarding.position hboardable.eq_boarding
  have hboard : (ctx.network.pattern pattern).stopAt board = r.boarding.stop :=
    (congrArg Boarding.stop hboardable.eq_boarding).symm
  refine ⟨?_, ?_, ?_, hlength, hcan, rfl, rfl⟩
  · show (ctx.network.pattern pattern).stopAt r.boarding.position = _
    rw [hposition]
    exact hstop
  · show ctx.network.earliestBoarding pattern r.boarding.position _ _ _ =
      .found ⟨r.boarding.trip, r.boarding.tripId, r.boarding.position, l.stop, r.boarding.time,
        r.boarding.rule⟩
    rw [← hstop, hboard, hposition]
    rw [← hposition] at hfound ⊢
    exact hfound
  · show r.boarding.position < alight
    rw [hposition]
    exact hlt

/-- The last step of a way is one that the network offers. -/
theorem Way.derived (hn : ctx.network.Valid) {round : Nat} {l : Label} {rest : List Label}
    (h : ctx.Way departure s round (l :: rest)) : ctx.Derived s round l := by
  cases h with
  | access hl =>
      obtain ⟨c, index, hc, hstop, -, happroach, -, -, hparent⟩ := mem_seeds hl
      unfold Derived
      rw [happroach]
      exact ⟨rfl, hparent, c, List.mem_zipIdx_iff_getElem?.mp hc, hstop.symm, rfl⟩
  | @ride round before _ place pattern board alight r hway hplace hround hstop hrider hlt hlength
      hcan =>
      have hparent : r.parent = place := (of_riderFrom? hrider).1
      exact ⟨place, before, congrArg some hparent, hplace, congrArg (· + 1) hround,
        ridesFrom_alight hn hstop hrider hlt hlength hcan⟩
  | @walk _ before _ place path hway hplace hround hride hpath =>
      obtain ⟨hmem, horigin⟩ := hn.mem_footpathsFrom hpath
      refine ⟨place, before, rfl, hplace, hround, hride, rfl, ?_⟩
      rw [← horigin]
      exact hmem

/-- A way starts with a connector, in a place of round 0. -/
theorem Way.starts {round : Nat} {way : List Label} (h : ctx.Way departure s round way) :
    ∀ {l rest place}, way = l :: rest → s.label? place = some l → place.round = round →
      ∃ start origin index d, way.getLast? = some origin ∧ s.label? start = some origin ∧
        start.round = 0 ∧ origin.approach = .access index d := by
  induction h with
  | access hl =>
      intro l rest place heq hplace hround
      cases heq
      obtain ⟨c, index, -, -, -, happroach, -⟩ := mem_seeds hl
      exact ⟨place, _, index, c.duration, rfl, hplace, hround, happroach⟩
  | ride hway hparent hround =>
      rename_i ih
      intro l rest place _ _ _
      rw [List.getLast?_cons_cons]
      exact ih rfl hparent hround
  | walk hway hparent hround =>
      rename_i ih
      intro l rest place _ _ _
      rw [List.getLast?_cons_cons]
      exact ih rfl hparent hround

/-- A way to a label of a round rides as many trips. -/
theorem Way.countP_isRide {round : Nat} {way : List Label}
    (h : ctx.Way departure s round way) :
    (way.map Label.approach).countP Approach.isRide = round := by
  induction h with
  | access hl =>
      obtain ⟨c, index, -, -, -, happroach, -⟩ := mem_seeds hl
      rw [List.map_singleton, happroach]
      rfl
  | ride _ _ _ _ _ _ _ _ ih =>
      rw [List.map_cons, List.countP_cons_of_pos rfl, ih]
  | walk _ _ _ _ _ ih =>
      rw [List.map_cons, List.countP_cons_of_neg (by simp [walkOn, Approach.isRide]), ih]

/-- Whoever gets off has what the ride adds to what one boarded with, as long as
the transfers can be counted. -/
theorem criteria_alight (hn : ctx.network.Valid) {f : Option Feeder}
    {round pattern board alight : Nat} {place : LabelPlace} {l : Label} {r : Rider}
    (hcount : l.criteria.transfers = transferCount round) (hround : round < 256)
    (hrider : ctx.riderFrom? f (round + 1) pattern board place l = some r)
    (hlt : board < alight) (hlength : alight < (ctx.network.pattern pattern).length)
    (hcan : (ctx.network.pattern pattern).canAlight alight = true) :
    (ctx.alight (round + 1) pattern alight r).criteria =
      ctx.afterRide (rideOf pattern alight r) round l.criteria := by
  have hcharges := charges_of_riderFrom? hn hcount hrider alight
  have hcost := hcharges.cost_eq
  have hgroups := hcharges.groups_eq
  rw [(brings_alight hn hrider hlt hlength hcan).carries.boardTime_eq] at hcost
  have htransfers : transferCount (round + 1) = round := Nat.mod_eq_of_lt hround
  show Criteria.mk _ (transferCount (round + 1)) (ctx.alight (round + 1) pattern alight
    r).criteria.cost (ctx.alight (round + 1) pattern alight r).criteria.groups = _
  rw [htransfers, hcost, hgroups]
  rfl

/-- The steps of a way add up to the criteria of its label, as long as the
transfers can be counted. -/
theorem Way.reckon?_eq (hn : ctx.network.Valid) {round : Nat} {way : List Label}
    (h : ctx.Way departure s round way) (hround : round ≤ 256) :
    ∀ {l rest}, way = l :: rest →
      ctx.reckon? departure (way.map Label.approach) = some l.criteria := by
  induction h with
  | @access l hl =>
      intro _ _ heq
      cases heq
      obtain ⟨⟨c, index⟩, hc, rfl⟩ := List.mem_map.mp hl
      have hconnector : ctx.access[index]? = some c := List.mem_zipIdx_iff_getElem?.mp hc
      show ctx.access[index]?.map _ = _
      rw [hconnector]
      rfl
  | @ride round before rest place pattern board alight r hway _ _ _ hrider hlt hlength hcan ih =>
      intro _ _ heq
      cases heq
      have hbefore := ih (Nat.le_of_succ_le hround) rfl
      show (ctx.reckon? departure ((before :: rest).map Label.approach)).map _ = _
      rw [hbefore, hway.countP_isRide, criteria_alight hn (hway.transfers_eq rfl)
        (Nat.lt_of_succ_le hround) hrider hlt hlength hcan]
      rfl
  | @walk round before rest place path hway _ _ _ _ ih =>
      intro _ _ heq
      cases heq
      show (ctx.reckon? departure ((before :: rest).map Label.approach)).map _ = _
      rw [ih hround rfl]
      rfl

/-- Every label of a sound store can be derived, if there are not too many
rounds. -/
theorem StoreSound.derivable {last : Nat} (h : ctx.StoreSound departure s last)
    (hn : ctx.network.Valid) {place : LabelPlace} {l : Label} (hl : s.label? place = some l)
    (hround : place.round ≤ 256) : ctx.Derivable departure s place l := by
  obtain ⟨rest, hway⟩ := h.realised hl
  exact ⟨hway.derived hn, l :: rest, (hway.trail?_eq hl).1, hway.starts rfl hl rfl,
    hway.reckon?_eq hn hround rfl⟩

end SearchContext

/-! ## §4. No round lies beyond the last one. -/

namespace LabelStore

/-- A label is kept in a round that has been reached. -/
theorem round_lt_of_label? {s : LabelStore} {place : LabelPlace} {l : Label}
    (h : s.label? place = some l) : place.round < s.rounds.length := by
  refine Nat.lt_of_not_le fun hle => ?_
  rw [label?_eq, round_of_length_le hle] at h
  cases h

/-- Offers reach no round beyond their own. -/
theorem length_offerAll_le {s : LabelStore} {round last : Nat} (labels : List Label)
    (h : s.rounds.length ≤ last + 1) (hround : round ≤ last) :
    (s.offerAll round labels).1.rounds.length ≤ last + 1 := by
  refine offerAll_induction (motive := fun u => u.rounds.length ≤ last + 1) ?_ h
  intro u l u' place _ hu hadd
  obtain ⟨-, -, -, -, hlength, -⟩ := add?_eq_some hadd
  rw [hlength]
  omega

end LabelStore

namespace Iteration

variable {ctx : SearchContext} {it : Iteration}

/-- No label lies in a round that has not been played. -/
def Within (it : Iteration) : Prop := it.store.rounds.length ≤ it.rounds + 1

theorem start_within (ctx : SearchContext) (departure : Time) : (start ctx departure).Within :=
  LabelStore.length_offerAll_le _ (Nat.zero_le _) (Nat.le_refl 0)

theorem Within.walkOn (h : it.Within) : (it.walkOn ctx).Within := by
  unfold Iteration.walkOn
  split
  · exact h
  · exact LabelStore.length_offerAll_le _ h (Nat.le_refl _)

theorem Within.playRound (hctx : ctx.Valid) (hs : it.Sound ctx) (h : it.Within) :
    (it.playRound ctx).1.Within := by
  have hwalked : (it.walkOn ctx).store.rounds.length ≤ it.rounds + 1 := by
    have hrounds : (it.walkOn ctx).rounds = it.rounds := walkOn_rounds
    rw [← hrounds]
    exact h.walkOn
  show (it.playRound ctx).1.store.rounds.length ≤ it.rounds + 1 + 1
  rw [hs.playRound_store hctx]
  exact LabelStore.length_offerAll_le _ (Nat.le_succ_of_le hwalked) (Nat.le_refl _)

/-- No label of an iteration lies in a round beyond the limit. -/
theorem round_le_of_run (hctx : ctx.Valid) {interrupt : Interrupt} {departure : Time}
    {place : LabelPlace} {l : Label} (h : (run ctx interrupt departure).store.label? place = some l) :
    place.round ≤ ctx.maxRounds := by
  have hplayed : (playRounds ctx interrupt ctx.maxRounds (start ctx departure)).Within :=
    playRounds_induction hctx (fun hw => hw) (fun hs hw => hw.playRound hctx hs) interrupt
      ctx.maxRounds (start_sound hctx departure) (start_within ctx departure)
  have hlimit := playRounds_rounds_le ctx interrupt ctx.maxRounds (start ctx departure)
  have hrounds : (start ctx departure).rounds = 0 := rfl
  have hwithin : (run ctx interrupt departure).store.rounds.length ≤ ctx.maxRounds + 1 := by
    rcases run_cases ctx interrupt departure with ⟨-, heq⟩ | ⟨-, heq⟩
    · rw [heq]
      unfold Within at hplayed
      omega
    · rw [heq]
      have hwalked : ((playRounds ctx interrupt ctx.maxRounds (start ctx departure)).walkOn
        ctx).Within := hplayed.walkOn
      unfold Within at hwalked
      rw [walkOn_rounds] at hwalked
      omega
  have hlt := LabelStore.round_lt_of_label? h
  omega

/-! ## §5. Every label of an iteration. -/

/-- On every timetable, in either direction and with at most 256 rounds, every
label that an iteration leaves behind can be derived, interrupted or not, and
whether the label is still a best one or not. -/
theorem derivable_run {f : Feed} {t : Timetable} (hcompile : f.compile = .ok t)
    {direction : Direction} (hnetwork : ctx.network = t.network direction)
    (haccess : ∀ c ∈ ctx.access, c.stop < t.stopCount) (hrounds : ctx.maxRounds ≤ 256)
    (interrupt : Interrupt) (departure : Time) {place : LabelPlace} {l : Label}
    (hl : (run ctx interrupt departure).store.label? place = some l) :
    ctx.Derivable departure (run ctx interrupt departure).store place l := by
  have hctx := Feed.context_valid hcompile hnetwork haccess
  obtain ⟨hsound, hdeparture⟩ := run_sound hctx interrupt departure
  have hstore := hsound.store
  rw [hdeparture] at hstore
  exact hstore.derivable hctx.network hl (Nat.le_trans (round_le_of_run hctx hl) hrounds)

/-- On the detour the express brings one to the last stop in the second round. -/
theorem derivable_onDetour :
    ∃ place l, place.round = 2 ∧ l.stop = 2 ∧
      (run .onDetour Interrupt.never Time.midnight).store.label? place = some l ∧
      SearchContext.onDetour.Derivable Time.midnight
        (run .onDetour Interrupt.never Time.midnight).store place l := by
  have hstored : ((run .onDetour Interrupt.never Time.midnight).store.label? ⟨2, 0⟩).isSome := by
    decide +kernel
  have hstop : ((run .onDetour Interrupt.never Time.midnight).store.label? ⟨2, 0⟩).map Label.stop =
      some 2 := by decide +kernel
  obtain ⟨l, hl⟩ := Option.isSome_iff_exists.mp hstored
  rw [hl] at hstop
  have hnetwork : SearchContext.onDetour.network = Feed.detour.timetable.network .forward := rfl
  have haccess : ∀ c ∈ SearchContext.onDetour.access, c.stop < Feed.detour.timetable.stopCount := by
    decide +kernel
  exact ⟨⟨2, 0⟩, l, rfl, Option.some.inj hstop, hl,
    derivable_run Feed.compile_detour hnetwork haccess (by decide) Interrupt.never Time.midnight hl⟩

end Iteration

end TransitRouting
