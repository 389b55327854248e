/-
  TransitRouting.Proofs.Lookups.Iteration
  ───────────────────────────────────────
  The rounds of an iteration, with strict lookups.

  What an iteration looks up comes from three places.  Stops come from
  connectors, footpaths and halts; patterns and positions from what is listed
  under these stops, or from a scan along a pattern; trips from those that were
  found to board.  Labels are referred to by the labels made from them.  The
  invariant of the rounds says of all this that it is there.

  Main statements:

    • `Strict.playRound_eq` — one more round looks up nothing that is missing;
    • `Strict.run_eq` — nor does a whole iteration, interrupted or not.
-/
import TransitRouting.Proofs.Iteration.Invariant
import TransitRouting.Proofs.Lookups.Store

namespace TransitRouting

/-! ## §1. What is there in a store of a search. -/

namespace SearchContext

variable {ctx : SearchContext} {departure : Time} {s : LabelStore} {last : Nat}

/-- The label that a label of the search was made from is there. -/
theorem Realised.exists_parent {round : Nat} {l : Label} (h : ctx.Realised departure s round l)
    {place : LabelPlace} (hparent : l.parent = some place) : ∃ e, s.label? place = some e := by
  obtain ⟨rest, hway⟩ := h
  cases hway with
  | access hl =>
      obtain ⟨c, index, -, -, -, -, -, -, hnone⟩ := mem_seeds hl
      rw [hnone] at hparent
      cases hparent
  | ride _ hplace _ _ hrider =>
      rw [show (ctx.alight _ _ _ _).parent = some _ from congrArg some (of_riderFrom? hrider).1]
        at hparent
      obtain rfl := Option.some.inj hparent
      exact ⟨_, hplace⟩
  | walk _ hplace =>
      obtain rfl := Option.some.inj hparent
      exact ⟨_, hplace⟩

/-- Only stops of the network are reached. -/
theorem StoreSound.stop_lt_of_mem_reachedStops (h : ctx.StoreSound departure s last)
    {round stop : Nat} (hstop : stop ∈ s.reachedStops round) : stop < s.stopCount :=
  (h.soundTo.valid round).stop_lt_of_mem_touched hstop

end SearchContext

namespace Strict

open Checks

/-! ## §2. Boarding and riding. -/

/-- The trip that the traveller of a label left last, if any. -/
def arrivingTrip (s : LabelStore) (l : Label) : Strict (Option Feeder) := do
  match l.approach, l.parent with
  | .ride r, _ => return some ⟨r.pattern, r.tripId, r.alightPosition⟩
  | .walk _ _, some place =>
    let parent ← label s place
    return parent.ride?.map fun r => ⟨r.pattern, r.tripId, r.alightPosition⟩
  | _, _ => return none

/-- The best labels of a round that were reached on board a trip. -/
def rideLabels (s : LabelStore) (round stop : Nat) : Strict (List (LabelPlace × Label)) :=
  return (← bestLabels s round stop).filter fun (_, l) => l.isRide

section

variable (ctx : SearchContext)

/-- The rider that boards a pattern at a position from a label of the round
before, if there is a trip to board. -/
def riderFrom? (feeder : Option Feeder) (round number position : Nat) (place : LabelPlace)
    (l : Label) : Strict (Option Rider) := do
  let p ← pattern ctx.network number
  let first := decide (round = 1)
  let earliest := if first then l.arrival else l.arrival + ctx.slackFor p
  match ← earliestBoarding ctx.network number position earliest l.arrival feeder with
  | .found b =>
    let t ← trip p b.trip
    return some
      { parent := place
        boarding := b
        transfers := transferCount round
        cost := l.criteria.cost + ctx.pricing.boarding (b.time.waitSince l.arrival) first
        groups := ctx.merge l.criteria.groups t.group }
  | _ => return none

/-- What a rider's journey costs up to a given time. -/
def costUntil (p : Pattern) (time : Time) (r : Rider) : Strict Cost := do
  let t ← trip p r.boarding.trip
  return r.cost + ctx.pricing.ride t.reluctance r.boarding.time time

/-- The riders on board after one more has boarded.  To compare them, what all of
them have spent by then is looked up. -/
def board (p : Pattern) (riders : List Rider) (r : Rider) : Strict (List Rider) := do
  let _ ← (r :: riders).mapM (costUntil ctx p r.boarding.time)
  return r.board (ctx.costUntil p r.boarding.time) riders

/-- The riders on board after those have boarded who can at a position. -/
def boardAt (store : LabelStore) (round number position : Nat) (riders : List Rider) :
    Strict (List Rider) := do
  let p ← pattern ctx.network number
  if !(← canBoard p position) then return riders
  else
    (← bestLabels store (round - 1) (← stopAt p position)).foldlM
      (fun riders (place, l) => do
        match ← riderFrom? ctx (← arrivingTrip store l) round number position place l with
        | some r => board ctx p riders r
        | none => return riders)
      riders

/-- The label of a rider who gets off at a position. -/
def alight (round number position : Nat) (r : Rider) : Strict Label := do
  let p ← pattern ctx.network number
  let arrival ← arrivalAt (← trip p r.boarding.trip) position
  return {
    stop := ← stopAt p position
    criteria :=
      { arrival
        transfers := transferCount round
        cost := ← costUntil ctx p arrival r
        groups := r.groups }
    approach := .ride
      { pattern := number
        trip := r.boarding.trip
        tripId := r.boarding.tripId
        boardPosition := r.boarding.position
        boardTime := r.boarding.time
        alightPosition := position
        rule := r.boarding.rule }
    parent := some r.parent }

/-- The labels made while a pattern is scanned along a list of positions. -/
def ridesAlong (store : LabelStore) (round number : Nat) :
    List Nat → List Rider → Strict (List Label)
  | [], _ => return []
  | position :: rest, riders => do
    let here ←
      if ← canAlight (← pattern ctx.network number) position then
        riders.mapM (alight ctx round number position)
      else pure []
    let aboard ← boardAt ctx store round number position riders
    return here ++ (← ridesAlong store round number rest aboard)

/-- The labels made on a pattern that is boarded from position `first` on. -/
def ridesOn (store : LabelStore) (round number first : Nat) : Strict (List Label) := do
  let p ← pattern ctx.network number
  ridesAlong ctx store round number (List.range' first (p.length - first)) []

/-- The patterns that can be boarded from the labels of a round, in ascending
order, each with the first position where it can. -/
def boardablePatterns (store : LabelStore) (round : Nat) : Strict (List (Nat × Nat)) := do
  let visits ← gather (visitsAt ctx.network) (store.reachedStops round)
  let boardable ← keep
    (fun v => do canBoard (← pattern ctx.network v.pattern) v.position) visits
  let count := ctx.network.schedule.patterns.size
  let positions := Buckets.ofList count (boardable.map fun v => (v.pattern, v.position))
  return (List.range count).filterMap fun number =>
    (positions.row number).min?.map fun first => (number, first)

end

section Riding

variable {ctx : SearchContext} {departure : Time} {s : LabelStore} {last : Nat}
  {round number position : Nat}

/-- The trip left last is found, for the label before a walk is there. -/
theorem arrivingTrip_eq {l : Label}
    (h : ∀ {place}, l.parent = some place → ∃ e, s.label? place = some e) :
    arrivingTrip s l = pure (s.arrivingTrip l) := by
  unfold arrivingTrip LabelStore.arrivingTrip
  cases l.approach with
  | ride r => rfl
  | access _ _ => rfl
  | egress _ _ => rfl
  | walk _ _ =>
      cases hparent : l.parent with
      | none => rfl
      | some place =>
          obtain ⟨e, he⟩ := h hparent
          simp only [label_eq he, he, pure_bind, Option.bind_some]

theorem rideLabels_eq (hs : s.Valid) {stop : Nat} (h : stop < s.stopCount) :
    rideLabels s round stop = pure (s.rideLabels round stop) := by
  unfold rideLabels
  rw [bestLabels_eq hs h, pure_bind]
  rfl

/-- A trip that was found to board is one of the pattern's. -/
theorem riderFrom?_eq (hn : ctx.network.Valid)
    (hposition : position < (ctx.network.pattern number).length) (feeder : Option Feeder)
    (place : LabelPlace) (l : Label) :
    riderFrom? ctx feeder round number position place l =
      pure (ctx.riderFrom? feeder round number position place l) := by
  unfold riderFrom? SearchContext.riderFrom?
  simp only [pattern_eq (Schedule.lt_size_of_lt_length hposition), pure_bind,
    earliestBoarding_eq hn hposition]
  cases hfound : ctx.network.earliestBoarding number position
      (if decide (round = 1) = true then l.arrival
        else l.arrival + ctx.slackFor (ctx.network.pattern number)) l.arrival feeder with
  | nothingAfter _ => rfl
  | forbidden => rfl
  | found b =>
      obtain ⟨-, hboardable, -⟩ := Network.Boardable.of_earliestBoarding hn hfound
      simp only [trip_eq hboardable.trip_lt, pure_bind]

/-- All riders are on trips of the pattern. -/
def Aboard (p : Pattern) (riders : List Rider) : Prop :=
  ∀ r ∈ riders, r.boarding.trip < p.trips.length

theorem board_eq {p : Pattern} {riders : List Rider} {r : Rider} (h : Aboard p riders)
    (hr : r.boarding.trip < p.trips.length) :
    board ctx p riders r = pure (r.board (ctx.costUntil p r.boarding.time) riders) := by
  have hcosts : (r :: riders).mapM (costUntil ctx p r.boarding.time) =
      pure ((r :: riders).map (ctx.costUntil p r.boarding.time)) := by
    refine mapM_eq_pure fun x hx => ?_
    have hlt : x.boarding.trip < p.trips.length := by
      rcases List.mem_cons.mp hx with rfl | hx
      · exact hr
      · exact h x hx
    unfold costUntil
    rw [trip_eq hlt, pure_bind]
    rfl
  unfold board
  rw [hcosts, pure_bind]

/-- Whoever boards is on a trip of the pattern. -/
theorem boarding_trip_lt (hn : ctx.network.Valid) {feeder : Option Feeder} {place : LabelPlace}
    {l : Label} {r : Rider} (h : ctx.riderFrom? feeder round number position place l = some r) :
    r.boarding.trip < (ctx.network.pattern number).trips.length := by
  obtain ⟨-, hfound⟩ := SearchContext.of_riderFrom? h
  obtain ⟨-, hboardable, -⟩ := Network.Boardable.of_earliestBoarding hn hfound
  exact hboardable.trip_lt

theorem aboard_boardAt (hn : ctx.network.Valid) {riders : List Rider}
    (h : Aboard (ctx.network.pattern number) riders) :
    Aboard (ctx.network.pattern number) (ctx.boardAt s round number position riders) := by
  intro r hr
  rcases SearchContext.mem_boardAt hr with hr | ⟨-, place, l, -, hrider⟩
  · exact h r hr
  · exact boarding_trip_lt hn hrider

theorem boardAt_eq (hn : ctx.network.Valid) (hs : ctx.StoreSound departure s last)
    (hposition : position < (ctx.network.pattern number).length) {riders : List Rider}
    (h : Aboard (ctx.network.pattern number) riders) :
    boardAt ctx s round number position riders =
      pure (ctx.boardAt s round number position riders) := by
  have hstop : (ctx.network.pattern number).stopAt position < s.stopCount := by
    rw [hs.stopCount]
    exact (hn.pattern_of_lt_length hposition).stop_lt position hposition
  unfold boardAt SearchContext.boardAt
  simp only [pattern_eq (Schedule.lt_size_of_lt_length hposition), canBoard_eq hposition,
    stopAt_eq hposition, bestLabels_eq hs.soundTo.valid hstop, pure_bind]
  split
  · rfl
  · -- Along the labels all riders stay on trips of the pattern.
    refine foldlM_eq_pure (motive := Aboard (ctx.network.pattern number)) h ?_
    rintro aboard ⟨place, l⟩ hl haboard
    have hkept := hs.soundTo.valid.label?_of_mem_bestLabels hl
    have hparent : ∀ {q}, l.parent = some q → ∃ e, s.label? q = some e :=
      (hs.realised hkept).exists_parent
    simp only [arrivingTrip_eq hparent, riderFrom?_eq hn hposition, pure_bind]
    cases hrider : ctx.riderFrom? (s.arrivingTrip l) round number position place l with
    | none => exact ⟨rfl, haboard⟩
    | some r =>
        have htrip := boarding_trip_lt hn hrider
        refine ⟨board_eq haboard htrip, ?_⟩
        intro x hx
        rcases Frontier.mem_offer hx with rfl | hx
        · exact htrip
        · exact haboard x hx

theorem alight_eq (hn : ctx.network.Valid)
    (hposition : position < (ctx.network.pattern number).length) {r : Rider}
    (hr : r.boarding.trip < (ctx.network.pattern number).trips.length) :
    alight ctx round number position r = pure (ctx.alight round number position r) := by
  have hp := hn.pattern_of_lt_length hposition
  unfold alight costUntil
  simp only [pattern_eq (Schedule.lt_size_of_lt_length hposition), trip_eq hr,
    arrivalAt_eq (hp.lt_calls_length hr hposition), stopAt_eq hposition, pure_bind]
  rfl

/-- A scan looks only at halts of the pattern, with riders on its trips. -/
theorem ridesAlong_eq (hn : ctx.network.Valid) (hs : ctx.StoreSound departure s last)
    {positions : List Nat} (hpositions : ∀ q ∈ positions, q < (ctx.network.pattern number).length)
    {riders : List Rider} (h : Aboard (ctx.network.pattern number) riders) :
    ridesAlong ctx s round number positions riders =
      pure (ctx.ridesAlong s round number positions riders) := by
  induction positions generalizing riders with
  | nil => rfl
  | cons position rest ih =>
      obtain ⟨hposition, hrest⟩ := List.forall_mem_cons.mp hpositions
      have hhere : riders.mapM (alight ctx round number position) =
          pure (riders.map (ctx.alight round number position)) :=
        mapM_eq_pure fun r hr => alight_eq hn hposition (h r hr)
      unfold ridesAlong SearchContext.ridesAlong
      simp only [pattern_eq (Schedule.lt_size_of_lt_length hposition), canAlight_eq hposition,
        boardAt_eq hn hs hposition h, ih hrest (aboard_boardAt hn h), hhere, pure_bind]
      split <;> rfl

theorem ridesOn_eq (hn : ctx.network.Valid) (hs : ctx.StoreSound departure s last)
    (hnumber : number < ctx.network.schedule.patterns.size) (first : Nat) :
    ridesOn ctx s round number first = pure (ctx.ridesOn s round number first) := by
  unfold ridesOn
  rw [pattern_eq hnumber, pure_bind]
  refine ridesAlong_eq hn hs (fun q hq => ?_) fun r hr => absurd hr List.not_mem_nil
  rw [List.mem_range'_1] at hq
  omega

theorem boardablePatterns_eq (hn : ctx.network.Valid) (hs : ctx.StoreSound departure s last) :
    boardablePatterns ctx s round = pure (ctx.boardablePatterns s round) := by
  have hstops : ∀ stop ∈ s.reachedStops round, stop < ctx.network.stopCount :=
    fun stop hstop => hs.stopCount ▸ hs.stop_lt_of_mem_reachedStops hstop
  have hvisits : ∀ v ∈ (s.reachedStops round).flatMap ctx.network.visitsAt,
      (do canBoard (← pattern ctx.network v.pattern) v.position : Strict Bool) =
        pure ((ctx.network.pattern v.pattern).canBoard v.position) := by
    intro v hv
    obtain ⟨stop, hstop, hv⟩ := List.mem_flatMap.mp hv
    have hposition := ((hn.mem_visitsAt_iff (hstops stop hstop)).mp hv).1
    rw [pattern_eq (Schedule.lt_size_of_lt_length hposition), pure_bind, canBoard_eq hposition]
  unfold boardablePatterns
  rw [gather_eq fun stop hstop => visitsAt_eq hn (hstops stop hstop), pure_bind, keep_eq hvisits,
    pure_bind]
  rfl

end Riding

/-! ## §3. What the phases offer. -/

section

variable (ctx : SearchContext)

/-- The stops that are reached on foot from where trips of a round were left. -/
def walks (store : LabelStore) (round : Nat) : Strict (List Label) := do
  let sources ← gather (rideLabels store round) (store.reachedStops round)
  gather
    (fun (place, l) => return (← footpathsFrom ctx.network l.stop).map (ctx.walkOn place l)) sources

/-- The stops that are reached by boarding one more trip from the labels of the
round before. -/
def rides (store : LabelStore) (round : Nat) : Strict (List Label) := do
  gather (fun (number, first) => ridesOn ctx store round number first)
    (← boardablePatterns ctx store (round - 1))

/-- The ways to the destination from where trips of a round were left. -/
def exits (store : LabelStore) (round : Nat) : Strict (List Label) :=
  gather
    (fun (c, index) =>
      return (← rideLabels store round c.stop).map fun (place, l) => ctx.leave place l c index)
    ctx.egress.zipIdx

end

section Phases

variable {ctx : SearchContext} {departure : Time} {s : LabelStore} {last round : Nat}

theorem walks_eq (hn : ctx.network.Valid) (hs : ctx.StoreSound departure s last) :
    walks ctx s round = pure (ctx.walks s round) := by
  have hsources : ∀ source ∈ (s.reachedStops round).flatMap (s.rideLabels round),
      source.2.stop < ctx.network.stopCount := by
    rintro ⟨place, l⟩ hl
    obtain ⟨stop, hstop, hl⟩ := List.mem_flatMap.mp hl
    rw [hs.soundTo.valid.stop_of_mem_bestLabels (List.mem_filter.mp hl).1, ← hs.stopCount]
    exact hs.stop_lt_of_mem_reachedStops hstop
  unfold walks
  rw [gather_eq fun stop hstop =>
    rideLabels_eq hs.soundTo.valid (hs.stop_lt_of_mem_reachedStops hstop), pure_bind]
  refine gather_eq ?_
  rintro ⟨place, l⟩ hl
  simp only [footpathsFrom_eq hn (hsources _ hl), pure_bind]

theorem rides_eq (hn : ctx.network.Valid) (hs : ctx.StoreSound departure s last) :
    rides ctx s round = pure (ctx.rides s round) := by
  unfold rides
  rw [boardablePatterns_eq hn hs, pure_bind]
  refine gather_eq ?_
  rintro ⟨number, first⟩ hscan
  -- Only numbers of patterns are scanned.
  obtain ⟨number', hnumber, hfirst⟩ := List.mem_filterMap.mp hscan
  obtain ⟨first', -, heq⟩ := Option.map_eq_some_iff.mp hfirst
  obtain ⟨rfl, rfl⟩ := Prod.mk.inj heq
  exact ridesOn_eq hn hs (List.mem_range.mp hnumber) first'

theorem exits_eq (hs : ctx.StoreSound departure s last)
    (hegress : ∀ c ∈ ctx.egress, c.stop < ctx.network.stopCount) :
    exits ctx s round = pure (ctx.exits s round) := by
  refine gather_eq ?_
  rintro ⟨c, index⟩ hc
  have hstop := hegress c (List.mem_of_getElem? (List.mem_zipIdx_iff_getElem?.mp hc))
  simp only [rideLabels_eq hs.soundTo.valid (hs.stopCount ▸ hstop), pure_bind]

end Phases

end Strict

/-! ## §4. The rounds. -/

/-- An iteration whose store has flags. -/
structure FlaggedIteration where
  /-- Departure from the origin. -/
  departure : Time
  /-- The labels, with flags. -/
  store : FlaggedStore
  /-- The labels at the destination. -/
  destinations : List Label
  /-- Number of completed rounds. -/
  rounds : Nat
  /-- It was cut short. -/
  cancelled : Bool

/-- The iteration with the flags that are in step with its store. -/
def Iteration.flagged (it : Iteration) : FlaggedIteration :=
  ⟨it.departure, it.store.flagged, it.destinations, it.rounds, it.cancelled⟩

theorem Iteration.flagged_rounds (it : Iteration) : it.flagged.rounds = it.rounds := rfl

theorem Iteration.flagged_cancelled (it : Iteration) : it.flagged.cancelled = it.cancelled := rfl

theorem Iteration.flagged_destinations (it : Iteration) :
    it.flagged.destinations = it.destinations := rfl

theorem Iteration.erase_flagged_store (it : Iteration) : it.flagged.store.erase = it.store :=
  it.store.erase_flagged

namespace Strict

open Checks

section

variable (ctx : SearchContext)

/-- The iteration before its first round. -/
def start (departure : Time) : Strict FlaggedIteration := do
  let (store, _) ← offerAll (FlaggedStore.empty ctx.network.stopCount ctx.tieBreak) 0
    (ctx.seeds departure)
  return { departure, store, destinations := [], rounds := 0, cancelled := false }

/-- Offers the walks from the last completed round, if one was completed. -/
def walkOn (it : FlaggedIteration) : Strict FlaggedIteration := do
  if it.rounds = 0 then return it
  else
    let (store, _) ← offerAll it.store it.rounds (← walks ctx it.store.erase it.rounds)
    return { it with store }

/-- Plays one more round. -/
def playRound (it : FlaggedIteration) : Strict (FlaggedIteration × Nat) := do
  let round := it.rounds + 1
  let it ← walkOn ctx it
  let (store, added) ← offerAll it.store round (← rides ctx it.store.erase round)
  let (store, _) ← pruneRound store round
  let destinations := (← exits ctx store.erase round).foldl
    (Frontier.offer (Label.rivalry ctx.tieBreak)) it.destinations
  return ({ it with store, destinations, rounds := round }, added)

/-- Plays up to the given number of rounds, until one adds nothing or an
interrupt comes. -/
def playRounds (interrupt : Interrupt) : Nat → FlaggedIteration → Strict FlaggedIteration
  | 0, it => return it
  | limit + 1, it => do
    if interrupt (it.rounds + 1) then return { it with cancelled := true }
    else
      let (it, added) ← playRound ctx it
      if added = 0 then return it else playRounds interrupt limit it

/-- The whole iteration for a time of departure. -/
def run (interrupt : Interrupt) (departure : Time) : Strict FlaggedIteration := do
  let it ← playRounds ctx interrupt ctx.maxRounds (← start ctx departure)
  if it.cancelled then return it else walkOn ctx it

end

section Running

variable {ctx : SearchContext} {it : Iteration}

theorem start_eq (hctx : ctx.Valid) (departure : Time) :
    start ctx departure = pure (Iteration.start ctx departure).flagged := by
  have hvalid := LabelStore.Valid.empty ctx.network.stopCount ctx.tieBreak
  have hempty : FlaggedStore.empty ctx.network.stopCount ctx.tieBreak =
    (LabelStore.empty ctx.network.stopCount ctx.tieBreak).flagged := rfl
  unfold start
  rw [hempty, offerAll_eq hvalid fun l hl => hctx.stop_lt_of_mem_seeds hl, pure_bind]
  rfl

theorem walkOn_eq (hctx : ctx.Valid) (h : it.Sound ctx) :
    walkOn ctx it.flagged = pure (it.walkOn ctx).flagged := by
  have hstops : ∀ l ∈ ctx.walks it.store it.rounds, l.stop < it.store.stopCount :=
    fun l hl => h.store.stopCount ▸ hctx.stop_lt_of_mem_walks hl
  unfold walkOn Iteration.walkOn Iteration.flagged
  rw [LabelStore.erase_flagged, walks_eq hctx.network h.store, pure_bind,
    offerAll_eq h.store.soundTo.valid hstops, pure_bind]
  split <;> rfl

/-- One more round looks up nothing that is missing. -/
theorem playRound_eq (hctx : ctx.Valid)
    (hegress : ∀ c ∈ ctx.egress, c.stop < ctx.network.stopCount) (h : it.Sound ctx) :
    playRound ctx it.flagged = pure ((it.playRound ctx).1.flagged, (it.playRound ctx).2) := by
  have hwalked := (h.walkOn hctx).store
  rw [Iteration.walkOn_rounds] at hwalked
  obtain ⟨hridden, -, -⟩ := hwalked.rides hctx
  have hstops : ∀ l ∈ ctx.rides (it.walkOn ctx).store (it.rounds + 1),
      l.stop < (it.walkOn ctx).store.stopCount :=
    fun l hl => hwalked.stopCount ▸ hctx.stop_lt_of_mem_rides hl
  -- Pruning finds nothing to do.
  have hpruned := LabelStore.prune_eq_self hridden.soundTo.valid hridden.soundTo.pareto
    (it.rounds + 1)
  unfold playRound Iteration.playRound
  simp only [walkOn_eq hctx h, pure_bind]
  simp only [Iteration.flagged, LabelStore.erase_flagged, rides_eq hctx.network hwalked,
    offerAll_eq hwalked.soundTo.valid hstops, pruneRound_eq hridden.soundTo.valid, hpruned,
    exits_eq hridden hegress, pure_bind]

/-- Nor do all rounds, for each of them keeps the invariant. -/
theorem playRounds_eq (hctx : ctx.Valid)
    (hegress : ∀ c ∈ ctx.egress, c.stop < ctx.network.stopCount) (interrupt : Interrupt)
    (limit : Nat) (h : it.Sound ctx) :
    playRounds ctx interrupt limit it.flagged =
      pure (Iteration.playRounds ctx interrupt limit it).flagged := by
  induction limit generalizing it with
  | zero => rfl
  | succ limit ih =>
      unfold playRounds Iteration.playRounds
      rw [Iteration.flagged_rounds]
      split
      · rfl
      · rw [playRound_eq hctx hegress h, pure_bind]
        simp only
        split
        · rfl
        · exact ih (h.playRound hctx).1

/-- A whole iteration looks up nothing that is missing, interrupted or not. -/
theorem run_eq (hctx : ctx.Valid)
    (hegress : ∀ c ∈ ctx.egress, c.stop < ctx.network.stopCount) (interrupt : Interrupt)
    (departure : Time) :
    run ctx interrupt departure = pure (Iteration.run ctx interrupt departure).flagged := by
  have hstart := Iteration.start_sound hctx departure
  obtain ⟨hplayed, -⟩ := hstart.playRounds hctx interrupt ctx.maxRounds
  unfold run Iteration.run
  rw [start_eq hctx, pure_bind, playRounds_eq hctx hegress interrupt _ hstart, pure_bind,
    Iteration.flagged_cancelled]
  simp only
  split
  · rfl
  · exact walkOn_eq hctx hplayed

end Running

end Strict

end TransitRouting
