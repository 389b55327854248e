/-
  TransitRouting.Iteration
  ────────────────────────
  The search for one time of departure, in rounds.

  Round 0 holds the stops that can be reached from the origin.  In each later
  round one more trip is boarded: from the labels of the round before, by way
  of footpaths if that helps, trips are boarded and ridden, and every halt at
  which passengers may get off becomes a label of the round.  The rounds end
  when no label is added, when the limit is reached, or on an interrupt.

  What a phase of a round offers to the store is a list of labels, computed
  from the round before alone (`seeds`, `walks`, `rides`), so a whole
  iteration is a sequence of offers to rounds that never go back.
-/
import TransitRouting.Boarding
import TransitRouting.LabelStore
import TransitRouting.Pricing

namespace TransitRouting

/-! ## §1. What an iteration works with. -/

/-- All that the iterations of one search have in common. -/
structure SearchContext where
  /-- The network, for the direction of the search. -/
  network : Network
  /-- Ways from where the search starts. -/
  access : List Connector
  /-- Ways to where it ends. -/
  egress : List Connector
  /-- What the parts of a journey cost. -/
  pricing : Pricing
  /-- How priority groups are recorded. -/
  merge : GroupMerge
  /-- The greatest number of trips to board. -/
  maxRounds : Nat
  /-- The time for changing, where a pattern has none of its own. -/
  transferSlack : Duration
  /-- What becomes of ties. -/
  tieBreak : TieBreak

/-- Whether a search is to stop, asked before each round. -/
abbrev Interrupt := Nat → Bool

namespace Interrupt

/-- The search is left to run. -/
def never : Interrupt := fun _ => false

/-- The search is to stop at once. -/
def always : Interrupt := fun _ => true

end Interrupt

/-- The transfers that a label of a round has made, kept in one byte. -/
def transferCount (round : Nat) : Nat := (round - 1) % 256

/-! ## §2. Boarding and riding. -/

/-- A traveller on board a trip of the pattern that is being scanned. -/
structure Rider where
  /-- The label from which the trip was boarded. -/
  parent : LabelPlace
  /-- Where and when it was boarded. -/
  boarding : Boarding
  /-- Transfers made so far. -/
  transfers : Nat
  /-- Cost so far, boarding included. -/
  cost : Cost
  /-- Priority groups used so far. -/
  groups : GroupSet
deriving DecidableEq, Repr, Inhabited

namespace Rider

/-- On the same trip, the first is as good as the second or better, with costs
projected by `costNow`. -/
def covers (costNow : Rider → Cost) (a b : Rider) : Bool :=
  a.boarding.trip = b.boarding.trip && a.transfers ≤ b.transfers && a.groups ⊆ b.groups &&
    costNow a ≤ costNow b

/-- Riders compete with those on the same trip. -/
def rivalry (costNow : Rider → Cost) : Rivalry Rider :=
  { dominates := covers costNow, rejects := covers costNow }

/-- The riders on board after one more has boarded, unless another one covers
that rider. -/
def board (costNow : Rider → Cost) (riders : List Rider) (r : Rider) : List Rider :=
  Frontier.offer (rivalry costNow) riders r

end Rider

namespace LabelStore

/-- The trip that the traveller of a label left last, if any: the one ridden to
the stop, or the one before the walk to it. -/
def arrivingTrip (s : LabelStore) (l : Label) : Option Feeder :=
  match l.approach with
  | .ride r => some ⟨r.pattern, r.tripId, r.alightPosition⟩
  | .walk _ _ =>
    (l.parent.bind s.label?).bind fun parent =>
      parent.ride?.map fun r => ⟨r.pattern, r.tripId, r.alightPosition⟩
  | _ => none

/-- The best labels of a round that were reached on board a trip. -/
def rideLabels (s : LabelStore) (round stop : Nat) : List (LabelPlace × Label) :=
  (s.bestLabels round stop).filter fun (_, l) => l.isRide

end LabelStore

namespace SearchContext

variable (ctx : SearchContext)

/-- The usual time for changing to a pattern. -/
def slackFor (p : Pattern) : Duration := p.minTransferTime.getD ctx.transferSlack

/-- The rider that boards a pattern at a position from a label of the round
before, coming from `feeder` if from a trip, if there is a trip to board. -/
def riderFrom? (feeder : Option Feeder) (round pattern position : Nat) (place : LabelPlace)
    (l : Label) : Option Rider :=
  let p := ctx.network.pattern pattern
  -- Nobody changes trips in the first round, so no time is needed for it.
  let first := decide (round = 1)
  let earliest := if first then l.arrival else l.arrival + ctx.slackFor p
  match ctx.network.earliestBoarding pattern position earliest l.arrival feeder with
  | .found b =>
    some
      { parent := place
        boarding := b
        transfers := transferCount round
        cost := l.criteria.cost + ctx.pricing.boarding (b.time.waitSince l.arrival) first
        groups := ctx.merge l.criteria.groups (p.trip b.trip).group }
  | _ => none

/-- What a rider's journey costs up to a given time. -/
def costUntil (p : Pattern) (time : Time) (r : Rider) : Cost :=
  r.cost + ctx.pricing.ride (p.trip r.boarding.trip).reluctance r.boarding.time time

/-- The riders on board after those have boarded who can at a position. -/
def boardAt (store : LabelStore) (round pattern position : Nat) (riders : List Rider) :
    List Rider :=
  let p := ctx.network.pattern pattern
  if !p.canBoard position then riders
  else
    (store.bestLabels (round - 1) (p.stopAt position)).foldl
      (fun riders (place, l) =>
        match ctx.riderFrom? (store.arrivingTrip l) round pattern position place l with
        | some r => r.board (ctx.costUntil p r.boarding.time) riders
        | none => riders)
      riders

/-- The label of a rider who gets off at a position. -/
def alight (round pattern position : Nat) (r : Rider) : Label :=
  let p := ctx.network.pattern pattern
  let arrival := (p.trip r.boarding.trip).arrivalAt position
  { stop := p.stopAt position
    criteria :=
      { arrival
        transfers := transferCount round
        cost := ctx.costUntil p arrival r
        groups := r.groups }
    approach := .ride
      { pattern
        trip := r.boarding.trip
        tripId := r.boarding.tripId
        boardPosition := r.boarding.position
        boardTime := r.boarding.time
        alightPosition := position
        rule := r.boarding.rule }
    parent := some r.parent }

/-- The labels made while a pattern is scanned along a list of positions: at
each of them riders get off first, then others board. -/
def ridesAlong (store : LabelStore) (round pattern : Nat) : List Nat → List Rider → List Label
  | [], _ => []
  | position :: rest, riders =>
    (if (ctx.network.pattern pattern).canAlight position then
      riders.map (ctx.alight round pattern position)
    else []) ++
      ridesAlong store round pattern rest (ctx.boardAt store round pattern position riders)

/-- The labels made on a pattern that is boarded from position `first` on. -/
def ridesOn (store : LabelStore) (round pattern first : Nat) : List Label :=
  ctx.ridesAlong store round pattern
    (List.range' first ((ctx.network.pattern pattern).length - first)) []

/-- The patterns that can be boarded from the labels of a round, in ascending
order, each with the first position where it can. -/
def boardablePatterns (store : LabelStore) (round : Nat) : List (Nat × Nat) :=
  let visits := (store.reachedStops round).flatMap ctx.network.visitsAt
  let boardable := visits.filter fun v => (ctx.network.pattern v.pattern).canBoard v.position
  let count := ctx.network.schedule.patterns.size
  let positions := Buckets.ofList count (boardable.map fun v => (v.pattern, v.position))
  -- From the first of the positions on, one scan serves all of them.
  (List.range count).filterMap fun pattern =>
    (positions.row pattern).min?.map fun first => (pattern, first)

/-! ## §3. What the phases offer. -/

/-- The stops that are reached from the origin by connectors. -/
def seeds (departure : Time) : List Label :=
  ctx.access.zipIdx.map fun (c, index) =>
    { stop := c.stop
      criteria :=
        { arrival := departure + c.duration
          transfers := 0
          cost := ctx.pricing.connector c
          groups := GroupSet.empty }
      approach := .access index c.duration
      parent := none }

/-- The label of one who walks on from another label. -/
def walkOn (place : LabelPlace) (l : Label) (path : Footpath) : Label :=
  { stop := path.destination
    criteria :=
      { l.criteria with
        arrival := l.arrival + path.duration
        cost := l.criteria.cost + ctx.pricing.walk path.duration }
    approach := .walk l.stop path.duration
    parent := some place }

/-- The stops that are reached on foot from where trips of a round were left.
Nobody walks on from a walk. -/
def walks (store : LabelStore) (round : Nat) : List Label :=
  let sources := (store.reachedStops round).flatMap (store.rideLabels round)
  sources.flatMap fun (place, l) => (ctx.network.footpathsFrom l.stop).map (ctx.walkOn place l)

/-- The stops that are reached by boarding one more trip from the labels of the
round before. -/
def rides (store : LabelStore) (round : Nat) : List Label :=
  (ctx.boardablePatterns store (round - 1)).flatMap fun (pattern, first) =>
    ctx.ridesOn store round pattern first

/-- The label of one who goes on to the destination. -/
def leave (place : LabelPlace) (l : Label) (c : Connector) (index : Nat) : Label :=
  { stop := c.stop
    criteria :=
      { l.criteria with
        arrival := l.arrival + c.duration
        cost := l.criteria.cost + ctx.pricing.connector c }
    approach := .egress index c.duration
    parent := some place }

/-- The ways to the destination from where trips of a round were left. -/
def exits (store : LabelStore) (round : Nat) : List Label :=
  ctx.egress.zipIdx.flatMap fun (c, index) =>
    (store.rideLabels round c.stop).map fun (place, l) => ctx.leave place l c index

end SearchContext

/-! ## §4. The rounds. -/

/-- An iteration: where it started and what it has found. -/
structure Iteration where
  /-- Time of departure, on the timeline of the search. -/
  departure : Time
  /-- All labels. -/
  store : LabelStore
  /-- The labels that reached the destination and are not superfluous. -/
  destinations : List Label
  /-- Number of completed rounds. -/
  rounds : Nat
  /-- The iteration was interrupted. -/
  cancelled : Bool
deriving Inhabited

namespace Iteration

variable (ctx : SearchContext)

/-- The iteration before its first round. -/
def start (departure : Time) : Iteration :=
  let store := LabelStore.empty ctx.network.stopCount ctx.tieBreak
  { departure
    store := (store.offerAll 0 (ctx.seeds departure)).1
    destinations := []
    rounds := 0
    cancelled := false }

/-- Offers the walks from the last completed round, if one was completed. -/
def walkOn (it : Iteration) : Iteration :=
  if it.rounds = 0 then it
  else { it with store := (it.store.offerAll it.rounds (ctx.walks it.store it.rounds)).1 }

/-- Plays one more round.  Gives the iteration and how many labels the round's
rides added. -/
def playRound (it : Iteration) : Iteration × Nat :=
  let round := it.rounds + 1
  -- The walks come from the round before and still belong to it.
  let it := it.walkOn ctx
  let (store, added) := it.store.offerAll round (ctx.rides it.store round)
  let store := (store.prune round).1
  let destinations :=
    (ctx.exits store round).foldl (Frontier.offer (Label.rivalry ctx.tieBreak)) it.destinations
  ({ it with store, destinations, rounds := round }, added)

/-- Plays up to the given number of rounds, until one adds nothing or an
interrupt comes. -/
def playRounds (interrupt : Interrupt) : Nat → Iteration → Iteration
  | 0, it => it
  | limit + 1, it =>
    if interrupt (it.rounds + 1) then { it with cancelled := true }
    else
      let (it, added) := it.playRound ctx
      -- The round that adds nothing counts as completed.
      if added = 0 then it else playRounds interrupt limit it

/-- The whole iteration for a time of departure.  Unless it was interrupted,
the walks from the last round are added at the end. -/
def run (interrupt : Interrupt) (departure : Time) : Iteration :=
  let it := playRounds ctx interrupt ctx.maxRounds (start ctx departure)
  if it.cancelled then it else it.walkOn ctx

end Iteration

end TransitRouting
