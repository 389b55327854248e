/-
  TransitRouting.Journey.Sliding
  ──────────────────────────────
  Moving the place where one changes trips to a cheaper stop.

  Two trips that a traveller rides one directly after the other may have more
  than one stop in common.  Of all the pairs of halts where the change could
  be made the cheapest is taken; the pair in use is left only for one that is
  cheaper.
-/
import TransitRouting.Boarding
import TransitRouting.Journey

namespace TransitRouting

/-- What changing trips depends on besides the two legs. -/
structure SlidingContext where
  /-- The schedule as it runs. -/
  network : Network
  /-- What the parts of a journey cost. -/
  pricing : Pricing
  /-- The time for changing, where a pattern has none of its own. -/
  transferSlack : Duration

namespace SlidingContext

variable (ctx : SlidingContext)

/-- When one who left `before` at position `alight` may board the trip of
`after` at position `board`, and the kind of the rule that says so; none if a
rule forbids it. -/
def readiness? (before after : RideLeg) (alight board : Nat) :
    Option (Time × Option RuleKind) :=
  let arrival := ((ctx.network.pattern before.pattern).trip before.trip).arrivalAt alight
  let slack := (ctx.network.pattern after.pattern).minTransferTime.getD ctx.transferSlack
  match ctx.network.ruling ⟨before.pattern, before.tripId, alight⟩ after.pattern board with
  | .forbidden => none
  | .override kind minTransferTime target =>
    -- A rule for another trip of the pattern does not concern this one.
    if target.all (· = after.tripId) then some (arrival + minTransferTime, some kind)
    else some (arrival + slack, none)
  | .unrestricted => some (arrival + slack, none)

/-- The pairs of positions, other than the one in use, where `before` can be
left and `after` boarded at the same stop. -/
def commonHalts (before after : RideLeg) : List (Nat × Nat) :=
  let fromPattern := ctx.network.pattern before.pattern
  let toPattern := ctx.network.pattern after.pattern
  ((fromPattern.laterPositions before.boardPosition).filter fromPattern.canAlight).flatMap
    fun alight =>
      ((List.range after.alightPosition).filter fun board =>
        toPattern.canBoard board && toPattern.stopAt board = fromPattern.stopAt alight &&
          !(alight = before.alightPosition && board = after.boardPosition)).map
        fun board => (alight, board)

/-- The two legs with the change made at other positions, if it can be made
there. -/
def changeAt? (before after : RideLeg) (alight board : Nat) : Option (RideLeg × RideLeg) := do
  let fromPattern := ctx.network.pattern before.pattern
  let toTrip := (ctx.network.pattern after.pattern).trip after.trip
  let stop := fromPattern.stopAt alight
  let (earliest, rule) ← ctx.readiness? before after alight board
  if toTrip.departureAt board < earliest then none
  else if ctx.network.forbidsTrip ⟨before.pattern, before.tripId, alight⟩ after.pattern board
      after.tripId then none
  else
    let before := before.realight ctx.pricing (fromPattern.trip before.trip) alight stop
    let after := after.reboard ctx.pricing toTrip board stop before.alightTime
    some (before, { after with rule })

/-- What two legs cost together. -/
def pairCost (legs : RideLeg × RideLeg) : Cost := legs.1.cost + legs.2.cost

/-- The first of the cheapest pairs that cost less than `limit`. -/
def cheapestBelow (limit : Cost) (pairs : List (RideLeg × RideLeg)) :
    Option (RideLeg × RideLeg) :=
  pairs.foldl
    (fun best? pair =>
      if pairCost pair < (best?.map pairCost).getD limit then some pair else best?)
    none

/-- The two legs with the change made where it is cheapest; none if nothing is
cheaper than the change as it is. -/
def cheapestChange? (before after : RideLeg) : Option (RideLeg × RideLeg) :=
  cheapestBelow (pairCost (before, after))
    ((ctx.commonHalts before after).filterMap fun (alight, board) =>
      ctx.changeAt? before after alight board)

end SlidingContext

end TransitRouting
