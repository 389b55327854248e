/-
  TransitRouting.Pricing
  ──────────────────────
  What the parts of a journey cost.

  The same prices are charged to labels during a search and to the legs of the
  journeys that are made from them, so a journey costs what its label did.
  `Pricing` leaves open how seconds and a factor become a cost; the prices of
  `CostWeights` round each product once.
-/
import TransitRouting.Cost

namespace TransitRouting

/-- A way between the origin or the destination and a stop. -/
structure Connector where
  /-- The stop. -/
  stop : Nat
  /-- How long the way takes. -/
  duration : Duration
  /-- What it costs; none if it costs what walking does. -/
  cost : Option Cost
deriving DecidableEq, Repr, Inhabited

/-- The weights of a request's costs. -/
structure CostWeights where
  /-- Factor on time spent waiting. -/
  waitReluctance : Float
  /-- Factor on time spent walking. -/
  walkReluctance : Float
  /-- Factor on time spent on board, times the trip's own. -/
  rideReluctance : Float
  /-- Seconds charged for every boarding but the first. -/
  transferPenalty : Int
  /-- Seconds added to every ride for getting off. -/
  alightSlack : Int
deriving DecidableEq, Repr

namespace CostWeights

/-- The weights in use when none are given. -/
def standard : CostWeights := ⟨1.0, 2.0, 1.0, 300, 0⟩

instance : Inhabited CostWeights := ⟨standard⟩

/-- The transfer penalty as a duration. -/
def penaltyDuration (w : CostWeights) : Duration := Duration.ofSeconds w.transferPenalty

/-- The alight slack as a duration. -/
def slackDuration (w : CostWeights) : Duration := Duration.ofSeconds w.alightSlack

end CostWeights

/-- Prices of the parts of a journey. -/
structure Pricing where
  /-- The cost of a number of seconds at a factor. -/
  price : Int → Float → Cost
  /-- Factor on time spent waiting. -/
  waitReluctance : Float
  /-- Factor on time spent walking. -/
  walkReluctance : Float
  /-- Factor on time spent on board, times the trip's own. -/
  rideReluctance : Float
  /-- Charged for every boarding but the first. -/
  transferPenalty : Cost
  /-- Added to the time of every ride. -/
  alightSlack : Duration

namespace Pricing

/-- The prices that follow from cost weights. -/
def ofWeights (w : CostWeights) : Pricing :=
  { price := Cost.ofSeconds
    waitReluctance := w.waitReluctance
    walkReluctance := w.walkReluctance
    rideReluctance := w.rideReluctance
    transferPenalty := Cost.ofDuration w.penaltyDuration 1.0
    alightSlack := w.slackDuration }

instance : Inhabited Pricing := ⟨ofWeights CostWeights.standard⟩

/-- The cost of a walk. -/
def walk (p : Pricing) (d : Duration) : Cost := p.price d.seconds p.walkReluctance

/-- The cost of a connector: its own, or that of walking as long. -/
def connector (p : Pricing) (c : Connector) : Cost := c.cost.getD (p.walk c.duration)

/-- The cost of boarding after a wait.  The first boarding is free: one leaves
the origin so late that there is no wait, and no transfer has been made. -/
def boarding (p : Pricing) (wait : Duration) (first : Bool) : Cost :=
  if first then Cost.zero else p.price wait.seconds p.waitReluctance + p.transferPenalty

/-- The cost of riding a trip of a given reluctance from one time to another.  The seconds
for getting off are added in 32 bits, and a sum that does not fit wraps around. -/
def ride (p : Pricing) (reluctance : Float) (board alight : Time) : Cost :=
  let seconds := (alight.secondsAfter board).toInt32 + (p.alightSlack.seconds : Int).toInt32
  p.price seconds.toInt (p.rideReluctance * reluctance)

end Pricing

end TransitRouting
