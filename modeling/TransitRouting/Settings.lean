/-
  TransitRouting.Settings
  ───────────────────────
  What can be set for all searches: how they run, and the weights of their
  costs.

  Numbers are kept as they were given; the durations that they stand for are
  computed from them.
-/
import TransitRouting.Criteria
import TransitRouting.Pricing

namespace TransitRouting

/-- How searches run. -/
structure SearchSettings where
  /-- Seconds between the times of departure that are tried. -/
  iterationStep : Int
  /-- How many times of departure are tried at most. -/
  maxIterations : Nat
  /-- Times of departure may be tried at the same time. -/
  parallel : Bool
  /-- Seconds for changing, where nothing else is said. -/
  transferSlack : Int
  /-- How many trips a request may ask to board. -/
  maxRounds : Nat
  /-- What becomes of ties. -/
  tieBreak : TieBreak
  /-- Changes between trips are moved to cheaper stops. -/
  slideTransfers : Bool
  /-- Minutes of the shortest window that is picked for a request. -/
  minWindow : Int
  /-- Minutes of the longest window that is picked for a request. -/
  maxWindow : Int
  /-- Share of the fastest travel time that is added to the shortest window. -/
  windowCoefficient : Float
  /-- Minutes of the longest window that a request may ask for. -/
  windowLimit : Int
deriving DecidableEq, Repr

namespace SearchSettings

/-- The settings in use when none are given. -/
def standard : SearchSettings :=
  { iterationStep := 60
    maxIterations := 240
    parallel := true
    transferSlack := 60
    maxRounds := 12
    tieBreak := .firstFound
    slideTransfers := true
    minWindow := 40
    maxWindow := 180
    windowCoefficient := 0.4
    windowLimit := 2880 }

instance : Inhabited SearchSettings := ⟨standard⟩

/-- The step between times of departure; at least a second. -/
def stepDuration (s : SearchSettings) : Duration := Duration.ofSeconds (max s.iterationStep 1)

/-- The time for changing. -/
def slackDuration (s : SearchSettings) : Duration := Duration.ofSeconds s.transferSlack

/-- The shortest window that is picked. -/
def minWindowDuration (s : SearchSettings) : Duration := Duration.ofMinutes s.minWindow

/-- The longest window that is picked. -/
def maxWindowDuration (s : SearchSettings) : Duration := Duration.ofMinutes s.maxWindow

/-- The longest window that may be asked for. -/
def windowLimitDuration (s : SearchSettings) : Duration := Duration.ofMinutes s.windowLimit

/-- The window for a given fastest travel time: the shortest window and a share
of the travel time, but no more than the longest window, in whole steps.  The sum
is made in 32 bits; where it does not fit it wraps around, and the shortest window
is taken.  There is none if the shortest window is longer than the longest one:
nothing can be held within such bounds. -/
def windowFor? (s : SearchSettings) (travel : Duration) : Option Duration :=
  let least := s.minWindowDuration.seconds
  let greatest := s.maxWindowDuration.seconds
  let share := clampedRound (-2147483648) 2147483647
    (Float.ofNat travel.seconds * s.windowCoefficient)
  if greatest < least then none
  else
    let sum := ((least : Int).toInt32 + share.toInt32).toInt
    some ((Duration.ofSeconds (max least (min sum greatest))).ceilTo s.stepDuration)

end SearchSettings

/-- Settings for searches and the weights of their costs. -/
structure Settings where
  /-- How searches run. -/
  search : SearchSettings
  /-- The weights of costs. -/
  costs : CostWeights
deriving DecidableEq, Repr

namespace Settings

/-- The settings in use when none are given. -/
def standard : Settings := ⟨SearchSettings.standard, CostWeights.standard⟩

instance : Inhabited Settings := ⟨standard⟩

end Settings

end TransitRouting
