/-
  TransitRouting.Document.Records
  ───────────────────────────────
  The records in which feeds, settings and journeys are exchanged.
-/
import TransitRouting.Document
import TransitRouting.Feed
import TransitRouting.Journey
import TransitRouting.Settings

namespace TransitRouting

/-! ## §1. Values. -/

/-- A time: a whole number of seconds. -/
def Time.ofDatum? (d : Datum) : Option Time := d.int32?.bind Time.ofSeconds?

/-- A duration: a whole number of seconds that is not negative. -/
def Duration.ofDatum? (d : Datum) : Option Duration := d.int32?.bind Duration.ofSeconds?

/-- A cost: a whole number of hundredths. -/
def Cost.ofDatum? (d : Datum) : Option Cost := d.int64?.map fun n => ⟨n.toInt64⟩

/-- A kind of rule: its word. -/
def RuleKind.ofDatum? (dialect : Dialect) (d : Datum) : Option RuleKind :=
  (d.word? dialect).bind RuleKind.ofWord?

namespace TieBreak

/-- The word for the choice. -/
def word : TieBreak → String
  | firstFound => "first_discovered_wins"
  | keepAll => "keep_all"

/-- A choice between ties: its word. -/
def ofDatum? (dialect : Dialect) (d : Datum) : Option TieBreak :=
  (d.word? dialect).bind fun w => [firstFound, keepAll].find? (·.word = w)

end TieBreak

/-! ## §2. Feeds. -/

/-- A trip of a feed. -/
def TripFeed.ofDatum? (dialect : Dialect) (d : Datum) : Option TripFeed := do
  let field ← d.record? dialect ["id", "arrivals", "departures", "priority_group", "reluctance"]
  let id ← (← field "id").text?
  let arrivals ← (← field "arrivals").listOf? Time.ofDatum?
  let departures ← (← field "departures").listOf? Time.ofDatum?
  let group ← Datum.orElse 0 (Datum.natUpTo? 255) (field "priority_group")
  let reluctance ← Datum.orElse 1.0 Datum.float? (field "reluctance")
  return { id, arrivals, departures, group, reluctance }

/-- A pattern of a feed. -/
def PatternFeed.ofDatum? (dialect : Dialect) (d : Datum) : Option PatternFeed := do
  let field ← d.record? dialect
    ["id", "stops", "no_boarding", "no_alighting", "min_transfer_time", "trips"]
  let id ← (← field "id").text?
  let stops ← (← field "stops").listOf? Datum.number32?
  let noBoarding ← Datum.orElse [] (Datum.listOf? Datum.number32?) (field "no_boarding")
  let noAlighting ← Datum.orElse [] (Datum.listOf? Datum.number32?) (field "no_alighting")
  let minTransferTime ←
    Datum.orElse none (Datum.optional? Duration.ofDatum?) (field "min_transfer_time")
  let trips ← Datum.orElse [] (Datum.listOf? (TripFeed.ofDatum? dialect)) (field "trips")
  return { id, stops, noBoarding, noAlighting, minTransferTime, trips }

/-- A footpath of a feed. -/
def Footpath.ofDatum? (dialect : Dialect) (d : Datum) : Option Footpath := do
  let field ← d.record? dialect ["from", "to", "duration"]
  let origin ← (← field "from").number32?
  let destination ← (← field "to").number32?
  let duration ← Duration.ofDatum? (← field "duration")
  return { origin, destination, duration }

/-- A rule of a feed. -/
def RuleFeed.ofDatum? (dialect : Dialect) (d : Datum) : Option RuleFeed := do
  let field ← d.record? dialect
    ["from_trip", "from_position", "to_trip", "to_pattern", "to_position", "kind",
      "min_transfer_time"]
  let feederTrip ← (← field "from_trip").text?
  let feederPosition ← (← field "from_position").number32?
  let onwardTrip ← Datum.orElse none (Datum.optional? Datum.text?) (field "to_trip")
  let onwardPattern ← Datum.orElse none (Datum.optional? Datum.text?) (field "to_pattern")
  let onwardPosition ← (← field "to_position").number32?
  let kind ← RuleKind.ofDatum? dialect (← field "kind")
  let minTransferTime ←
    Datum.orElse Duration.zero Duration.ofDatum? (field "min_transfer_time")
  return { feederTrip, feederPosition, onwardTrip, onwardPattern, onwardPosition, kind,
           minTransferTime }

/-- A feed. -/
def Feed.ofDatum? (dialect : Dialect) (d : Datum) : Option Feed := do
  let field ← d.record? dialect ["stops", "patterns", "transfers", "constrained_transfers"]
  let stops ← (← field "stops").listOf? Datum.text?
  let patterns ← Datum.orElse [] (Datum.listOf? (PatternFeed.ofDatum? dialect)) (field "patterns")
  let footpaths ← Datum.orElse [] (Datum.listOf? (Footpath.ofDatum? dialect)) (field "transfers")
  let rules ←
    Datum.orElse [] (Datum.listOf? (RuleFeed.ofDatum? dialect)) (field "constrained_transfers")
  return { stops, patterns, footpaths, rules }

/-! ## §3. Settings. -/

/-- How searches run.  What is not given is as usual. -/
def SearchSettings.ofDatum? (dialect : Dialect) (d : Datum) : Option SearchSettings := do
  let field ← d.record? dialect
    ["iteration_step_secs", "max_iterations", "parallel", "default_transfer_slack_secs",
      "max_rounds_limit", "tie_break", "optimize_transfers", "min_window_mins",
      "max_window_mins", "window_coefficient", "window_limit_mins"]
  let usual := standard
  let iterationStep ←
    Datum.orElse usual.iterationStep Datum.int32? (field "iteration_step_secs")
  let maxIterations ← Datum.orElse usual.maxIterations Datum.number64? (field "max_iterations")
  let parallel ← Datum.orElse usual.parallel Datum.bool? (field "parallel")
  let transferSlack ←
    Datum.orElse usual.transferSlack Datum.int32? (field "default_transfer_slack_secs")
  let maxRounds ← Datum.orElse usual.maxRounds Datum.number64? (field "max_rounds_limit")
  let tieBreak ← Datum.orElse usual.tieBreak (TieBreak.ofDatum? dialect) (field "tie_break")
  let slideTransfers ← Datum.orElse usual.slideTransfers Datum.bool? (field "optimize_transfers")
  let minWindow ← Datum.orElse usual.minWindow Datum.int32? (field "min_window_mins")
  let maxWindow ← Datum.orElse usual.maxWindow Datum.int32? (field "max_window_mins")
  let windowCoefficient ←
    Datum.orElse usual.windowCoefficient Datum.float? (field "window_coefficient")
  let windowLimit ← Datum.orElse usual.windowLimit Datum.int32? (field "window_limit_mins")
  return { iterationStep, maxIterations, parallel, transferSlack, maxRounds, tieBreak,
           slideTransfers, minWindow, maxWindow, windowCoefficient, windowLimit }

/-- The weights of costs.  What is not given is as usual. -/
def CostWeights.ofDatum? (dialect : Dialect) (d : Datum) : Option CostWeights := do
  let field ← d.record? dialect
    ["wait_reluctance", "walk_reluctance", "transit_reluctance", "transfer_penalty_secs",
      "alight_slack_secs"]
  let usual := standard
  let waitReluctance ← Datum.orElse usual.waitReluctance Datum.float? (field "wait_reluctance")
  let walkReluctance ← Datum.orElse usual.walkReluctance Datum.float? (field "walk_reluctance")
  let rideReluctance ← Datum.orElse usual.rideReluctance Datum.float? (field "transit_reluctance")
  let transferPenalty ←
    Datum.orElse usual.transferPenalty Datum.int32? (field "transfer_penalty_secs")
  let alightSlack ← Datum.orElse usual.alightSlack Datum.int32? (field "alight_slack_secs")
  return { waitReluctance, walkReluctance, rideReluctance, transferPenalty, alightSlack }

/-- All settings.  What is not given is as usual. -/
def Settings.ofDatum? (dialect : Dialect) (d : Datum) : Option Settings := do
  let field ← d.record? dialect ["search", "costs"]
  let search ← Datum.orElse standard.search (SearchSettings.ofDatum? dialect) (field "search")
  let costs ← Datum.orElse standard.costs (CostWeights.ofDatum? dialect) (field "costs")
  return { search, costs }

/-! ## §4. Journeys. -/

/-- A time. -/
def Time.toDatum (t : Time) : Datum := .int t.seconds

/-- A duration. -/
def Duration.toDatum (d : Duration) : Datum := .int d.seconds

/-- A cost. -/
def Cost.toDatum (c : Cost) : Datum := .int c.hundredths.toInt

/-- The kind of a rule, or nothing. -/
def RuleKind.toDatum (kind : Option RuleKind) : Datum :=
  match kind with
  | some k => .text k.word
  | none => .null

/-- The fields of a way from the origin or to the destination. -/
def ConnectorLeg.fields (l : ConnectorLeg) : List (String × Datum) :=
  [("stop", .int l.stop), ("departure_time", l.departure.toDatum),
    ("arrival_time", l.arrival.toDatum), ("duration", l.duration.toDatum),
    ("cost", l.cost.toDatum)]

/-- The fields of a walk. -/
def WalkLeg.fields (l : WalkLeg) : List (String × Datum) :=
  [("from", .int l.origin), ("to", .int l.destination),
    ("departure_time", l.departure.toDatum), ("arrival_time", l.arrival.toDatum),
    ("duration", l.duration.toDatum), ("cost", l.cost.toDatum)]

/-- The fields of a ride. -/
def RideLeg.fields (l : RideLeg) : List (String × Datum) :=
  [("pattern", .int l.pattern), ("trip", .int l.trip), ("trip_id", .int l.tripId),
    ("board_position", .int l.boardPosition), ("board_stop", .int l.boardStop),
    ("board_time", l.boardTime.toDatum), ("alight_position", .int l.alightPosition),
    ("alight_stop", .int l.alightStop), ("alight_time", l.alightTime.toDatum),
    ("ready_time", l.ready.toDatum), ("first", .bool l.first),
    ("constraint", RuleKind.toDatum l.rule), ("board_cost", l.boardCost.toDatum),
    ("transit_cost", l.rideCost.toDatum)]

/-- A leg, with its kind first. -/
def Leg.toDatum : Leg → Datum
  | access l => .table (("type", .text "access") :: l.fields)
  | ride l => .table (("type", .text "transit") :: l.fields)
  | walk l => .table (("type", .text "transfer") :: l.fields)
  | egress l => .table (("type", .text "egress") :: l.fields)

/-- The fields of a journey. -/
def Journey.fields (j : Journey) : List (String × Datum) :=
  [("legs", .list (j.legs.map Leg.toDatum)), ("departure_time", j.merit.departure.toDatum),
    ("arrival_time", j.merit.arrival.toDatum), ("transfers", .int j.merit.transfers),
    ("cost", j.merit.cost.toDatum), ("groups", .int j.merit.groups.bits.toNat)]

/-- A journey. -/
def Journey.toDatum (j : Journey) : Datum := .table j.fields

end TransitRouting
