/-
  TransitRouting.Boarding
  ───────────────────────
  Which trip of a pattern can be boarded at a halt.

  Usually it is the first that leaves no earlier than the traveller is ready.
  One who has just left another trip is subject to the rules for that
  connection.  A rule may forbid it for the whole pattern or for one trip, or
  it may set a minimum time of its own, for the whole pattern or for one trip.
-/
import TransitRouting.Network

namespace TransitRouting

/-! ## §1. What is known before boarding. -/

/-- The trip that was left last. -/
structure Feeder where
  /-- Number of its pattern. -/
  pattern : Nat
  /-- Number of the trip in the whole schedule. -/
  trip : Nat
  /-- Position where it was left. -/
  position : Nat
deriving DecidableEq, Repr, Inhabited

/-- A trip that can be boarded. -/
structure Boarding where
  /-- Index of the trip among the pattern's trips. -/
  trip : Nat
  /-- Number of the trip in the whole schedule. -/
  tripId : Nat
  /-- Position where it is boarded. -/
  position : Nat
  /-- The stop there. -/
  stop : Nat
  /-- When it leaves. -/
  time : Time
  /-- Kind of the rule by which it can be boarded, if there is one. -/
  rule : Option RuleKind
deriving DecidableEq, Repr, Inhabited

/-- The outcome of looking for a trip to board. -/
inductive BoardingOutcome where
  /-- This trip can be boarded. -/
  | found (boarding : Boarding)
  /-- No trip leaves at the given time or later. -/
  | nothingAfter (earliest : Time)
  /-- A rule forbids the connection. -/
  | forbidden
deriving DecidableEq, Repr, Inhabited

/-- What the rules say about a connection. -/
inductive Ruling where
  /-- Nothing out of the ordinary. -/
  | unrestricted
  /-- The connection may not be made. -/
  | forbidden
  /-- The minimum time is another one, for one trip or for all. -/
  | override (kind : RuleKind) (minTransferTime : Duration) (trip : Option Nat)
deriving DecidableEq, Repr, Inhabited

/-! ## §2. Rules for a connection. -/

/-- The first rule is to be preferred to the second: it is more specific, or as
specific with a shorter minimum time. -/
def Rule.isPreferredTo (r held : Rule) : Bool :=
  held.specificity < r.specificity ||
    (held.specificity = r.specificity && r.minTransferTime < held.minTransferTime)

/-- The rule to which no other is preferred; the first of several. -/
def Rule.preferred? (rules : List Rule) : Option Rule :=
  rules.foldl
    (fun held? r =>
      match held? with
      | none => some r
      | some held => some (if r.isPreferredTo held then r else held))
    none

namespace Network

/-- The rules for changing from a feeder to a halt. -/
def applicableRules (n : Network) (feeder : Feeder) (pattern position : Nat) : List Rule :=
  (n.rulesFrom feeder.pattern feeder.trip feeder.position).filter fun r =>
    r.feeder.covers feeder.trip && r.onward.isAt pattern position

/-- What the rules say about changing from a feeder to a halt.  A rule that
forbids the whole pattern prevails over all others.  One that forbids a single
trip is left to `forbidsTrip`. -/
def ruling (n : Network) (feeder : Feeder) (pattern position : Nat) : Ruling :=
  let rules := n.applicableRules feeder pattern position
  if rules.any fun r => r.kind = .notAllowed && r.onward.trip = none then .forbidden
  else
    match Rule.preferred? (rules.filter (·.kind.overrides)) with
    | some r => .override r.kind r.minTransferTime r.onward.trip
    | none => .unrestricted

/-- A rule forbids changing from a feeder to a given trip at a halt. -/
def forbidsTrip (n : Network) (feeder : Feeder) (pattern position trip : Nat) : Bool :=
  (n.applicableRules feeder pattern position).any fun r =>
    r.kind = .notAllowed && r.onward.covers trip

end Network

/-! ## §3. The trip to board. -/

namespace Pattern

/-- Boarding the trip with a given index at a position. -/
def boarding (p : Pattern) (trip position : Nat) (rule : Option RuleKind) : Boarding :=
  { trip
    tripId := (p.trip trip).id
    position
    stop := p.stopAt position
    time := (p.trip trip).departureAt position
    rule }

/-- Boarding the first trip that leaves at `earliest` or later. -/
def boardFirst (p : Pattern) (position : Nat) (earliest : Time) (rule : Option RuleKind) :
    BoardingOutcome :=
  match p.firstDeparture? position earliest with
  | some trip => .found (p.boarding trip position rule)
  | none => .nothingAfter earliest

/-- Boarding one particular trip, if it leaves at `earliest` or later. -/
def boardTrip? (p : Pattern) (position : Nat) (earliest : Time) (rule : Option RuleKind)
    (tripId : Nat) : Option Boarding :=
  match p.trips.findIdx? (·.id = tripId) with
  | some trip =>
    if earliest ≤ (p.trip trip).departureAt position then some (p.boarding trip position rule)
    else none
  | none => none

end Pattern

/-- A trip that a rule opens up and the outcome without the rule: the earlier
departure is taken, and of two at the same time the one of the rule. -/
def BoardingOutcome.orTarget (usual : BoardingOutcome) : Option Boarding → BoardingOutcome
  | none => usual
  | some target =>
    match usual with
    | .found b => if b.time < target.time then usual else .found target
    | _ => .found target

namespace Network

/-- The trip to board at a halt by the ruling alone, for one who arrived at
`arrival` and, with the usual time for changing, is ready at `earliest`. -/
def boardByRuling (n : Network) (ruling : Ruling) (pattern position : Nat)
    (earliest arrival : Time) : BoardingOutcome :=
  let p := n.pattern pattern
  match ruling with
  | .unrestricted => p.boardFirst position earliest none
  | .forbidden => .forbidden
  | .override kind minTransferTime none =>
    p.boardFirst position (arrival + minTransferTime) (some kind)
  | .override kind minTransferTime (some target) =>
    (p.boardFirst position earliest none).orTarget
      (p.boardTrip? position (arrival + minTransferTime) (some kind) target)

/-- The trip to board at a halt, for one who arrived at `arrival`, coming from
`feeder` if from a trip, and is ready at `earliest` with the usual time for
changing.  If a rule forbids the trip that is found, no other is tried. -/
def earliestBoarding (n : Network) (pattern position : Nat) (earliest arrival : Time)
    (feeder : Option Feeder) : BoardingOutcome :=
  let p := n.pattern pattern
  -- A closed halt has no departures.
  if !p.canBoard position then .nothingAfter earliest
  else
    match feeder with
    | none => p.boardFirst position earliest none
    | some feeder =>
      match n.boardByRuling (n.ruling feeder pattern position) pattern position earliest
          arrival with
      | .found b =>
        -- Rules for a single trip come last.
        if n.forbidsTrip feeder pattern position b.tripId then .forbidden else .found b
      | result => result

end Network

end TransitRouting
