/-
  TransitRouting.Request
  ──────────────────────
  Requests for journeys, and which of them are refused.

  A request asks for journeys that leave within a window of time, or arrive
  within one.  It is refused if it could not mean anything or asks for more
  than the settings allow; a request that is accepted but finds nothing is no
  error.
-/
import TransitRouting.Network
import TransitRouting.Settings
import TransitRouting.Time.Clock

namespace TransitRouting

/-- A request for journeys. -/
structure Request where
  /-- Ways from the origin to stops. -/
  access : List Connector
  /-- Ways from stops to the destination. -/
  egress : List Connector
  /-- Earliest departure, or latest arrival. -/
  time : Time
  /-- The time is that of the latest arrival. -/
  arriveBy : Bool
  /-- Length of the window; one is picked if none is given. -/
  window : Option Duration
  /-- The greatest number of transfers. -/
  maxTransfers : Nat
  /-- The weights of costs. -/
  costs : CostWeights
  /-- How priority groups are recorded. -/
  merge : GroupMerge

/-- The side of a journey. -/
inductive JourneySide where
  | access
  | egress
deriving DecidableEq, Repr

/-- The word for the side. -/
def JourneySide.word : JourneySide → String
  | access => "access"
  | egress => "egress"

/-- Why a request is refused. -/
inductive RequestError where
  /-- There is no way from the origin. -/
  | noAccess
  /-- There is no way to the destination. -/
  | noEgress
  /-- A connector refers to a stop that is not there. -/
  | unknownStop (side : JourneySide) (stop : Nat)
  /-- The window has no length. -/
  | emptyWindow
  /-- The window is longer than allowed. -/
  | windowTooLong (requested limit : Duration)
  /-- More transfers are asked for than allowed. -/
  | tooManyTransfers (requested limit : Nat)
  /-- A factor is negative or not a finite number. -/
  | badReluctance
  /-- A number of seconds is negative. -/
  | badPenalty
deriving DecidableEq, Repr

/-- The message for the user. -/
def RequestError.message : RequestError → String
  | noAccess => "request has no access stops"
  | noEgress => "request has no egress stops"
  | unknownStop side stop => side.word ++ " stop " ++ toString stop ++ " is not in the snapshot"
  | emptyWindow => "search window must not be empty"
  | windowTooLong requested limit =>
      "search window " ++ requested.text ++ " exceeds limit " ++ limit.text
  | tooManyTransfers requested limit =>
      "max transfers " ++ toString requested ++ " exceeds limit " ++ toString limit
  | badReluctance => "invalid cost configuration: reluctance must be a non-negative number"
  | badPenalty => "invalid cost configuration: penalties must not be negative"

namespace Request

/-- The greatest number of trips to board.  A number of transfers is taken to be less than
the greatest machine word, 2⁶⁴ - 1, to which one cannot be added. -/
def maxRounds (r : Request) : Nat := r.maxTransfers + 1

/-- The direction of time in which the search runs. -/
def direction (r : Request) : Direction := if r.arriveBy then .reverse else .forward

/-- The factor can weight a cost. -/
def isWeight (factor : Float) : Bool := factor.isFinite && !(factor < 0)

/-- Refuses a side with a connector to a stop that is not there. -/
def checkStops (stopCount : Nat) (side : JourneySide) (connectors : List Connector) :
    Except RequestError Unit :=
  match connectors.find? (stopCount ≤ ·.stop) with
  | some c => .error (.unknownStop side c.stop)
  | none => .ok ()

/-- Refuses a window that is empty or too long. -/
def checkWindow (limit : Duration) : Option Duration → Except RequestError Unit
  | none => .ok ()
  | some window =>
    if window.seconds = 0 then .error .emptyWindow
    else if limit < window then .error (.windowTooLong window limit)
    else .ok ()

/-- Refuses weights that costs cannot have. -/
def checkCosts (w : CostWeights) : Except RequestError Unit :=
  if !([w.waitReluctance, w.walkReluctance, w.rideReluctance].all isWeight) then
    .error .badReluctance
  else if w.transferPenalty < 0 ∨ w.alightSlack < 0 then .error .badPenalty
  else .ok ()

/-- Accepts a request, or gives the first reason to refuse it. -/
def validate (r : Request) (stopCount : Nat) (settings : SearchSettings) :
    Except RequestError Unit := do
  if r.access.isEmpty then throw .noAccess
  if r.egress.isEmpty then throw .noEgress
  checkStops stopCount .access r.access
  checkStops stopCount .egress r.egress
  checkWindow settings.windowLimitDuration r.window
  if settings.maxRounds < r.maxRounds then
    throw (.tooManyTransfers r.maxTransfers (settings.maxRounds - 1))
  checkCosts r.costs

end Request

end TransitRouting
