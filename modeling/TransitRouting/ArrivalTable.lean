/-
  TransitRouting.ArrivalTable
  ───────────────────────────
  The best time at each stop, by round.

  For journeys that depart after a given time the best one is the earliest
  arrival; for those that arrive by a given time it is the latest departure.
  Either way it is on the real timeline.  The tables of several iterations are
  merged place by place.
-/
import TransitRouting.LabelStore
import TransitRouting.Network

namespace TransitRouting

/-- The best time by round and stop, where there is one. -/
structure ArrivalTable where
  /-- Times are departures, and later ones are better. -/
  arriveBy : Bool
  /-- For each round the best time at each stop. -/
  rounds : List (List (Option Time))
deriving DecidableEq, Repr

namespace ArrivalTable

/-- A table without times. -/
def empty (direction : Direction) : ArrivalTable := ⟨direction = .reverse, []⟩

/-- The times of a store's best labels. -/
def ofStore (store : LabelStore) (direction : Direction) : ArrivalTable :=
  { arriveBy := direction = .reverse
    rounds := (List.range store.roundCount).map fun round =>
      (List.range store.stopCount).map fun stop =>
        (store.roundArrival? round stop).map direction.searchTime }

/-- The better of two times, if there are two. -/
def better (arriveBy : Bool) : Option Time → Option Time → Option Time
  | some a, some b => some (if arriveBy then max a b else min a b)
  | a, none => a
  | none, b => b

/-- Two lists combined place by place; what only one of them has is kept. -/
def zipLongest {α : Type} (f : α → α → α) : List α → List α → List α
  | [], ys => ys
  | xs, [] => xs
  | x :: xs, y :: ys => f x y :: zipLongest f xs ys

/-- The better time in each place of two tables. -/
def merge (a b : ArrivalTable) : ArrivalTable :=
  { a with rounds := zipLongest (zipLongest (better a.arriveBy)) a.rounds b.rounds }

/-- The best time at a stop in a round. -/
def time? (t : ArrivalTable) (round stop : Nat) : Option Time := do
  let row ← t.rounds[round]?
  let time ← row[stop]?
  time

/-- The best time at a stop in any round. -/
def bestTime? (t : ArrivalTable) (stop : Nat) : Option Time :=
  let times := (List.range t.rounds.length).filterMap fun round => t.time? round stop
  if t.arriveBy then times.max? else times.min?

end ArrivalTable

end TransitRouting
