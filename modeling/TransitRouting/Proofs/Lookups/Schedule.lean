/-
  TransitRouting.Proofs.Lookups.Schedule
  ──────────────────────────────────────
  Looking things up in a schedule, strictly.

  The search takes a neutral answer for what is not there.  A strict search
  makes the same steps and ends at the first lookup that finds nothing, so it
  gives what the search gives just if everything that is looked up is there.
  This module has the strict lookups of a network and of the trip to board; each
  definition comes with the condition under which nothing is missing.

  Main statements:

    • `Strict.firstDeparture?_eq` — halving looks only at trips of the pattern,
      and only at calls that they make;
    • `Strict.lastDepartureFrom?_eq`, `Strict.earliestBoarding_eq` — all that is
      looked up at a stop, or for boarding at a halt, is there.
-/
import TransitRouting.Label
import TransitRouting.Proofs.Boarding
import TransitRouting.Proofs.Checks

namespace TransitRouting

/-! ## §1. Strict lookups. -/

/-- What a lookup did not find. -/
inductive Missing where
  /-- A stop. -/
  | stop (stop : Nat)
  /-- A pattern of the schedule. -/
  | pattern (number : Nat)
  /-- A trip of a pattern. -/
  | trip (index : Nat)
  /-- A halt of a pattern, or the call that a trip makes there. -/
  | position (position : Nat)
  /-- A round of a store. -/
  | round (round : Nat)
  /-- A label that is listed among the best ones of a stop. -/
  | listed (index : Nat)
  /-- The flag of a stop. -/
  | flag (stop : Nat)
  /-- A label that is referred to. -/
  | label (place : LabelPlace)
  /-- A connector of the request. -/
  | connector (index : Nat)
deriving DecidableEq, Repr

/-- What comes of a computation that ends at the first lookup of what is not
there. -/
abbrev Strict (α : Type) := Except Missing α

namespace Strict

open Checks

/-- What was looked up, if it is there. -/
def found {α : Type} (missing : Missing) : Option α → Strict α
  | some x => pure x
  | none => throw missing

/-- The members of a list for which the answer is yes. -/
def keep {α : Type} (ask : α → Strict Bool) (xs : List α) : Strict (List α) := do
  let answers ← xs.mapM fun x => return (x, ← ask x)
  return (answers.filter (·.2)).map (·.1)

/-- What the members of a list lead to, all in one list. -/
def gather {α β : Type} (f : α → Strict (List β)) (xs : List α) : Strict (List β) :=
  return (← xs.mapM f).flatten

theorem keep_eq {α : Type} {ask : α → Strict Bool} {holds : α → Bool} {xs : List α}
    (h : ∀ x ∈ xs, ask x = pure (holds x)) : keep ask xs = pure (xs.filter holds) := by
  have hanswers : xs.mapM (fun x => return (x, ← ask x)) =
      (pure (xs.map fun x => (x, holds x)) : Strict _) :=
    mapM_eq_pure fun x hx => by rw [h x hx, pure_bind]
  unfold keep
  rw [hanswers, pure_bind, List.filter_map, List.map_map]
  exact congrArg pure (List.map_id _)

theorem gather_eq {α β : Type} {f : α → Strict (List β)} {g : α → List β} {xs : List α}
    (h : ∀ x ∈ xs, f x = pure (g x)) : gather f xs = pure (xs.flatMap g) := by
  unfold gather
  rw [mapM_eq_pure h, pure_bind, List.flatMap_def]

/-- The row of a table for a stop. -/
def row {α : Type} (b : Buckets α) (stop : Nat) : Strict (List α) :=
  found (.stop stop) b.rows[stop]?

/-- The pattern with a given number. -/
def pattern (n : Network) (number : Nat) : Strict Pattern :=
  found (.pattern number) n.schedule.patterns[number]?

/-- The trip with a given index among the pattern's trips. -/
def trip (p : Pattern) (index : Nat) : Strict Trip := found (.trip index) p.trips[index]?

/-- The halt at a position. -/
def halt (p : Pattern) (position : Nat) : Strict Halt :=
  found (.position position) p.halts[position]?

/-- The call that a trip makes at a position. -/
def call (t : Trip) (position : Nat) : Strict Call :=
  found (.position position) t.calls[position]?

/-- The same place counted from the other end of a sequence that has it. -/
def opposite (missing : Missing) (length index : Nat) : Strict Nat :=
  if index < length then return Numbering.opposite length index else throw missing

/-- The stop served at a position. -/
def stopAt (p : Pattern) (position : Nat) : Strict Nat := return (← halt p position).stop

/-- Passengers may get on at the position. -/
def canBoard (p : Pattern) (position : Nat) : Strict Bool :=
  return (← halt p position).boarding && position + 1 < p.length

/-- Passengers may get off at the position. -/
def canAlight (p : Pattern) (position : Nat) : Strict Bool :=
  return (← halt p position).alighting && 0 < position

/-- When the trip gets to a position. -/
def arrivalAt (t : Trip) (position : Nat) : Strict Time := return (← call t position).arrival

/-- When the trip leaves a position. -/
def departureAt (t : Trip) (position : Nat) : Strict Time := return (← call t position).departure

theorem row_eq {α : Type} {b : Buckets α} {stop : Nat} (h : stop < b.rows.size) :
    row b stop = pure (b.row stop) := by
  simp [row, Buckets.row, h, found]

theorem pattern_eq {n : Network} {number : Nat} (h : number < n.schedule.patterns.size) :
    pattern n number = pure (n.pattern number) := by
  simp [pattern, Network.pattern, Schedule.pattern, h, found]

theorem trip_eq {p : Pattern} {index : Nat} (h : index < p.trips.length) :
    trip p index = pure (p.trip index) := by
  simp [trip, Pattern.trip, h, found]

theorem opposite_eq {missing : Missing} {length index : Nat} (h : index < length) :
    opposite missing length index = pure (Numbering.opposite length index) := by
  simp [opposite, h]

section Positions

variable {p : Pattern} {t : Trip} {position : Nat}

theorem stopAt_eq (h : position < p.length) : stopAt p position = pure (p.stopAt position) := by
  have hlt : position < p.halts.length := h
  simp [stopAt, halt, Pattern.stopAt, hlt, found]

/-- A pattern without halts has nothing to look up. -/
example : stopAt { (default : Pattern) with halts := [] } 0 = .error (.position 0) := rfl

theorem canBoard_eq (h : position < p.length) :
    canBoard p position = pure (p.canBoard position) := by
  have hlt : position < p.halts.length := h
  simp [canBoard, halt, Pattern.canBoard, hlt, found]

theorem canAlight_eq (h : position < p.length) :
    canAlight p position = pure (p.canAlight position) := by
  have hlt : position < p.halts.length := h
  simp [canAlight, halt, Pattern.canAlight, hlt, found]

theorem arrivalAt_eq (h : position < t.calls.length) :
    arrivalAt t position = pure (t.arrivalAt position) := by
  simp [arrivalAt, call, Trip.arrivalAt, h, found]

theorem departureAt_eq (h : position < t.calls.length) :
    departureAt t position = pure (t.departureAt position) := by
  simp [departureAt, call, Trip.departureAt, h, found]

end Positions

end Strict

/-! ## §2. The trips of a pattern. -/

/-- The trips of a pattern call at all its halts. -/
theorem Pattern.Valid.lt_calls_length {stopCount : Nat} {p : Pattern} (h : p.Valid stopCount)
    {index position : Nat} (hindex : index < p.trips.length) (hposition : position < p.length) :
    position < (p.trip index).calls.length := by
  rw [h.calls_length _ (Pattern.trip_mem hindex)]
  exact hposition

namespace Strict

open Checks

/-- Among the `size` numbers from `base` on the first without a property, if all
numbers that are tried can be asked about it. -/
def partitionPoint (holds : Nat → Strict Bool) (base size : Nat) : Strict Nat :=
  if 1 < size then do
    let half := size / 2
    if ← holds (base + half) then partitionPoint holds (base + half) (size - half)
    else partitionPoint holds base (size - half)
  else if size = 1 then return if ← holds base then base + 1 else base
  else return base
termination_by size

/-- Index of the first trip that leaves the position at `earliest` or later. -/
def firstDeparture? (p : Pattern) (position : Nat) (earliest : Time) : Strict (Option Nat) := do
  let index ← partitionPoint
    (fun index => return (← departureAt (← trip p index) position) < earliest) 0 p.trips.length
  return if index < p.trips.length then some index else none

/-- When the last trip leaves the position. -/
def lastDeparture? (p : Pattern) (position : Nat) : Strict (Option Time) :=
  match p.trips.getLast? with
  | some t => return some (← departureAt t position)
  | none => return none

theorem partitionPoint_eq {ask : Nat → Strict Bool} {holds : Nat → Bool} (base size : Nat)
    (h : ∀ i, base ≤ i → i < base + size → ask i = pure (holds i)) :
    partitionPoint ask base size = pure (TransitRouting.partitionPoint holds base size) := by
  fun_induction TransitRouting.partitionPoint holds base size with
  | case1 base size hsize half hholds ih =>
      have hask : ask (base + half) = pure true := hholds ▸ h _ (Nat.le_add_right _ _) (by omega)
      rw [partitionPoint, if_pos hsize]
      show (ask (base + half) >>= _) = _
      rw [hask]
      exact ih fun i _ _ => h i (by omega) (by omega)
  | case2 base size hsize half hholds ih =>
      have hask : ask (base + half) = pure false := by
        rw [h _ (Nat.le_add_right _ _) (by omega), (Bool.not_eq_true _).mp hholds]
      rw [partitionPoint, if_pos hsize]
      show (ask (base + half) >>= _) = _
      rw [hask]
      exact ih fun i _ _ => h i (by omega) (by omega)
  | case3 base size hsize hone =>
      simp only [Bool.and_eq_true, decide_eq_true_eq] at hone
      rw [partitionPoint, if_neg hsize, if_pos hone.1, h base (Nat.le_refl _) (by omega), hone.2]
      rfl
  | case4 base size hsize hone =>
      rw [partitionPoint, if_neg hsize]
      by_cases hsingle : size = 1
      · have hholds : holds base = false := by simpa [hsingle] using hone
        rw [if_pos hsingle, h base (Nat.le_refl _) (by omega), hholds]
        rfl
      · rw [if_neg hsingle]

section Trips

variable {stopCount : Nat} {p : Pattern} {position : Nat}

/-- Halving looks only at trips of the pattern. -/
theorem firstDeparture?_eq (hp : p.Valid stopCount) (hposition : position < p.length)
    (earliest : Time) :
    firstDeparture? p position earliest = pure (p.firstDeparture? position earliest) := by
  have hask : ∀ index, 0 ≤ index → index < 0 + p.trips.length →
      (do return decide ((← departureAt (← trip p index) position) < earliest) : Strict Bool) =
        pure (decide ((p.trip index).departureAt position < earliest)) := by
    intro index _ hlt
    rw [Nat.zero_add] at hlt
    rw [trip_eq hlt, pure_bind, departureAt_eq (hp.lt_calls_length hlt hposition), pure_bind]
  unfold firstDeparture?
  rw [partitionPoint_eq 0 _ hask, pure_bind]
  rfl

theorem lastDeparture?_eq (hp : p.Valid stopCount) (hposition : position < p.length) :
    lastDeparture? p position = pure (p.lastDeparture? position) := by
  unfold lastDeparture? Pattern.lastDeparture?
  cases hlast : p.trips.getLast? with
  | none => rfl
  | some t =>
      have hcalls : position < t.calls.length := by
        rw [hp.calls_length t (List.mem_of_getLast? hlast)]
        exact hposition
      simp only [departureAt_eq hcalls, pure_bind]
      rfl

end Trips

/-! ## §3. What is listed under a stop. -/

/-- The halts that serve a stop. -/
def visitsAt (n : Network) (stop : Nat) : Strict (List Visit) := row n.visits stop

/-- The footpaths that start at a stop. -/
def footpathsFrom (n : Network) (stop : Nat) : Strict (List Footpath) := row n.footpaths stop

/-- When the last trip leaves that can be boarded at the stop. -/
def lastDepartureFrom? (n : Network) (stop : Nat) : Strict (Option Time) := do
  let departures ← (← visitsAt n stop).mapM fun v => do
    let p ← pattern n v.pattern
    if ← canBoard p v.position then lastDeparture? p v.position else return none
  return (departures.filterMap id).max?

section Stops

variable {n : Network} {stop : Nat}

theorem visitsAt_eq (hn : n.Valid) (h : stop < n.stopCount) :
    visitsAt n stop = pure (n.visitsAt stop) := by
  refine row_eq ?_
  rw [show n.visits = Buckets.ofList n.stopCount (Network.allVisits n.schedule) from
    congrArg Network.visits hn.tables, Buckets.size_ofList]
  exact h

theorem footpathsFrom_eq (hn : n.Valid) (h : stop < n.stopCount) :
    footpathsFrom n stop = pure (n.footpathsFrom stop) := by
  refine row_eq ?_
  rw [show n.footpaths = Buckets.ofList n.stopCount
    (n.schedule.footpaths.map fun f => (f.origin, f)) from congrArg Network.footpaths hn.tables,
    Buckets.size_ofList]
  exact h

/-- What is listed under a stop is there. -/
theorem lastDepartureFrom?_eq (hn : n.Valid) (h : stop < n.stopCount) :
    lastDepartureFrom? n stop = pure (n.lastDeparture? stop) := by
  have hvisit : ∀ v ∈ n.visitsAt stop,
      (do
        let p ← pattern n v.pattern
        if ← canBoard p v.position then lastDeparture? p v.position else return none) =
      (pure (if (n.pattern v.pattern).canBoard v.position then
        (n.pattern v.pattern).lastDeparture? v.position else none) : Strict (Option Time)) := by
    intro v hv
    have hposition := ((hn.mem_visitsAt_iff h).mp hv).1
    rw [pattern_eq (Schedule.lt_size_of_lt_length hposition), pure_bind, canBoard_eq hposition,
      pure_bind, lastDeparture?_eq (hn.pattern_of_lt_length hposition) hposition]
    split <;> rfl
  unfold lastDepartureFrom?
  rw [visitsAt_eq hn h, pure_bind, mapM_eq_pure hvisit, pure_bind, List.filterMap_map]
  rfl

end Stops

/-! ## §4. The trip to board. -/

/-- Boarding the trip with a given index at a position. -/
def boarding (p : Pattern) (index position : Nat) (rule : Option RuleKind) : Strict Boarding := do
  let t ← trip p index
  return {
    trip := index
    tripId := t.id
    position
    stop := ← stopAt p position
    time := ← departureAt t position
    rule }

/-- Boarding the first trip that leaves at `earliest` or later. -/
def boardFirst (p : Pattern) (position : Nat) (earliest : Time) (rule : Option RuleKind) :
    Strict BoardingOutcome := do
  match ← firstDeparture? p position earliest with
  | some index => return .found (← boarding p index position rule)
  | none => return .nothingAfter earliest

/-- Boarding one particular trip, if it leaves at `earliest` or later. -/
def boardTrip? (p : Pattern) (position : Nat) (earliest : Time) (rule : Option RuleKind)
    (tripId : Nat) : Strict (Option Boarding) := do
  match p.trips.findIdx? (·.id = tripId) with
  | some index =>
    if earliest ≤ (← departureAt (← trip p index) position) then
      return some (← boarding p index position rule)
    else return none
  | none => return none

/-- The trip to board at a halt by the ruling alone. -/
def boardByRuling (n : Network) (ruling : Ruling) (number position : Nat)
    (earliest arrival : Time) : Strict BoardingOutcome := do
  let p ← pattern n number
  match ruling with
  | .unrestricted => boardFirst p position earliest none
  | .forbidden => return .forbidden
  | .override kind minTransferTime none =>
    boardFirst p position (arrival + minTransferTime) (some kind)
  | .override kind minTransferTime (some target) =>
    return (← boardFirst p position earliest none).orTarget
      (← boardTrip? p position (arrival + minTransferTime) (some kind) target)

/-- The trip to board at a halt. -/
def earliestBoarding (n : Network) (number position : Nat) (earliest arrival : Time)
    (feeder : Option Feeder) : Strict BoardingOutcome := do
  let p ← pattern n number
  if !(← canBoard p position) then return .nothingAfter earliest
  else
    match feeder with
    | none => boardFirst p position earliest none
    | some feeder =>
      match ← boardByRuling n (n.ruling feeder number position) number position earliest
          arrival with
      | .found b =>
        return if n.forbidsTrip feeder number position b.tripId then .forbidden else .found b
      | result => return result

section Boarding

variable {stopCount : Nat} {p : Pattern} {position : Nat}

theorem boarding_eq (hp : p.Valid stopCount) {index : Nat} (hindex : index < p.trips.length)
    (hposition : position < p.length) (rule : Option RuleKind) :
    boarding p index position rule = pure (p.boarding index position rule) := by
  unfold boarding
  rw [trip_eq hindex, pure_bind, stopAt_eq hposition, pure_bind,
    departureAt_eq (hp.lt_calls_length hindex hposition), pure_bind]
  rfl

theorem boardFirst_eq (hp : p.Valid stopCount) (hposition : position < p.length)
    (earliest : Time) (rule : Option RuleKind) :
    boardFirst p position earliest rule = pure (p.boardFirst position earliest rule) := by
  unfold boardFirst Pattern.boardFirst
  rw [firstDeparture?_eq hp hposition, pure_bind]
  cases hfound : p.firstDeparture? position earliest with
  | none => rfl
  | some index =>
      obtain ⟨hindex, -⟩ := hp.ordered.of_firstDeparture? hposition hfound
      simp only [boarding_eq hp hindex hposition, pure_bind]

theorem boardTrip?_eq (hp : p.Valid stopCount) (hposition : position < p.length)
    (earliest : Time) (rule : Option RuleKind) (tripId : Nat) :
    boardTrip? p position earliest rule tripId =
      pure (p.boardTrip? position earliest rule tripId) := by
  unfold boardTrip? Pattern.boardTrip?
  cases hfound : p.trips.findIdx? (·.id = tripId) with
  | none => rfl
  | some index =>
      obtain ⟨hindex, -⟩ := List.findIdx?_eq_some_iff_getElem.mp hfound
      simp only [trip_eq hindex, departureAt_eq (hp.lt_calls_length hindex hposition),
        boarding_eq hp hindex hposition, pure_bind]
      split <;> rfl

variable {n : Network} {number : Nat}

theorem boardByRuling_eq (hn : n.Valid) (hposition : position < (n.pattern number).length)
    (ruling : Ruling) (earliest arrival : Time) :
    boardByRuling n ruling number position earliest arrival =
      pure (n.boardByRuling ruling number position earliest arrival) := by
  have hp := hn.pattern_of_lt_length hposition
  unfold boardByRuling Network.boardByRuling
  rw [pattern_eq (Schedule.lt_size_of_lt_length hposition), pure_bind]
  match ruling with
  | .unrestricted => exact boardFirst_eq hp hposition _ _
  | .forbidden => rfl
  | .override _ _ none => exact boardFirst_eq hp hposition _ _
  | .override _ _ (some _) =>
      simp only [boardFirst_eq hp hposition, boardTrip?_eq hp hposition, pure_bind]

/-- All that is looked up for boarding at a halt is there. -/
theorem earliestBoarding_eq (hn : n.Valid) (hposition : position < (n.pattern number).length)
    (earliest arrival : Time) (feeder : Option Feeder) :
    earliestBoarding n number position earliest arrival feeder =
      pure (n.earliestBoarding number position earliest arrival feeder) := by
  have hp := hn.pattern_of_lt_length hposition
  unfold earliestBoarding Network.earliestBoarding
  simp only [pattern_eq (Schedule.lt_size_of_lt_length hposition), canBoard_eq hposition,
    boardFirst_eq hp hposition, boardByRuling_eq hn hposition, pure_bind]
  split
  · rfl
  · cases feeder with
    | none => rfl
    | some feeder =>
        simp only
        cases n.boardByRuling (n.ruling feeder number position) number position earliest arrival
          <;> rfl

end Boarding

end Strict

end TransitRouting
