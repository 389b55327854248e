/-
  TransitRouting.Proofs.Schedule.Duality
  ──────────────────────────────────────
  The two networks of a timetable say the same about the same service day.

  A search for the latest departure runs on the reversed network and is read
  back afterwards.  That is right only if nothing is lost on the way: whatever
  can be ridden or walked in one network can be ridden or walked the other way
  in the other, in the same number of seconds, and reversing once more leads
  back.

  Main statements:

    • `Network.dual_of_reversed` — the network of a reversed schedule offers the
      opposites of all rides and walks, and no others;
    • `Timetable.Dual` — what this says of the networks of a timetable, both
      ways;
    • `Feed.dual_of_compile` — a compiled timetable has all of it, if its times
      can be negated.
-/
import Mathlib.Data.List.Count
import TransitRouting.Proofs.Iteration.Chains
import TransitRouting.Proofs.Journey.Charges
import TransitRouting.Proofs.Schedule.Transcription

namespace TransitRouting

/-! ## §1. Trips and patterns run backwards. -/

/-- The second trip is the first one run backwards along `length` halts. -/
structure Trip.Opposes (length : Nat) (t u : Trip) : Prop where
  id_eq : u.id = t.id
  group_eq : u.group = t.group
  reluctance_eq : u.reluctance = t.reluctance
  /-- It leaves when the first one gets there. -/
  departureAt_eq : ∀ q < length, u.departureAt q = -t.arrivalAt (Numbering.opposite length q)
  /-- It gets there when the first one leaves. -/
  arrivalAt_eq : ∀ q < length, u.arrivalAt q = -t.departureAt (Numbering.opposite length q)

theorem Trip.opposes_reversed {length : Nat} {t : Trip} (h : t.calls.length = length) :
    t.Opposes length t.reversed where
  id_eq := rfl
  group_eq := rfl
  reluctance_eq := rfl
  departureAt_eq := by
    intro q hq
    rw [Trip.reversed_departureAt t (h ▸ hq), h]
  arrivalAt_eq := by
    intro q hq
    rw [Trip.reversed_arrivalAt t (h ▸ hq), h]

/-- The second pattern is the first one run backwards. -/
structure Pattern.Opposes (p r : Pattern) : Prop where
  name_eq : r.name = p.name
  length_eq : r.length = p.length
  minTransferTime_eq : r.minTransferTime = p.minTransferTime
  stopAt_eq : ∀ q < p.length, r.stopAt q = p.stopAt (Numbering.opposite p.length q)
  /-- Who may alight may board. -/
  canBoard_eq : ∀ q < p.length, r.canBoard q = p.canAlight (Numbering.opposite p.length q)
  /-- Who may board may alight. -/
  canAlight_eq : ∀ q < p.length, r.canAlight q = p.canBoard (Numbering.opposite p.length q)
  trips_length : r.trips.length = p.trips.length
  /-- The trips come in the opposite order. -/
  trip : ∀ i < p.trips.length,
    (p.trip (Numbering.opposite p.trips.length i)).Opposes p.length (r.trip i)

theorem Pattern.Valid.opposes_reversed {stopCount : Nat} {p : Pattern} (h : p.Valid stopCount) :
    p.Opposes p.reversed where
  name_eq := rfl
  length_eq := p.reversed_length
  minTransferTime_eq := rfl
  stopAt_eq := fun _ hq => p.reversed_stopAt hq
  canBoard_eq := fun _ hq => p.reversed_canBoard hq
  canAlight_eq := fun _ hq => p.reversed_canAlight hq
  trips_length := p.reversed_trips_length
  trip := by
    intro i hi
    rw [p.reversed_trip hi]
    exact Trip.opposes_reversed (h.calls_length _ (Pattern.trip_mem (Numbering.opposite_lt hi)))

/-! ## §2. Rides and walks in the other network. -/

namespace Network

/-- Whatever the first network offers, the second offers the other way. -/
structure Dual (n r : Network) : Prop where
  stopCount_eq : r.stopCount = n.stopCount
  size_eq : r.schedule.patterns.size = n.schedule.patterns.size
  pattern : ∀ number < n.schedule.patterns.size, (n.pattern number).Opposes (r.pattern number)
  /-- A trip can be ridden from one halt to another exactly if its opposite can
  be ridden the other way. -/
  offers_iff : ∀ {number trip board alight : Nat}, trip < (n.pattern number).trips.length →
    board < (n.pattern number).length → alight < (n.pattern number).length →
    (n.Offers number trip board alight ↔
      r.Offers number (Numbering.opposite (n.pattern number).trips.length trip)
        (Numbering.opposite (n.pattern number).length alight)
        (Numbering.opposite (n.pattern number).length board))
  /-- On board one spends the same number of seconds. -/
  secondsAfter_eq : ∀ {number trip board alight : Nat}, trip < (n.pattern number).trips.length →
    board < (n.pattern number).length → alight < (n.pattern number).length →
    let opposite := r.trip number (Numbering.opposite (n.pattern number).trips.length trip)
    (opposite.arrivalAt (Numbering.opposite (n.pattern number).length board)).secondsAfter
        (opposite.departureAt (Numbering.opposite (n.pattern number).length alight)) =
      ((n.trip number trip).arrivalAt alight).secondsAfter ((n.trip number trip).departureAt board)
  /-- One can walk back as often as forth. -/
  count_footpathsFrom : ∀ origin destination duration,
    (n.footpathsFrom origin).count ⟨origin, destination, duration⟩ =
      (r.footpathsFrom destination).count ⟨destination, origin, duration⟩
  rules_eq : r.schedule.rules =
    n.schedule.rules.map (Rule.reversed fun number => (n.pattern number).length)

variable {n r : Network}

/-- A footpath stands under its origin as often as it is in the schedule. -/
theorem Valid.count_footpathsFrom (h : n.Valid) (f : Footpath) :
    (n.footpathsFrom f.origin).count f = n.schedule.footpaths.count f := by
  by_cases hf : f ∈ n.schedule.footpaths
  · rw [h.footpathsFrom_eq (h.schedule.footpath f hf).1]
    exact List.count_filter (by simp)
  · have hrow : f ∉ n.footpathsFrom f.origin := fun hmem => hf (h.mem_footpathsFrom hmem).1
    rw [List.count_eq_zero_of_not_mem hf, List.count_eq_zero_of_not_mem hrow]

theorem reversed_pattern_eq (hr : r.schedule = n.schedule.reversed) (number : Nat) :
    r.pattern number = (n.pattern number).reversed := by
  unfold Network.pattern
  rw [hr, Schedule.reversed_pattern]

/-- A ride is offered exactly if its opposite is offered in the reversed
network. -/
theorem offers_iff_opposite (hr : r.schedule = n.schedule.reversed)
    {number trip board alight : Nat} (htrip : trip < (n.pattern number).trips.length)
    (hboard : board < (n.pattern number).length) (halight : alight < (n.pattern number).length) :
    n.Offers number trip board alight ↔
      r.Offers number (Numbering.opposite (n.pattern number).trips.length trip)
        (Numbering.opposite (n.pattern number).length alight)
        (Numbering.opposite (n.pattern number).length board) := by
  have hp := reversed_pattern_eq hr number
  have hcanBoard : (r.pattern number).canBoard
      (Numbering.opposite (n.pattern number).length alight) =
        (n.pattern number).canAlight alight := by
    rw [hp, Pattern.reversed_canBoard _ (Numbering.opposite_lt halight),
      Numbering.opposite_opposite halight]
  have hcanAlight : (r.pattern number).canAlight
      (Numbering.opposite (n.pattern number).length board) =
        (n.pattern number).canBoard board := by
    rw [hp, Pattern.reversed_canAlight _ (Numbering.opposite_lt hboard),
      Numbering.opposite_opposite hboard]
  have horder : Numbering.opposite (n.pattern number).length alight <
      Numbering.opposite (n.pattern number).length board ↔ board < alight := by
    unfold Numbering.opposite
    omega
  constructor
  · intro h
    refine ⟨?_, hcanBoard.trans h.canAlight, hcanAlight.trans h.canBoard,
      horder.mpr h.board_lt_alight, ?_⟩
    · rw [hp, Pattern.reversed_trips_length]
      exact Numbering.opposite_lt htrip
    · rw [hp, Pattern.reversed_length]
      exact Numbering.opposite_lt hboard
  · intro h
    exact ⟨htrip, hcanAlight.symm.trans h.canAlight, hcanBoard.symm.trans h.canBoard,
      horder.mp h.board_lt_alight, halight⟩

/-- The opposite of a trip is the trip reversed. -/
theorem trip_opposite (hr : r.schedule = n.schedule.reversed) {number trip : Nat}
    (htrip : trip < (n.pattern number).trips.length) :
    r.trip number (Numbering.opposite (n.pattern number).trips.length trip) =
      (n.trip number trip).reversed := by
  show (r.pattern number).trip _ = ((n.pattern number).trip trip).reversed
  rw [reversed_pattern_eq hr, Pattern.reversed_trip _ (Numbering.opposite_lt htrip),
    Numbering.opposite_opposite htrip]

/-- The network of a reversed schedule offers the opposites of all rides and
walks. -/
theorem dual_of_reversed (hn : n.Valid) (hvalid : r.Valid)
    (hr : r.schedule = n.schedule.reversed)
    (hneg : ∀ number, ∀ trip ∈ (n.pattern number).trips, trip.Negatable) : n.Dual r where
  stopCount_eq := by
    unfold Network.stopCount
    rw [hr]
    rfl
  size_eq := by
    rw [hr]
    exact n.schedule.reversed_patterns_size
  pattern := by
    intro number hnumber
    rw [reversed_pattern_eq hr]
    exact (hn.schedule.pattern number hnumber).opposes_reversed
  offers_iff := offers_iff_opposite hr
  secondsAfter_eq := by
    intro number trip board alight htrip hboard halight
    have hcalls : (n.trip number trip).calls.length = (n.pattern number).length :=
      (hn.pattern_of_lt_length hboard).calls_length _ (Pattern.trip_mem htrip)
    have hseconds := (hneg number _ (Pattern.trip_mem htrip)).seconds_ne
    show Time.secondsAfter _ _ = _
    rw [trip_opposite hr htrip,
      Trip.reversed_arrivalAt _ (hcalls.symm ▸ Numbering.opposite_lt hboard),
      Trip.reversed_departureAt _ (hcalls.symm ▸ Numbering.opposite_lt halight), hcalls,
      Numbering.opposite_opposite hboard, Numbering.opposite_opposite halight]
    exact Time.secondsAfter_neg_neg (hseconds board).2 (hseconds alight).1
  count_footpathsFrom := by
    intro origin destination duration
    have hforth := hn.count_footpathsFrom ⟨origin, destination, duration⟩
    have hback := hvalid.count_footpathsFrom ⟨destination, origin, duration⟩
    have hinjective : Function.Injective Footpath.reversed :=
      Function.LeftInverse.injective Footpath.reversed_reversed
    show (n.footpathsFrom origin).count _ = (r.footpathsFrom destination).count _
    rw [hforth, hback, hr]
    exact (List.count_map_of_injective n.schedule.footpaths Footpath.reversed hinjective
      ⟨origin, destination, duration⟩).symm
  rules_eq := by
    rw [hr]
    rfl

end Network

/-! ## §3. Reversing twice. -/

/-- A time that was negated can be negated again. -/
theorem Time.neg_seconds_ne (t : Time) : (-t).seconds ≠ -2147483648 := by
  have hgreatest := t.le_greatest
  rw [Time.neg_seconds]
  omega

theorem Trip.reversed_negatable (t : Trip) : t.reversed.Negatable := by
  intro c hc
  obtain ⟨call, -, rfl⟩ := List.mem_map.mp hc
  exact ⟨Time.neg_seconds_ne _, Time.neg_seconds_ne _⟩

/-- The end of a rule comes back, if it is there. -/
theorem RuleEnd.reversed_reversed {length : Nat → Nat} (e : RuleEnd)
    (h : e.position < length e.pattern) : (e.reversed length).reversed length = e := by
  unfold RuleEnd.reversed
  simp only
  rw [Numbering.opposite_opposite h]

theorem Rule.reversed_reversed {length : Nat → Nat} (r : Rule)
    (hfeeder : r.feeder.position < length r.feeder.pattern)
    (honward : r.onward.position < length r.onward.pattern) :
    (r.reversed length).reversed length = r := by
  unfold Rule.reversed
  simp only
  rw [RuleEnd.reversed_reversed _ hfeeder, RuleEnd.reversed_reversed _ honward]

namespace Schedule

/-- All that has to be reversed comes back when it is reversed again. -/
structure Reversible (s : Schedule) : Prop where
  trip : ∀ p ∈ s.patterns, ∀ t ∈ p.trips, t.reversed.reversed = t
  pattern : ∀ p ∈ s.patterns, p.reversed.reversed = p
  rule : ∀ r ∈ s.rules,
    (r.reversed fun number => (s.pattern number).length).reversed
      (fun number => (s.pattern number).length) = r
  schedule : s.reversed.reversed = s

variable {s : Schedule}

theorem Valid.rule_reversed_reversed (h : s.Valid) :
    ∀ r ∈ s.rules,
      (r.reversed fun number => (s.pattern number).length).reversed
        (fun number => (s.pattern number).length) = r := by
  intro r hr
  obtain ⟨hfeeder, honward⟩ := h.ends r hr
  exact r.reversed_reversed hfeeder.position_lt honward.position_lt

/-- A valid schedule comes back, if its times can be negated. -/
theorem Valid.reversible (h : s.Valid)
    (hneg : ∀ p ∈ s.patterns.toList, ∀ t ∈ p.trips, t.Negatable) : s.Reversible where
  trip := fun p hp t ht => t.reversed_reversed (hneg p (Array.mem_toList_iff.mpr hp) t ht)
  pattern := fun p hp => p.reversed_reversed (hneg p (Array.mem_toList_iff.mpr hp))
  rule := h.rule_reversed_reversed
  schedule := by
    have hpatterns : (s.patterns.map Pattern.reversed).map Pattern.reversed = s.patterns := by
      rw [Array.map_map]
      refine (Array.map_congr_left fun p hp => ?_).trans s.patterns.map_id
      exact p.reversed_reversed (hneg p (Array.mem_toList_iff.mpr hp))
    have hfootpaths : (s.footpaths.map Footpath.reversed).map Footpath.reversed =
        s.footpaths := by
      rw [List.map_map]
      exact s.footpaths.map_id
    have hlength : (fun number => (s.reversed.pattern number).length) =
        fun number => (s.pattern number).length := by
      funext number
      rw [reversed_pattern, Pattern.reversed_length]
    have hrules : s.reversed.reversed.rules = s.rules := by
      show (s.rules.map _).map (Rule.reversed fun number => (s.reversed.pattern number).length) = _
      rw [hlength, List.map_map]
      refine (List.map_congr_left fun r hr => ?_).trans s.rules.map_id
      exact h.rule_reversed_reversed r hr
    show (⟨s.stopCount, (s.patterns.map Pattern.reversed).map Pattern.reversed,
      (s.footpaths.map Footpath.reversed).map Footpath.reversed,
      s.reversed.reversed.rules⟩ : Schedule) = s
    rw [hpatterns, hfootpaths, hrules]

end Schedule

/-! ## §4. The networks of a timetable. -/

/-- Each network of a timetable offers what the other offers, the other way, and
reversing what is in it twice changes nothing. -/
structure Timetable.Dual (t : Timetable) : Prop where
  forward : t.forward.Dual t.reverse
  reverse : t.reverse.Dual t.forward
  reversible : ∀ direction, (t.network direction).schedule.Reversible

/-- The networks of a compiled timetable are exact opposites, if its times can be
negated. -/
theorem Feed.dual_of_compile {f : Feed} {t : Timetable} (h : f.compile = .ok t)
    (hneg : ∀ p ∈ t.forward.schedule.patterns.toList, ∀ trip ∈ p.trips, trip.Negatable) : t.Dual := by
  have hforward : t.forward.Valid := Feed.compile_network_valid h .forward
  have hreverse : t.reverse.Valid := Feed.compile_network_valid h .reverse
  have hschedule : t.reverse.schedule = t.forward.schedule.reversed := Feed.compile_reverse h
  have hback : t.forward.schedule = t.reverse.schedule.reversed := by
    rw [hschedule]
    exact (hforward.schedule.reversible hneg).schedule.symm
  -- Whatever was negated can be negated again.
  have hnegReverse : ∀ p ∈ t.reverse.schedule.patterns.toList, ∀ trip ∈ p.trips,
      trip.Negatable := by
    intro p hp trip htrip
    rw [hschedule] at hp
    obtain ⟨q, -, rfl⟩ := Array.mem_map.mp (Array.mem_toList_iff.mp hp)
    obtain ⟨u, -, rfl⟩ := List.mem_map.mp htrip
    exact u.reversed_negatable
  refine ⟨?_, ?_, ?_⟩
  · exact Network.dual_of_reversed hforward hreverse hschedule
      (Schedule.negatable_pattern hneg)
  · exact Network.dual_of_reversed hreverse hforward hback
      (Schedule.negatable_pattern hnegReverse)
  · intro direction
    cases direction with
    | forward => exact hforward.schedule.reversible hneg
    | reverse => exact hreverse.schedule.reversible hnegReverse

/-- On the way back the second run of either pattern comes first. -/
theorem Feed.dual_branchLine :
    (∀ p ∈ Timetable.branchLine.forward.schedule.patterns.toList, ∀ trip ∈ p.trips,
      trip.Negatable) ∧ Timetable.branchLine.Dual := by
  have hneg : ∀ p ∈ Timetable.branchLine.forward.schedule.patterns.toList,
      ∀ trip ∈ p.trips, trip.Negatable := by decide +kernel
  exact ⟨hneg, Feed.dual_of_compile Feed.compile_branchLine hneg⟩

end TransitRouting
