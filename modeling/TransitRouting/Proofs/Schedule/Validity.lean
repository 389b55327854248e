/-
  TransitRouting.Proofs.Schedule.Validity
  ───────────────────────────────────────
  What a schedule that has passed every check can be relied upon for.

  A search never checks anything again: it relies on stops being in range, on
  every trip calling once at every halt, on trips not overtaking each other,
  and on the ends of rules naming halts and trips that are there.  All of this
  survives running the schedule backwards.

  Main statement: `Schedule.Valid.reversed` — the reversal of a valid schedule
  is valid.
-/
import Mathlib.Data.List.GetD
import Mathlib.Data.List.Nodup
import TransitRouting.Proofs.Schedule.Departures
import TransitRouting.Schedule.Reversal

namespace TransitRouting

/-! ## §1. Valid patterns. -/

/-- A pattern of a network with `stopCount` stops that a search can rely on. -/
structure Pattern.Valid (stopCount : Nat) (p : Pattern) : Prop where
  /-- The pattern leads somewhere. -/
  two_le_length : 2 ≤ p.length
  /-- Every halt is at a stop of the network. -/
  stop_lt : ∀ q < p.length, p.stopAt q < stopCount
  /-- Every trip calls once at every halt. -/
  calls_length : ∀ t ∈ p.trips, t.calls.length = p.length
  /-- No trip overtakes another. -/
  ordered : p.Ordered
  /-- No two trips have the same number. -/
  ids_nodup : (p.trips.map (·.id)).Nodup

namespace Pattern

theorem lt_length_of_canBoard {p : Pattern} {q : Nat} (h : p.canBoard q = true) :
    q + 1 < p.length := by
  simp only [canBoard, Bool.and_eq_true, decide_eq_true_eq] at h
  exact h.2

theorem lt_length_of_canAlight {p : Pattern} {q : Nat} (h : p.canAlight q = true) :
    q < p.length := by
  refine Nat.lt_of_not_le fun hbeyond => ?_
  unfold length at hbeyond
  unfold canAlight at h
  rw [List.getD_eq_default _ _ hbeyond] at h
  cases h

theorem trip_mem {p : Pattern} {i : Nat} (h : i < p.trips.length) : p.trip i ∈ p.trips := by
  have : p.trip i = p.trips[i] := by simp [trip, h]
  exact this ▸ List.getElem_mem h

end Pattern

/-! ## §2. Valid schedules. -/

namespace Schedule

/-- The trip with a given number runs on the pattern. -/
def Serves (s : Schedule) (number id : Nat) : Prop := ∃ t ∈ (s.pattern number).trips, t.id = id

/-- The end of a rule is a halt that is there, for a trip that calls there. -/
structure HasEnd (s : Schedule) (e : RuleEnd) : Prop where
  /-- The halt is there. -/
  position_lt : e.position < (s.pattern e.pattern).length
  /-- The trip, if one is named, calls there. -/
  serves : ∀ id, e.trip = some id → s.Serves e.pattern id

/-- A schedule that a search can rely on. -/
structure Valid (s : Schedule) : Prop where
  /-- The patterns can be relied on. -/
  pattern : ∀ number < s.patterns.size, (s.pattern number).Valid s.stopCount
  /-- Every trip runs on one pattern only. -/
  home_unique : ∀ {m n id}, s.Serves m id → s.Serves n id → m = n
  /-- Footpaths join stops of the network. -/
  footpath : ∀ f ∈ s.footpaths, f.origin < s.stopCount ∧ f.destination < s.stopCount
  /-- The ends of rules are there. -/
  ends : ∀ r ∈ s.rules, s.HasEnd r.feeder ∧ s.HasEnd r.onward

/-- A pattern with halts is one of the schedule's. -/
theorem lt_size_of_lt_length {s : Schedule} {number q : Nat}
    (h : q < (s.pattern number).length) : number < s.patterns.size := by
  refine Nat.lt_of_not_le fun hle => ?_
  have : s.pattern number = default := by simp [pattern, hle]
  rw [this] at h
  exact Nat.not_lt_zero _ h

/-- Numbers beyond the patterns stand for one without trips. -/
theorem negatable_pattern {s : Schedule}
    (h : ∀ p ∈ s.patterns.toList, ∀ t ∈ p.trips, t.Negatable) (number : Nat) :
    ∀ t ∈ (s.pattern number).trips, t.Negatable := by
  unfold pattern
  by_cases hnumber : number < s.patterns.size
  · rw [Array.getD_eq_getD_getElem?, Array.getElem?_eq_getElem hnumber]
    exact h _ (Array.mem_toList_iff.mpr (Array.getElem_mem hnumber))
  · rw [Array.getD_eq_getD_getElem?, Array.getElem?_eq_none (Nat.le_of_not_lt hnumber)]
    intro t ht
    cases ht

theorem Valid.pattern_of_lt_length {s : Schedule} (h : s.Valid) {number q : Nat}
    (hq : q < (s.pattern number).length) : (s.pattern number).Valid s.stopCount :=
  h.pattern number (lt_size_of_lt_length hq)

end Schedule

/-! ## §3. Looking things up in reversed patterns. -/

/-- Looking up a reversed and mapped list from the other end. -/
private theorem getD_reverse_map {α β : Type} (f : α → β) (xs : List α) (a : α) (b : β) {i : Nat}
    (hi : i < xs.length) :
    (xs.reverse.map f).getD i b = f (xs.getD (Numbering.opposite xs.length i) a) := by
  have hopp : Numbering.opposite xs.length i < xs.length := by
    unfold Numbering.opposite
    omega
  rw [List.getD_eq_getElem _ _ (by simpa using hi), List.getD_eq_getElem _ _ hopp]
  simp [Numbering.opposite]

theorem Numbering.opposite_lt {length position : Nat} (h : position < length) :
    opposite length position < length := by
  unfold opposite
  omega

@[simp] theorem Trip.reversed_id (t : Trip) : t.reversed.id = t.id := rfl

@[simp] theorem Trip.reversed_calls_length (t : Trip) :
    t.reversed.calls.length = t.calls.length := by
  simp [Trip.reversed]

theorem Trip.reversed_arrivalAt (t : Trip) {q : Nat} (h : q < t.calls.length) :
    t.reversed.arrivalAt q = -t.departureAt (Numbering.opposite t.calls.length q) := by
  unfold Trip.arrivalAt Trip.departureAt Trip.reversed
  rw [getD_reverse_map Call.reversed t.calls default default h]
  rfl

theorem Trip.reversed_departureAt (t : Trip) {q : Nat} (h : q < t.calls.length) :
    t.reversed.departureAt q = -t.arrivalAt (Numbering.opposite t.calls.length q) := by
  unfold Trip.arrivalAt Trip.departureAt Trip.reversed
  rw [getD_reverse_map Call.reversed t.calls default default h]
  rfl

namespace Pattern

@[simp] theorem reversed_length (p : Pattern) : p.reversed.length = p.length := by
  simp [Pattern.reversed, length]

@[simp] theorem reversed_trips_length (p : Pattern) :
    p.reversed.trips.length = p.trips.length := by
  simp [Pattern.reversed]

@[simp] theorem reversed_minTransferTime (p : Pattern) :
    p.reversed.minTransferTime = p.minTransferTime := rfl

theorem reversed_stopAt (p : Pattern) {q : Nat} (h : q < p.length) :
    p.reversed.stopAt q = p.stopAt (Numbering.opposite p.length q) := by
  unfold stopAt Pattern.reversed length
  rw [getD_reverse_map Halt.reversed p.halts default default h]
  rfl

theorem reversed_trip (p : Pattern) {i : Nat} (h : i < p.trips.length) :
    p.reversed.trip i = (p.trip (Numbering.opposite p.trips.length i)).reversed := by
  unfold trip Pattern.reversed
  exact getD_reverse_map Trip.reversed p.trips default default h

/-- Who may alight may board in the reversed pattern. -/
theorem reversed_canBoard (p : Pattern) {q : Nat} (h : q < p.length) :
    p.reversed.canBoard q = p.canAlight (Numbering.opposite p.length q) := by
  unfold canBoard canAlight
  rw [reversed_length]
  have hhalt : p.reversed.halts.getD q default =
      (p.halts.getD (Numbering.opposite p.length q) default).reversed :=
    getD_reverse_map Halt.reversed p.halts default default h
  rw [hhalt]
  show (_ && _) = (_ && _)
  congr 1
  rw [decide_eq_decide]
  unfold Numbering.opposite
  omega

/-- Who may board may alight in the reversed pattern. -/
theorem reversed_canAlight (p : Pattern) {q : Nat} (h : q < p.length) :
    p.reversed.canAlight q = p.canBoard (Numbering.opposite p.length q) := by
  unfold canBoard canAlight
  have hhalt : p.reversed.halts.getD q default =
      (p.halts.getD (Numbering.opposite p.length q) default).reversed :=
    getD_reverse_map Halt.reversed p.halts default default h
  rw [hhalt]
  show (_ && _) = (_ && _)
  congr 1
  rw [decide_eq_decide]
  unfold Numbering.opposite
  omega

/-! ## §4. Validity survives reversal. -/

theorem keepsAhead_reversed {length : Nat} {a b : Trip} (ha : a.calls.length = length)
    (hb : b.calls.length = length) (h : a.KeepsAhead length b) :
    b.reversed.KeepsAhead length a.reversed := by
  intro q hq
  have hopp := h (Numbering.opposite length q) (Numbering.opposite_lt hq)
  rw [Trip.reversed_arrivalAt _ (by omega), Trip.reversed_arrivalAt _ (by omega),
    Trip.reversed_departureAt _ (by omega), Trip.reversed_departureAt _ (by omega), ha, hb]
  exact ⟨Time.neg_le_neg hopp.2, Time.neg_le_neg hopp.1⟩

theorem Valid.reversed {stopCount : Nat} {p : Pattern} (h : p.Valid stopCount) :
    p.reversed.Valid stopCount where
  two_le_length := by
    rw [reversed_length]
    exact h.two_le_length
  stop_lt := by
    intro q hq
    rw [reversed_length] at hq
    rw [reversed_stopAt p hq]
    exact h.stop_lt _ (Numbering.opposite_lt hq)
  calls_length := by
    intro t ht
    simp only [Pattern.reversed, List.mem_map, List.mem_reverse] at ht
    obtain ⟨u, hu, rfl⟩ := ht
    rw [reversed_length, Trip.reversed_calls_length]
    exact h.calls_length u hu
  ordered := by
    unfold Ordered
    rw [reversed_length]
    show (p.trips.reverse.map Trip.reversed).Pairwise _
    rw [List.pairwise_map, List.pairwise_reverse]
    refine List.Pairwise.imp_of_mem ?_ h.ordered
    intro a b ha hb hab
    exact keepsAhead_reversed (h.calls_length a ha) (h.calls_length b hb) hab
  ids_nodup := by
    have hmap : p.reversed.trips.map (·.id) = (p.trips.map (·.id)).reverse := by
      simp [Pattern.reversed, List.map_reverse, Function.comp_def]
    rw [hmap]
    exact List.nodup_reverse.mpr h.ids_nodup

end Pattern

namespace Schedule

theorem reversed_pattern (s : Schedule) (number : Nat) :
    s.reversed.pattern number = (s.pattern number).reversed := by
  unfold pattern reversed
  by_cases h : number < s.patterns.size
  · simp [h]
  · simp [h]
    rfl

@[simp] theorem reversed_patterns_size (s : Schedule) :
    s.reversed.patterns.size = s.patterns.size := by
  simp [reversed]

theorem reversed_serves (s : Schedule) (number id : Nat) :
    s.reversed.Serves number id ↔ s.Serves number id := by
  unfold Serves
  rw [reversed_pattern]
  constructor
  · intro hgiven
    obtain ⟨t, ht, rfl⟩ := hgiven
    simp only [Pattern.reversed, List.mem_map, List.mem_reverse] at ht
    obtain ⟨u, hu, rfl⟩ := ht
    exact ⟨u, hu, rfl⟩
  · intro hgiven
    obtain ⟨t, ht, rfl⟩ := hgiven
    exact ⟨t.reversed, List.mem_map_of_mem (List.mem_reverse.mpr ht), rfl⟩

theorem HasEnd.reversed {s : Schedule} {e : RuleEnd} (h : s.HasEnd e) :
    s.reversed.HasEnd (e.reversed fun number => (s.pattern number).length) where
  position_lt := by
    show Numbering.opposite _ _ < (s.reversed.pattern e.pattern).length
    rw [reversed_pattern, Pattern.reversed_length]
    exact Numbering.opposite_lt h.position_lt
  serves := by
    intro id hid
    exact (reversed_serves s _ id).mpr (h.serves id hid)

/-- The reversal of a valid schedule is valid. -/
theorem Valid.reversed {s : Schedule} (h : s.Valid) : s.reversed.Valid where
  pattern := by
    intro number hnumber
    rw [reversed_patterns_size] at hnumber
    rw [reversed_pattern]
    exact (h.pattern number hnumber).reversed
  home_unique := by
    intro m n id hm hn
    exact h.home_unique ((reversed_serves s m id).mp hm) ((reversed_serves s n id).mp hn)
  footpath := by
    intro f hf
    simp only [Schedule.reversed, List.mem_map] at hf
    obtain ⟨g, hg, rfl⟩ := hf
    exact (h.footpath g hg).symm
  ends := by
    intro r hr
    simp only [Schedule.reversed, List.mem_map] at hr
    obtain ⟨q, hq, rfl⟩ := hr
    exact ⟨(h.ends q hq).2.reversed, (h.ends q hq).1.reversed⟩

end Schedule

end TransitRouting
