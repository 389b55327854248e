/-
  TransitRouting.Proofs.Schedule.Reliability
  ──────────────────────────────────────────
  All that a search takes for granted about a network.

  Besides what makes a schedule valid, a search relies on every trip going
  forward in time, on groups that fit into a set and on usable factors, on
  names and numbers that are not used twice, and on tables that list each halt
  and each footpath once.  It also relies on the last trip of a pattern being
  the last to leave at every halt.  A network run backwards keeps all of it.

  Main statements:

    • `Trip.Sound.reversed` — a trip run backwards still goes forward in time;
    • `Network.Valid.isLatest_lastDeparture?` — no trip that can be boarded at
      a stop leaves after the time that is looked up;
    • `Network.Valid.reliable` — what a valid network of sound trips offers.
-/
import TransitRouting.Proofs.Schedule.Drafts
import TransitRouting.Proofs.Schedule.Tables

namespace TransitRouting

open Checks

/-! ## §1. Trips that go forward in time. -/

/-- A trip along `length` halts that a search can rely on. -/
structure Trip.Sound (length : Nat) (t : Trip) : Prop where
  calls_length : t.calls.length = length
  arrival_le : ∀ q < length, t.arrivalAt q ≤ t.departureAt q
  departure_le : ∀ q, q + 1 < length → t.departureAt q ≤ t.arrivalAt (q + 1)
  group_le : t.group ≤ GroupSet.highest
  isReluctance : TransitRouting.isReluctance t.reluctance = true

namespace TripFeed

/-- Calls that pass the check come in order. -/
theorem of_checkCalls {trip : String} {calls : List Call} :
    ∀ {position : Nat}, checkCalls trip position calls = .ok () →
      (∀ q < calls.length, (calls.getD q default).arrival ≤ (calls.getD q default).departure) ∧
        ∀ q, q + 1 < calls.length →
          (calls.getD q default).departure ≤ (calls.getD (q + 1) default).arrival := by
  induction calls with
  | nil =>
      intro position _
      exact ⟨fun q hq => absurd hq (Nat.not_lt_zero q), fun q hq => absurd hq (Nat.not_lt_zero _)⟩
  | cons c rest ih =>
      intro position h
      unfold checkCalls at h
      rw [guard_eq_ok] at h
      obtain ⟨hcall, h⟩ := h
      cases rest with
      | nil =>
          refine ⟨fun q hq => ?_, fun q hq => absurd hq (by simp)⟩
          obtain rfl : q = 0 := by simpa using hq
          exact Time.not_lt.mp hcall
      | cons next rest =>
          simp only at h
          rw [guard_eq_ok] at h
          obtain ⟨hnext, h⟩ := h
          obtain ⟨hcalls, hnexts⟩ := ih h
          constructor
          · intro q hq
            cases q with
            | zero => exact Time.not_lt.mp hcall
            | succ q => exact hcalls q (Nat.lt_of_succ_lt_succ hq)
          · intro q hq
            cases q with
            | zero => exact Time.not_lt.mp hnext
            | succ q => exact hnexts q (Nat.lt_of_succ_lt_succ hq)

/-- A checked trip can be relied on, whatever its number. -/
theorem sound_toTrip {t : TripFeed} {length : Nat} (h : t.check length = .ok ()) (id : Nat) :
    (t.toTrip id).Sound length := by
  have hcalls := TripFeed.calls_length h
  unfold TripFeed.check at h
  rw [guard_eq_ok, guard_eq_ok, guard_eq_ok, guard_eq_ok] at h
  obtain ⟨-, -, hgroup, hreluctance, h⟩ := h
  obtain ⟨harrival, hdeparture⟩ := of_checkCalls h
  rw [hcalls] at harrival hdeparture
  refine ⟨hcalls, harrival, hdeparture, Nat.le_of_not_lt hgroup, ?_⟩
  show TransitRouting.isReluctance t.reluctance = true
  simpa using hreluctance

end TripFeed

/-- A trip run backwards still goes forward in time. -/
theorem Trip.Sound.reversed {length : Nat} {t : Trip} (h : t.Sound length) :
    t.reversed.Sound length where
  calls_length := by rw [Trip.reversed_calls_length, h.calls_length]
  arrival_le := by
    intro q hq
    rw [Trip.reversed_arrivalAt t (h.calls_length ▸ hq),
      Trip.reversed_departureAt t (h.calls_length ▸ hq), h.calls_length]
    exact Time.neg_le_neg (h.arrival_le _ (Numbering.opposite_lt hq))
  departure_le := by
    intro q hq
    have hsucc : Numbering.opposite length q = Numbering.opposite length (q + 1) + 1 := by
      unfold Numbering.opposite
      omega
    have hlt : Numbering.opposite length (q + 1) + 1 < length :=
      hsucc ▸ Numbering.opposite_lt (Nat.lt_of_succ_lt hq)
    rw [Trip.reversed_arrivalAt t (h.calls_length ▸ hq),
      Trip.reversed_departureAt t (h.calls_length ▸ Nat.lt_of_succ_lt hq), h.calls_length, hsucc]
    exact Time.neg_le_neg (h.departure_le _ hlt)
  group_le := h.group_le
  isReluctance := h.isReluctance

/-- All trips of the schedule can be relied on. -/
def Schedule.SoundTrips (s : Schedule) : Prop :=
  ∀ p ∈ s.patterns, ∀ t ∈ p.trips, t.Sound p.length

theorem Schedule.SoundTrips.reversed {s : Schedule} (h : s.SoundTrips) :
    s.reversed.SoundTrips := by
  intro p hp t ht
  obtain ⟨q, hq, rfl⟩ := Array.mem_map.mp hp
  obtain ⟨u, hu, rfl⟩ := List.mem_map.mp ht
  rw [Pattern.reversed_length]
  exact (h q hq u (List.mem_reverse.mp hu)).reversed

/-- All trips compiled so far can be relied on. -/
def Draft.SoundTrips (d : Draft) : Prop := ∀ p ∈ d.patterns, ∀ t ∈ p.trips, t.Sound p.length

theorem Draft.SoundTrips.empty : Draft.empty.SoundTrips := by
  intro p hp
  cases Array.not_mem_empty p hp

theorem Draft.SoundTrips.addPattern {d d' : Draft} {stopCount : Nat} {p : PatternFeed}
    (hd : d.SoundTrips) (h : d.addPattern stopCount p = .ok d') : d'.SoundTrips := by
  obtain ⟨hadmits, -, rfl⟩ := Draft.addPattern_eq_ok_iff.mp h
  intro q hq t ht
  rcases Array.mem_push.mp hq with hq | rfl
  · exact hd q hq t ht
  · obtain ⟨⟨raw, id⟩, hraw, rfl⟩ := List.mem_map.mp (List.mem_mergeSort.mp ht)
    have hmem : raw ∈ p.trips := List.fst_mem_of_mem_zipIdx hraw
    have hlength : (haltsOf p).length = p.stops.length := haltsOf_length p
    show (raw.toTrip id).Sound (haltsOf p).length
    rw [hlength]
    exact TripFeed.sound_toTrip (hadmits.check raw hmem) id

theorem Feed.compile_soundTrips {f : Feed} {t : Timetable} (h : f.compile = .ok t)
    (direction : Direction) : (t.network direction).schedule.SoundTrips := by
  have hforward : t.forward.schedule.SoundTrips := by
    unfold Feed.compile at h
    rw [bind_eq_ok] at h
    obtain ⟨d, hd, h⟩ := h
    rw [check_eq_ok, bind_eq_ok] at h
    obtain ⟨-, rules, -, h⟩ := h
    obtain rfl := pure_eq_ok.mp h
    have hdraft : d.SoundTrips := foldlM_invariant (fun hs hstep => hs.addPattern hstep)
      f.patterns Draft.SoundTrips.empty hd
    exact hdraft
  cases direction with
  | forward => exact hforward
  | reverse =>
      show t.reverse.schedule.SoundTrips
      rw [Feed.compile_reverse h]
      exact hforward.reversed

/-! ## §2. Numbers that are used once. -/

namespace Schedule

/-- No trip of a valid schedule is listed twice. -/
theorem Valid.tripIds_nodup {s : Schedule} (h : s.Valid) :
    (s.patterns.toList.flatMap fun p => p.trips.map (·.id)).Nodup := by
  have hpattern : ∀ i (hi : i < s.patterns.toList.length), s.patterns.toList[i] = s.pattern i := by
    intro i hi
    have hi' : i < s.patterns.size := by simpa using hi
    simp [Schedule.pattern, hi']
  rw [List.nodup_flatMap]
  constructor
  · intro p hp
    obtain ⟨i, hi, rfl⟩ := List.getElem_of_mem hp
    rw [hpattern]
    exact (h.pattern i (by simpa using hi)).ids_nodup
  · rw [List.pairwise_iff_getElem]
    intro i j hi hj hij
    show List.Disjoint _ _
    rw [hpattern, hpattern]
    intro id hid hid'
    obtain ⟨t, ht, rfl⟩ := List.mem_map.mp hid
    obtain ⟨u, hu, hsame⟩ := List.mem_map.mp hid'
    -- A trip that runs on both patterns would have two homes.
    exact absurd (h.home_unique ⟨t, ht, rfl⟩ ⟨u, hu, hsame⟩) (Nat.ne_of_lt hij)

end Schedule

namespace Network

theorem nodup_allVisits (s : Schedule) : ((allVisits s).map (·.2)).Nodup := by
  unfold allVisits
  rw [List.map_flatMap, List.nodup_flatMap]
  constructor
  · rintro ⟨p, number⟩ -
    rw [List.map_map, Pattern.positions]
    exact List.nodup_range.map fun q q' heq => congrArg Visit.position heq
  · have hnumbers : s.patterns.toList.zipIdx.Pairwise fun a b => a.2 < b.2 := by
      rw [← List.pairwise_map (R := (· < ·)), List.zipIdx_map_snd]
      exact List.pairwise_lt_range'
    refine hnumbers.imp fun {a b} hlt => ?_
    show List.Disjoint _ _
    intro v hv hv'
    obtain ⟨⟨stop, u⟩, hu, rfl⟩ := List.mem_map.mp hv
    obtain ⟨⟨stop', u'⟩, hu', heq⟩ := List.mem_map.mp hv'
    obtain ⟨q, -, hq⟩ := List.mem_map.mp hu
    obtain ⟨q', -, hq'⟩ := List.mem_map.mp hu'
    simp only [Prod.mk.injEq] at hq hq'
    simp only at heq
    rw [← hq.2, ← hq'.2] at heq
    exact absurd (congrArg Visit.pattern heq).symm (Nat.ne_of_lt hlt)

variable {n : Network} {stop : Nat}

/-- No halt is listed twice under a stop. -/
theorem Valid.nodup_visitsAt (h : n.Valid) (hstop : stop < n.stopCount) :
    (n.visitsAt stop).Nodup := by
  have htable : n.visits = Buckets.ofList n.stopCount (allVisits n.schedule) :=
    congrArg Network.visits h.tables
  unfold visitsAt
  rw [htable, Buckets.row_ofList _ _ _ hstop]
  exact (nodup_allVisits n.schedule).sublist (List.filter_sublist.map _)

/-- Under a stop stand the footpaths that start there, in their order. -/
theorem Valid.footpathsFrom_eq (h : n.Valid) (hstop : stop < n.stopCount) :
    n.footpathsFrom stop = n.schedule.footpaths.filter (·.origin = stop) := by
  have htable : n.footpaths =
      Buckets.ofList n.stopCount (n.schedule.footpaths.map fun f => (f.origin, f)) :=
    congrArg Network.footpaths h.tables
  unfold footpathsFrom
  rw [htable, Buckets.row_ofList _ _ _ hstop, List.filter_map, List.map_map]
  exact List.map_id _

end Network

/-! ## §3. The last departure. -/

/-- `found` is the latest time with a property; there is none if no time has
it. -/
def Time.IsLatest (holds : Time → Prop) (found : Option Time) : Prop :=
  match found with
  | none => ∀ t, ¬ holds t
  | some t => holds t ∧ ∀ u, holds u → u ≤ t

/-- If some time has the property, then the latest one is found. -/
theorem Time.IsLatest.exists_le {holds : Time → Prop} {found : Option Time} {time : Time}
    (h : Time.IsLatest holds found) (htime : holds time) : ∃ last, found = some last ∧ time ≤ last := by
  cases found with
  | none => exact absurd htime (h time)
  | some last => exact ⟨last, rfl, h.2 time htime⟩

instance : Std.LawfulOrderLeftLeaningMax Time where
  max_eq_left := by
    intro a b h
    show (if a ≤ b then b else a) = a
    split
    · next hab => exact Time.le_antisymm h hab
    · rfl
  max_eq_right := by
    intro a b h
    show (if a ≤ b then b else a) = b
    rw [if_pos]
    exact (Time.le_total a b).resolve_right h

/-- Among the times of a list the greatest is the latest. -/
theorem Time.isLatest_max? (times : List Time) : Time.IsLatest (· ∈ times) times.max? := by
  cases hmax : times.max? with
  | none =>
      intro t ht
      rw [List.max?_eq_none_iff.mp hmax] at ht
      cases ht
  | some t => exact List.max?_eq_some_iff.mp hmax

/-- No trip of an ordered pattern leaves after the last one. -/
theorem Pattern.Ordered.isLatest_lastDeparture? {p : Pattern} (h : p.Ordered) {position : Nat}
    (hposition : position < p.length) :
    Time.IsLatest (fun time => ∃ t ∈ p.trips, t.departureAt position = time)
      (p.lastDeparture? position) := by
  unfold Pattern.lastDeparture?
  cases hlast : p.trips.getLast? with
  | none =>
      intro time hgiven
      obtain ⟨t, ht, -⟩ := hgiven
      rw [List.getLast?_eq_none_iff.mp hlast] at ht
      cases ht
  | some last =>
      obtain ⟨before, hsplit⟩ := List.getLast?_eq_some_iff.mp hlast
      refine ⟨⟨last, List.mem_of_getLast? hlast, rfl⟩, ?_⟩
      intro time hgiven
      obtain ⟨t, ht, rfl⟩ := hgiven
      unfold Pattern.Ordered at h
      rw [hsplit] at h ht
      rcases List.mem_append.mp ht with hbefore | hlast
      · exact ((List.pairwise_append.mp h).2.2 t hbefore last (List.mem_singleton_self last)
          position hposition).2
      · rw [List.mem_singleton.mp hlast]
        exact Time.le_refl _

namespace Network

/-- At the time a trip leaves the stop, from a halt where it can be boarded. -/
def Leaves (n : Network) (stop : Nat) (time : Time) : Prop :=
  ∃ pattern position, (n.pattern pattern).stopAt position = stop ∧
    (n.pattern pattern).canBoard position = true ∧
    ∃ t ∈ (n.pattern pattern).trips, t.departureAt position = time

variable {n : Network} {stop : Nat}

/-- When the last trip leaves a halt, if it can be boarded there. -/
def lastFrom? (n : Network) (v : Visit) : Option Time :=
  if (n.pattern v.pattern).canBoard v.position then
    (n.pattern v.pattern).lastDeparture? v.position
  else none

/-- The last departure from a halt is one that leaves its stop, and no trip
leaves the halt later. -/
theorem Valid.isLatest_lastFrom? (h : n.Valid) (v : Visit) :
    Time.IsLatest (fun time => (n.pattern v.pattern).canBoard v.position = true ∧
      ∃ t ∈ (n.pattern v.pattern).trips, t.departureAt v.position = time) (n.lastFrom? v) := by
  unfold lastFrom?
  split
  · next hcan =>
      have hlength := Nat.lt_of_succ_lt (Pattern.lt_length_of_canBoard hcan)
      have hlatest := (h.pattern_of_lt_length hlength).ordered.isLatest_lastDeparture? hlength
      simpa [hcan] using hlatest
  · next hclosed =>
      intro time hgiven
      exact hclosed hgiven.1

/-- No trip that can be boarded at a stop leaves after the time that is looked
up, and one leaves then. -/
theorem Valid.isLatest_lastDeparture? (h : n.Valid) (hstop : stop < n.stopCount) :
    Time.IsLatest (n.Leaves stop) (n.lastDeparture? stop) := by
  have hlist : n.lastDeparture? stop = ((n.visitsAt stop).filterMap n.lastFrom?).max? := rfl
  have hlatest := Time.isLatest_max? ((n.visitsAt stop).filterMap n.lastFrom?)
  -- Each member of the list leaves the stop, and each departure is matched by one.
  have hleaves : ∀ time ∈ (n.visitsAt stop).filterMap n.lastFrom?, n.Leaves stop time := by
    intro time htime
    obtain ⟨v, hv, hfound⟩ := List.mem_filterMap.mp htime
    have hhalt := h.isLatest_lastFrom? v
    rw [hfound] at hhalt
    exact ⟨v.pattern, v.position, ((h.mem_visitsAt_iff hstop).mp hv).2, hhalt.1⟩
  have hmatched : ∀ time, n.Leaves stop time →
      ∃ latest ∈ (n.visitsAt stop).filterMap n.lastFrom?, time ≤ latest := by
    intro time hgiven
    obtain ⟨pattern, position, hserves, hcan, hdeparts⟩ := hgiven
    have hlength := Nat.lt_of_succ_lt (Pattern.lt_length_of_canBoard hcan)
    have hv : (⟨pattern, position⟩ : Visit) ∈ n.visitsAt stop :=
      (h.mem_visitsAt_iff hstop).mpr ⟨hlength, hserves⟩
    have hhalt := h.isLatest_lastFrom? ⟨pattern, position⟩
    cases hfound : n.lastFrom? ⟨pattern, position⟩ with
    | none =>
        rw [hfound] at hhalt
        exact absurd ⟨hcan, hdeparts⟩ (hhalt time)
    | some latest =>
        rw [hfound] at hhalt
        exact ⟨latest, List.mem_filterMap.mpr ⟨_, hv, hfound⟩, hhalt.2 time ⟨hcan, hdeparts⟩⟩
  rw [hlist]
  cases hmax : ((n.visitsAt stop).filterMap n.lastFrom?).max? with
  | none =>
      rw [hmax] at hlatest
      intro time hgiven
      obtain ⟨latest, hmem, -⟩ := hmatched time hgiven
      exact hlatest latest hmem
  | some last =>
      rw [hmax] at hlatest
      refine ⟨hleaves last hlatest.1, fun time hgiven => ?_⟩
      obtain ⟨latest, hmem, hle⟩ := hmatched time hgiven
      exact Time.le_trans hle (hlatest.2 latest hmem)

/-! ## §4. What a search takes for granted. -/

/-- All that a search takes for granted about a network. -/
structure Reliable (n : Network) : Prop where
  two_le_length : ∀ number < n.schedule.patterns.size, 2 ≤ (n.pattern number).length
  stop_lt : ∀ number, ∀ q < (n.pattern number).length,
    (n.pattern number).stopAt q < n.stopCount
  /-- Every trip calls once at every halt, and goes forward in time. -/
  trip : ∀ number < n.schedule.patterns.size, ∀ t ∈ (n.pattern number).trips,
    t.Sound (n.pattern number).length
  /-- No trip overtakes an earlier one of the list. -/
  keepsAhead : ∀ number < n.schedule.patterns.size, ∀ i j, i < j →
    j < (n.pattern number).trips.length →
    ((n.pattern number).trip i).KeepsAhead (n.pattern number).length ((n.pattern number).trip j)
  footpath : ∀ f ∈ n.schedule.footpaths, f.origin < n.stopCount ∧ f.destination < n.stopCount
  /-- Both ends of a rule are halts that are there, for trips that call there. -/
  ends : ∀ r ∈ n.schedule.rules, n.schedule.HasEnd r.feeder ∧ n.schedule.HasEnd r.onward
  tripIds_nodup : (n.schedule.patterns.toList.flatMap fun p => p.trips.map (·.id)).Nodup
  names_nodup : (n.schedule.patterns.toList.map (·.name)).Nodup
  /-- Exactly the halts that serve a stop are listed under it, once each. -/
  visits : ∀ stop < n.stopCount, (n.visitsAt stop).Nodup ∧ ∀ v, v ∈ n.visitsAt stop ↔
    v.position < (n.pattern v.pattern).length ∧
      (n.pattern v.pattern).stopAt v.position = stop
  footpathsFrom : ∀ stop < n.stopCount,
    n.footpathsFrom stop = n.schedule.footpaths.filter (·.origin = stop)
  lastDeparture : ∀ stop < n.stopCount, Time.IsLatest (n.Leaves stop) (n.lastDeparture? stop)

/-- A valid network of sound trips offers all of it, if no two patterns have the
same name. -/
theorem Valid.reliable (h : n.Valid) (hsound : n.schedule.SoundTrips)
    (hnames : (n.schedule.patterns.toList.map (·.name)).Nodup) : n.Reliable where
  two_le_length := fun number hnumber => (h.schedule.pattern number hnumber).two_le_length
  stop_lt := fun _ q hq => (h.pattern_of_lt_length hq).stop_lt q hq
  trip := by
    intro number hnumber t ht
    have hmem : n.pattern number ∈ n.schedule.patterns := by
      unfold Network.pattern Schedule.pattern
      rw [Array.getD_eq_getD_getElem?, Array.getElem?_eq_getElem hnumber]
      exact Array.getElem_mem hnumber
    exact hsound _ hmem t ht
  keepsAhead := fun number hnumber _ _ hlt hj =>
    (h.schedule.pattern number hnumber).ordered.keepsAhead (Nat.le_of_lt hlt) hj
  footpath := h.schedule.footpath
  ends := h.schedule.ends
  tripIds_nodup := h.schedule.tripIds_nodup
  names_nodup := hnames
  visits := fun _ hstop => ⟨h.nodup_visitsAt hstop, fun _ => h.mem_visitsAt_iff hstop⟩
  footpathsFrom := fun _ hstop => h.footpathsFrom_eq hstop
  lastDeparture := fun _ hstop => h.isLatest_lastDeparture? hstop

end Network

end TransitRouting
