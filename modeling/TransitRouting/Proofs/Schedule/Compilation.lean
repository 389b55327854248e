/-
  TransitRouting.Proofs.Schedule.Compilation
  ──────────────────────────────────────────
  What compiling a feed establishes.

  Trips are numbered as they come, so the number of a trip tells its pattern.
  That is the invariant of the compilation: whatever has been compiled so far
  is valid, and the table of trips and the patterns agree on which trip runs
  where.

  Main statements:

    • `Feed.compile_eq_ok` — the timetable of a feed is made of a valid draft;
    • `Feed.compile_network_valid` — both networks of a timetable hold valid
      schedules, with the tables that belong to them.
-/
import Mathlib.Data.List.Chain
import TransitRouting.Proofs.Checks
import TransitRouting.Proofs.Schedule.Validity
import TransitRouting.Timetable

namespace TransitRouting

open Checks

/-! ## §1. The checks of one trip. -/

theorem TripFeed.check_eq_ok {t : TripFeed} {length : Nat} (h : t.check length = .ok ()) :
    t.arrivals.length = length ∧ t.departures.length = length := by
  unfold TripFeed.check at h
  simp only at h
  rw [guard_eq_ok] at h
  obtain ⟨harr, h⟩ := h
  rw [guard_eq_ok] at h
  obtain ⟨hdep, -⟩ := h
  exact ⟨Decidable.not_not.mp harr, Decidable.not_not.mp hdep⟩

/-- A checked trip calls once at every halt. -/
theorem TripFeed.calls_length {t : TripFeed} {length : Nat} (h : t.check length = .ok ()) :
    t.calls.length = length := by
  obtain ⟨harr, hdep⟩ := TripFeed.check_eq_ok h
  simp [TripFeed.calls, harr, hdep]

/-! ## §2. Numbering the trips of a pattern. -/

namespace Draft

/-- `d` has numbered the trips `done` of the pattern that comes next after
those of `d₀`. -/
structure Numbered (d₀ : Draft) (length : Nat) (d : Draft) (done : List Trip) : Prop where
  patterns : d.patterns = d₀.patterns
  /-- Earlier numbers keep their meaning. -/
  kept : ∀ id < d₀.trips.size, d.trips[id]? = d₀.trips[id]?
  size : d.trips.size = d₀.trips.size + done.length
  /-- The new numbers follow one another. -/
  ids : done.map (·.id) = List.range' d₀.trips.size done.length
  /-- They all belong to the next pattern. -/
  home : ∀ id, d₀.trips.size ≤ id → id < d.trips.size →
    ∃ name, d.trips[id]? = some (name, d₀.patterns.size)
  calls : ∀ t ∈ done, t.calls.length = length

theorem Numbered.start (d : Draft) (length : Nat) : d.Numbered length d [] where
  patterns := rfl
  kept := fun _ _ => rfl
  size := rfl
  ids := rfl
  home := by
    intro id hge hlt
    omega
  calls := by simp

theorem Numbered.push {d₀ d : Draft} {length : Nat} {done : List Trip}
    (h : d₀.Numbered length d done) {t : TripFeed} (ht : t.check length = .ok ()) :
    d₀.Numbered length { d with trips := d.trips.push (t.id, d.patterns.size) }
      (done ++ [⟨d.trips.size, t.calls, t.group, t.reluctance⟩]) where
  patterns := h.patterns
  kept := by
    intro id hid
    have hsize := h.size
    show (d.trips.push _)[id]? = _
    rw [Array.getElem?_push_lt (by omega), ← Array.getElem?_eq_getElem]
    exact h.kept id hid
  size := by
    have hsize := h.size
    simp only [Array.size_push, List.length_append, List.length_singleton]
    omega
  ids := by
    rw [List.map_append, h.ids, List.length_append, List.length_singleton,
      List.range'_concat, h.size]
    simp
  home := by
    intro id hge hlt
    simp only [Array.size_push] at hlt
    by_cases hid : id < d.trips.size
    · obtain ⟨name, hname⟩ := h.home id hge hid
      refine ⟨name, ?_⟩
      show (d.trips.push _)[id]? = _
      rw [Array.getElem?_push_lt hid, ← Array.getElem?_eq_getElem]
      exact hname
    · have heq : id = d.trips.size := by omega
      refine ⟨t.id, ?_⟩
      show (d.trips.push _)[id]? = _
      rw [heq, Array.getElem?_push_size, h.patterns]
  calls := by
    intro u hu
    rcases List.mem_append.mp hu with hu | hu
    · exact h.calls u hu
    · obtain rfl := List.mem_singleton.mp hu
      exact TripFeed.calls_length ht

/-- Numbering goes on from where it was. -/
theorem Numbered.addTrips {d₀ : Draft} {length : Nat} :
    ∀ (ts : List TripFeed) {d d' : Draft} {done out : List Trip},
      d₀.Numbered length d done → d.addTrips length ts done = .ok (d', out) →
        d₀.Numbered length d' out := by
  intro ts
  induction ts with
  | nil =>
      intro d d' done out hnum h
      simp only [Draft.addTrips, Except.ok.injEq, Prod.mk.injEq] at h
      obtain ⟨rfl, rfl⟩ := h
      exact hnum
  | cons t rest ih =>
      intro d d' done out hnum h
      simp only [Draft.addTrips] at h
      rw [check_eq_ok] at h
      obtain ⟨hcheck, h⟩ := h
      rw [guard_eq_ok] at h
      exact ih (hnum.push hcheck) h.2

/-! ## §3. Checking the order of trips. -/

theorem keepsAhead_of_overtakenAt? {length : Nat} {a b : Trip}
    (h : a.overtakenAt? length b = none) : a.KeepsAhead length b := by
  intro q hq
  unfold Trip.overtakenAt? at h
  have hfree := List.find?_eq_none.mp h q (List.mem_range.mpr hq)
  simp only [Bool.or_eq_true, decide_eq_true_eq, not_or] at hfree
  exact ⟨Time.not_lt.mp hfree.2, Time.not_lt.mp hfree.1⟩

/-- Trips that pass the check keep ahead of all later ones, not only of the
next. -/
theorem pairwise_of_checkOrder {pattern : String} {name : Nat → String} {length : Nat} :
    ∀ (ts : List Trip), checkOrder pattern name length ts = .ok () →
      ts.Pairwise (Trip.KeepsAhead length) := by
  intro ts hts
  have : IsTrans Trip (Trip.KeepsAhead length) := ⟨fun _ _ _ h h' => h.trans h'⟩
  rw [← List.isChain_iff_pairwise]
  induction ts with
  | nil => exact List.IsChain.nil
  | cons first rest ih =>
      cases rest with
      | nil => exact List.IsChain.singleton _
      | cons second rest =>
          simp only [checkOrder] at hts
          split at hts
          · exact absurd hts (by simp)
          · next hfree =>
              exact List.IsChain.cons_cons (keepsAhead_of_overtakenAt? hfree) (ih hts)

/-! ## §4. Adding a pattern. -/

@[simp] theorem haltsOf_length (p : PatternFeed) : (haltsOf p).length = p.stops.length := by
  simp [haltsOf]

theorem haltsOf_stop_mem (p : PatternFeed) {q : Nat} (h : q < p.stops.length) :
    ((haltsOf p).getD q default).stop ∈ p.stops := by
  have hq : q < (haltsOf p).length := by simpa using h
  rw [List.getD_eq_getElem _ _ hq]
  simp [haltsOf]

/-- What has been compiled so far can be relied on. -/
structure Valid (stopCount : Nat) (d : Draft) : Prop where
  pattern : ∀ p ∈ d.patterns, p.Valid stopCount
  /-- The table of trips tells where a trip of a pattern runs. -/
  home : ∀ (number : Nat) (p : Pattern), d.patterns[number]? = some p → ∀ t ∈ p.trips,
    ∃ name, d.trips[t.id]? = some (name, number)
  /-- A trip runs where the table of trips says. -/
  housed : ∀ (id : Nat) (name : String) (number : Nat), d.trips[id]? = some (name, number) →
    ∃ p : Pattern, d.patterns[number]? = some p ∧ ∃ t ∈ p.trips, t.id = id

theorem Valid.empty (stopCount : Nat) : Draft.empty.Valid stopCount where
  pattern := by simp [Draft.empty]
  home := by simp [Draft.empty]
  housed := by simp [Draft.empty]

/-- The pattern that is added, and how it was checked. -/
theorem addPattern_eq_ok {stopCount : Nat} {d d' : Draft} {p : PatternFeed}
    (h : d.addPattern stopCount p = .ok d') :
    2 ≤ p.stops.length ∧ (∀ s ∈ p.stops, s < stopCount) ∧
      ∃ d₁ trips, d.Numbered p.stops.length d₁ trips ∧
        (trips.mergeSort (Trip.startsBefore (p.stops.length - 1))).Pairwise
          (Trip.KeepsAhead p.stops.length) ∧
        d' = { d₁ with
          patterns := d₁.patterns.push
            { name := p.id
              halts := haltsOf p
              minTransferTime := p.minTransferTime
              trips := trips.mergeSort (Trip.startsBefore (p.stops.length - 1)) } } := by
  unfold Draft.addPattern at h
  simp only at h
  rw [guard_eq_ok] at h
  obtain ⟨-, h⟩ := h
  rw [guard_eq_ok] at h
  obtain ⟨hlen, h⟩ := h
  rw [check_eq_ok] at h
  obtain ⟨hstops, h⟩ := h
  rw [check_eq_ok] at h
  obtain ⟨-, h⟩ := h
  rw [check_eq_ok] at h
  obtain ⟨-, h⟩ := h
  rw [bind_eq_ok] at h
  obtain ⟨⟨d₁, trips⟩, hadd, h⟩ := h
  simp only at h
  rw [check_eq_ok] at h
  obtain ⟨horder, h⟩ := h
  obtain rfl := pure_eq_ok.mp h
  refine ⟨by omega, ?_, d₁, trips, (Numbered.start d _).addTrips _ hadd,
    pairwise_of_checkOrder _ horder, rfl⟩
  intro s hs
  have := refuseFirst_eq_ok_iff.mp hstops s hs
  simpa using this

theorem Valid.addPattern {stopCount : Nat} {d d' : Draft} {p : PatternFeed}
    (hd : d.Valid stopCount) (h : d.addPattern stopCount p = .ok d') : d'.Valid stopCount := by
  obtain ⟨hlen, hstops, d₁, trips, hnum, horder, rfl⟩ := addPattern_eq_ok h
  have hsize := hnum.size
  -- The numbers of the new trips are those that were free.
  have hid : ∀ t ∈ trips, d.trips.size ≤ t.id ∧ t.id < d₁.trips.size := by
    intro t ht
    have hmem : t.id ∈ trips.map (·.id) := List.mem_map_of_mem ht
    rw [hnum.ids, List.mem_range'_1] at hmem
    omega
  refine ⟨?_, ?_, ?_⟩
  · intro q hq
    rcases Array.mem_push.mp hq with hq | rfl
    · exact hd.pattern q (hnum.patterns ▸ hq)
    · refine ⟨by simpa [Pattern.length] using hlen, ?_, ?_, ?_, ?_⟩
      · intro q hq
        exact hstops _ (haltsOf_stop_mem p (by simpa [Pattern.length] using hq))
      · intro t ht
        simpa [Pattern.length] using hnum.calls t (List.mem_mergeSort.mp ht)
      · simpa [Pattern.Ordered, Pattern.length] using horder
      · have hperm := (List.mergeSort_perm trips
          (Trip.startsBefore (p.stops.length - 1))).map (·.id)
        exact hperm.nodup_iff.mpr (hnum.ids ▸ List.nodup_range')
  · intro number q hq t ht
    simp only [Array.getElem?_push] at hq
    split at hq
    · next heq =>
        obtain rfl := Option.some.inj hq
        obtain ⟨hge, hlt⟩ := hid t (List.mem_mergeSort.mp ht)
        obtain ⟨name, hname⟩ := hnum.home t.id hge hlt
        exact ⟨name, by rw [hname, heq, hnum.patterns]⟩
    · obtain ⟨name, hname⟩ := hd.home number q (hnum.patterns ▸ hq) t ht
      have hlt : t.id < d.trips.size := (Array.getElem?_eq_some_iff.mp hname).1
      exact ⟨name, (hnum.kept t.id hlt).trans hname⟩
  · intro id name number hname
    by_cases hlt : id < d.trips.size
    · obtain ⟨q, hq, ht⟩ := hd.housed id name number ((hnum.kept id hlt).symm.trans hname)
      refine ⟨q, ?_, ht⟩
      have hnumber : number < d.patterns.size := (Array.getElem?_eq_some_iff.mp hq).1
      simp only [Array.getElem?_push, hnum.patterns]
      rw [if_neg (by omega)]
      exact hq
    · -- A number that was free is that of a trip of the new pattern.
      have hlt' : id < d₁.trips.size := (Array.getElem?_eq_some_iff.mp hname).1
      obtain ⟨name', hname'⟩ := hnum.home id (by omega) hlt'
      have hnumber : number = d.patterns.size := by
        have := hname.symm.trans hname'
        simp only [Option.some.injEq, Prod.mk.injEq] at this
        exact this.2
      refine ⟨_, by rw [hnumber, hnum.patterns]; exact Array.getElem?_push_size, ?_⟩
      have hmem : id ∈ trips.map (·.id) := by
        rw [hnum.ids, List.mem_range'_1]
        omega
      obtain ⟨t, ht, hid'⟩ := List.mem_map.mp hmem
      exact ⟨t, List.mem_mergeSort.mpr ht, hid'⟩

/-! ## §5. Rules. -/

/-- The schedule of the patterns compiled so far, with any footpaths and
rules. -/
abbrev schedule (d : Draft) (stopCount : Nat) (footpaths : List Footpath) (rules : List Rule) :
    Schedule :=
  ⟨stopCount, d.patterns, footpaths, rules⟩

/-- The number of a trip that is named leads to the pattern on which it
runs. -/
theorem Valid.serves_of_findTrip? {stopCount : Nat} {d : Draft} (hd : d.Valid stopCount)
    {name : String} {id : Nat} (h : d.findTrip? name = some id) (stops : Nat)
    (footpaths : List Footpath) (rules : List Rule) :
    (d.schedule stops footpaths rules).Serves (d.trips.getD id default).2 id := by
  have hlt : id < d.trips.size := (Array.findIdx?_eq_some_iff_getElem.mp h).1
  have hget : d.trips[id]? = some d.trips[id] := Array.getElem?_eq_getElem hlt
  obtain ⟨p, hp, t, ht, hid⟩ := hd.housed id d.trips[id].1 d.trips[id].2 hget
  have hhome : d.trips.getD id default = d.trips[id] := by simp [hlt]
  refine ⟨t, ?_, hid⟩
  show t ∈ (d.patterns.getD _ default).trips
  rw [hhome, Array.getD_eq_getD_getElem?, hp]
  exact ht

theorem Valid.hasEnd_of_resolveOnward {stopCount : Nat} {d : Draft} (hd : d.Valid stopCount)
    {r : RuleFeed} {e : RuleEnd} (h : d.resolveOnward r = .ok e) (stops : Nat)
    (footpaths : List Footpath) (rules : List Rule) (id : Nat) (hid : e.trip = some id) :
    (d.schedule stops footpaths rules).Serves e.pattern id := by
  unfold resolveOnward at h
  split at h
  · split at h
    · next trip htrip =>
        obtain rfl := Except.ok.inj h
        obtain rfl := Option.some.inj hid
        exact hd.serves_of_findTrip? htrip _ _ _
    · cases h
  · split at h
    · obtain rfl := Except.ok.inj h
      cases hid
    · cases h
  · cases h

/-- A rule that is accepted has both its ends in the schedule, and names the
trip that is left. -/
theorem Valid.of_resolveRule {stopCount : Nat} {d : Draft} (hd : d.Valid stopCount)
    {raw : RuleFeed} {r : Rule} (h : d.resolveRule raw = .ok r) (stops : Nat)
    (footpaths : List Footpath) (rules : List Rule) :
    (d.schedule stops footpaths rules).HasEnd r.feeder ∧
      (d.schedule stops footpaths rules).HasEnd r.onward ∧ r.feeder.trip.isSome := by
  unfold resolveRule at h
  split at h
  · next trip htrip =>
      simp only at h
      rw [guard_eq_ok] at h
      obtain ⟨hfeeder, h⟩ := h
      rw [bind_eq_ok] at h
      obtain ⟨onward, honward, h⟩ := h
      rw [guard_eq_ok] at h
      obtain ⟨hposition, h⟩ := h
      obtain rfl := pure_eq_ok.mp h
      refine ⟨⟨Nat.lt_of_not_le hfeeder, ?_⟩, ⟨Nat.lt_of_not_le hposition, ?_⟩, rfl⟩
      · intro id hid
        obtain rfl := Option.some.inj hid
        exact hd.serves_of_findTrip? htrip _ _ _
      · exact hd.hasEnd_of_resolveOnward honward _ _ _
  · exact absurd h throw_ne_ok

/-- A rule keeps its kind, and leads to one trip only if one is named. -/
theorem kind_of_resolveRule {d : Draft} {raw : RuleFeed} {r : Rule}
    (h : d.resolveRule raw = .ok r) :
    r.kind = raw.kind ∧ (raw.onwardTrip = none → r.onward.trip = none) := by
  unfold resolveRule at h
  split at h
  · simp only at h
    rw [guard_eq_ok] at h
    obtain ⟨-, h⟩ := h
    rw [bind_eq_ok] at h
    obtain ⟨onward, honward, h⟩ := h
    rw [guard_eq_ok] at h
    obtain ⟨-, h⟩ := h
    obtain rfl := pure_eq_ok.mp h
    refine ⟨rfl, ?_⟩
    intro hnone
    show onward.trip = none
    unfold resolveOnward at honward
    rw [hnone] at honward
    split at honward
    · next heq => cases heq
    · split at honward
      · obtain rfl := Except.ok.inj honward
        rfl
      · cases honward
    · cases honward
  · exact absurd h throw_ne_ok

/-- No trip of the patterns compiled so far runs on two of them. -/
theorem Valid.home_unique {stopCount : Nat} {d : Draft} (hd : d.Valid stopCount) {stops : Nat}
    {footpaths : List Footpath} {rules : List Rule} {m n id : Nat}
    (hm : (d.schedule stops footpaths rules).Serves m id)
    (hn : (d.schedule stops footpaths rules).Serves n id) : m = n := by
  have hhome : ∀ number, (d.schedule stops footpaths rules).Serves number id →
      ∃ name, d.trips[id]? = some (name, number) := by
    intro number hgiven
    obtain ⟨t, ht, rfl⟩ := hgiven
    change t ∈ (d.patterns.getD number default).trips at ht
    rw [Array.getD_eq_getD_getElem?] at ht
    cases hp : d.patterns[number]? with
    | none =>
        rw [hp] at ht
        cases ht
    | some p =>
        rw [hp] at ht
        exact hd.home number p hp t ht
  obtain ⟨name, hname⟩ := hhome m hm
  obtain ⟨name', hname'⟩ := hhome n hn
  have heq := hname.symm.trans hname'
  simp only [Option.some.injEq, Prod.mk.injEq] at heq
  exact heq.2

end Draft

/-! ## §6. The timetable of a feed. -/

/-- The timetable of a feed is made of a valid draft, of footpaths that have
been checked and of rules that the draft resolves. -/
theorem Feed.compile_eq_ok {f : Feed} {t : Timetable} (h : f.compile = .ok t) :
    ∃ (d : Draft) (rules : List Rule), d.Valid f.stops.length ∧ f.checkFootpaths = .ok () ∧
      f.rules.mapM d.resolveRule = .ok rules ∧
      t = Timetable.ofSchedule f.stops.toArray (d.trips.map (·.1))
        (d.schedule f.stops.length f.footpaths rules) := by
  unfold Feed.compile at h
  rw [bind_eq_ok] at h
  obtain ⟨d, hd, h⟩ := h
  rw [check_eq_ok] at h
  obtain ⟨hfootpaths, h⟩ := h
  rw [bind_eq_ok] at h
  obtain ⟨rules, hrules, h⟩ := h
  obtain rfl := pure_eq_ok.mp h
  refine ⟨d, rules, ?_, hfootpaths, hrules, rfl⟩
  exact foldlM_invariant (fun hs hstep => hs.addPattern hstep) f.patterns
    (Draft.Valid.empty _) hd

theorem Feed.footpath_lt {f : Feed} (h : f.checkFootpaths = .ok ()) {path : Footpath}
    (hpath : path ∈ f.footpaths) :
    path.origin < f.stops.length ∧ path.destination < f.stops.length := by
  unfold Feed.checkFootpaths at h
  have hfree := refuseFirst_eq_ok_iff.mp h
  obtain ⟨i, hi, rfl⟩ := List.getElem_of_mem hpath
  have hzip : (f.footpaths[i], i) ∈ f.footpaths.zipIdx := by
    rw [List.mem_zipIdx_iff_getElem?]
    simp [hi]
  constructor
  · have := hfree (i, f.footpaths[i].origin)
      (List.mem_flatMap.mpr ⟨_, hzip, List.mem_cons_self⟩)
    simpa using this
  · have := hfree (i, f.footpaths[i].destination)
      (List.mem_flatMap.mpr ⟨_, hzip, List.mem_cons_of_mem _ List.mem_cons_self⟩)
    simpa using this

theorem Feed.compile_valid {f : Feed} {t : Timetable} (h : f.compile = .ok t) :
    t.forward.schedule.Valid := by
  obtain ⟨d, rules, hd, hfootpaths, hrules, rfl⟩ := Feed.compile_eq_ok h
  refine ⟨?_, hd.home_unique, fun path hpath => Feed.footpath_lt hfootpaths hpath, ?_⟩
  · intro number hnumber
    change number < d.patterns.size at hnumber
    have hmem : d.patterns.getD number default ∈ d.patterns := by
      rw [Array.getD_eq_getD_getElem?, Array.getElem?_eq_getElem hnumber]
      exact Array.getElem_mem hnumber
    exact hd.pattern _ hmem
  · intro r hr
    obtain ⟨raw, -, hraw⟩ := of_mem_mapM _ hrules r hr
    obtain ⟨hfeeder, honward, -⟩ :=
      hd.of_resolveRule hraw f.stops.length f.footpaths rules
    exact ⟨hfeeder, honward⟩

/-- Every rule of a compiled feed names the trip that is left. -/
theorem Feed.compile_feeder_isSome {f : Feed} {t : Timetable} (h : f.compile = .ok t) {r : Rule}
    (hr : r ∈ t.forward.schedule.rules) : r.feeder.trip.isSome := by
  obtain ⟨d, rules, hd, -, hrules, rfl⟩ := Feed.compile_eq_ok h
  obtain ⟨raw, -, hraw⟩ := of_mem_mapM _ hrules r hr
  exact (hd.of_resolveRule hraw f.stops.length f.footpaths rules).2.2

/-- Every rule of a compiled feed comes from one that was delivered. -/
theorem Feed.exists_rule_of_mem {f : Feed} {t : Timetable} (h : f.compile = .ok t) {r : Rule}
    (hr : r ∈ t.forward.schedule.rules) :
    ∃ raw ∈ f.rules, r.kind = raw.kind ∧ (raw.onwardTrip = none → r.onward.trip = none) := by
  obtain ⟨d, rules, -, -, hrules, rfl⟩ := Feed.compile_eq_ok h
  obtain ⟨raw, hmem, hraw⟩ := of_mem_mapM _ hrules r hr
  exact ⟨raw, hmem, Draft.kind_of_resolveRule hraw⟩

/-- The timetable of a feed; an empty one if a fault is found. -/
def Feed.timetable (f : Feed) : Timetable := f.compile.toOption.getD default

theorem Feed.compile_eq_timetable {f : Feed} (h : f.compile.toOption.isSome = true) :
    f.compile = .ok f.timetable := by
  unfold timetable
  cases hf : f.compile with
  | error e =>
      rw [hf] at h
      cases h
  | ok t => rfl

/-! ## §7. The networks of a timetable. -/

/-- A network that a search can rely on: its schedule is valid, and its tables
are those of the schedule. -/
structure Network.Valid (n : Network) : Prop where
  schedule : n.schedule.Valid
  tables : n = Network.ofSchedule n.direction n.schedule

theorem Feed.compile_stopCount {f : Feed} {t : Timetable} (h : f.compile = .ok t)
    (d : Direction) : (t.network d).stopCount = t.stopCount := by
  obtain ⟨draft, rules, -, -, -, rfl⟩ := Feed.compile_eq_ok h
  cases d <;> simp [Timetable.network, Timetable.ofSchedule, Network.ofSchedule,
    Network.stopCount, Timetable.stopCount, Schedule.reversed]

/-- The reverse network of a compiled feed is that of the schedule run
backwards. -/
theorem Feed.compile_reverse {f : Feed} {t : Timetable} (h : f.compile = .ok t) :
    t.reverse.schedule = t.forward.schedule.reversed := by
  obtain ⟨draft, rules, -, -, -, rfl⟩ := Feed.compile_eq_ok h
  rfl

/-- A search can rely on both networks of a compiled feed. -/
theorem Feed.compile_network_valid {f : Feed} {t : Timetable} (h : f.compile = .ok t)
    (d : Direction) : (t.network d).Valid := by
  have hvalid := Feed.compile_valid h
  have hreverse := Feed.compile_reverse h
  obtain ⟨draft, rules, -, -, -, rfl⟩ := Feed.compile_eq_ok h
  cases d with
  | forward => exact ⟨hvalid, rfl⟩
  | reverse => exact ⟨hreverse ▸ hvalid.reversed, rfl⟩

end TransitRouting
