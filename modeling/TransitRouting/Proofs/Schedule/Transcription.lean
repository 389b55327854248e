/-
  TransitRouting.Proofs.Schedule.Transcription
  ────────────────────────────────────────────
  A timetable says all that its feed says.

  Compiling puts numbers in place of names and the trips of a pattern into
  order.  Nothing else changes: every pattern has the halts and the trips that
  were delivered, every number has the name that was delivered for it, and
  footpaths and rules are those of the feed.

  Main statements:

    • `Draft.Transcribes.add` — adding a pattern keeps what was written before
      and writes down the pattern;
    • `Feed.reliable_and_transcribed_of_compile` — a feed that is compiled can be
      relied on in both directions, and is written down in full.
-/
import TransitRouting.Proofs.Schedule.Reliability

namespace TransitRouting

open Checks

/-! ## §1. Feeds in terms of numbers. -/

/-- The trip as it was delivered, where `name` gives the names of the trips. -/
def Trip.toFeed (name : Nat → String) (t : Trip) : TripFeed :=
  { id := name t.id
    arrivals := t.calls.map (·.arrival)
    departures := t.calls.map (·.departure)
    group := t.group
    reluctance := t.reluctance }

/-- The pattern is the one that was delivered, with its trips in some order. -/
structure PatternFeed.Transcribed (name : Nat → String) (p : PatternFeed) (q : Pattern) : Prop where
  name_eq : q.name = p.id
  stops_eq : q.halts.map (·.stop) = p.stops
  boarding_iff : ∀ position < q.length,
    (q.halts.getD position default).boarding = true ↔ position ∉ p.noBoarding
  alighting_iff : ∀ position < q.length,
    (q.halts.getD position default).alighting = true ↔ position ∉ p.noAlighting
  minTransferTime_eq : q.minTransferTime = p.minTransferTime
  trips_perm : (q.trips.map (Trip.toFeed name)).Perm p.trips

/-- The rule is the one that was delivered, with numbers for names. -/
structure RuleFeed.Transcribed (t : Timetable) (raw : RuleFeed) (r : Rule) : Prop where
  kind_eq : r.kind = raw.kind
  minTransferTime_eq : r.minTransferTime = raw.minTransferTime
  feederPosition_eq : r.feeder.position = raw.feederPosition
  feederTrip : ∃ id, r.feeder.trip = some id ∧ t.tripName id = raw.feederTrip
  onwardPosition_eq : r.onward.position = raw.onwardPosition
  /-- A rule for one trip names it, and one for all names their pattern. -/
  onward : match raw.onwardTrip with
    | some name => ∃ id, r.onward.trip = some id ∧ t.tripName id = name
    | none => r.onward.trip = none ∧
        raw.onwardPattern = some (t.forward.pattern r.onward.pattern).name

/-- The timetable says all that the feed says. -/
structure Feed.Transcribed (f : Feed) (t : Timetable) : Prop where
  stopNames_eq : t.stopNames.toList = f.stops
  /-- Trips are numbered as they come in the feed. -/
  tripNames_eq : t.tripNames.toList = f.patterns.flatMap fun p => p.trips.map (·.id)
  tripNames_nodup : t.tripNames.toList.Nodup
  patterns : List.Forall₂ (PatternFeed.Transcribed t.tripName) f.patterns
    t.forward.schedule.patterns.toList
  footpaths_eq : t.forward.schedule.footpaths = f.footpaths
  rules : List.Forall₂ (RuleFeed.Transcribed t) f.rules t.forward.schedule.rules

/-! ## §2. Trips. -/

/-- A trip that was checked is the one delivered under its name. -/
theorem TripFeed.toFeed_toTrip {t : TripFeed} {length id : Nat} {name : Nat → String}
    (h : t.check length = .ok ()) (hname : name id = t.id) : (t.toTrip id).toFeed name = t := by
  obtain ⟨harrivals, hdepartures⟩ := TripFeed.check_eq_ok h
  -- A call is made of one time from each list.
  have harrivals' : t.calls.map (·.arrival) = t.arrivals := by
    apply List.ext_getElem <;> simp [TripFeed.calls, harrivals, hdepartures]
  have hdepartures' : t.calls.map (·.departure) = t.departures := by
    apply List.ext_getElem <;> simp [TripFeed.calls, harrivals, hdepartures]
  show (⟨name id, t.calls.map (·.arrival), t.calls.map (·.departure), t.group, t.reluctance⟩ :
    TripFeed) = t
  rw [harrivals', hdepartures', hname]

namespace Draft

/-- The names of the trips that have been numbered are those of the draft. -/
def Names (d : Draft) (name : Nat → String) : Prop :=
  ∀ id (h : id < d.trips.size), name id = d.trips[id].1

variable {d d' : Draft} {length stopCount : Nat} {p : PatternFeed} {name : Nat → String}

theorem Names.of_enter {ts : List TripFeed} (h : (d.enter ts).Names name) : d.Names name := by
  intro id hid
  have hlt : id < (d.enter ts).trips.size := by
    simp only [enter, Array.size_append]
    omega
  rw [h id hlt]
  simp [enter, hid]

/-- Numbers that are given out go to the trips in the order in which they come. -/
theorem map_toFeed_numbered :
    ∀ {ts : List TripFeed} {first : Nat}, (∀ t ∈ ts, t.check length = .ok ()) →
      (∀ i (h : i < ts.length), name (first + i) = ts[i].id) →
      (numbered first ts).map (Trip.toFeed name) = ts := by
  intro ts
  induction ts with
  | nil => intro first _ _; rfl
  | cons t rest ih =>
      intro first hcheck hname
      show (t.toTrip first).toFeed name :: (numbered (first + 1) rest).map (Trip.toFeed name) = _
      have hfirst : name first = t.id := hname 0 (Nat.succ_pos _)
      rw [TripFeed.toFeed_toTrip (hcheck t List.mem_cons_self) hfirst]
      rw [ih (fun u hu => hcheck u (List.mem_cons_of_mem _ hu))]
      intro i hi
      have hnext := hname (i + 1) (Nat.succ_lt_succ hi)
      rw [Nat.add_right_comm, Nat.add_assoc]
      exact hnext

theorem names_tripName (d : Draft) : d.Names d.tripName := by
  intro id hid
  simp [tripName, hid]

/-- The trips of a pattern are numbered as they were delivered. -/
theorem Admits.map_toFeed_numbered (h : d.Admits stopCount p)
    (hname : (d.enter p.trips).Names name) :
    (numbered d.trips.size p.trips).map (Trip.toFeed name) = p.trips := by
  refine Draft.map_toFeed_numbered h.check fun i hi => ?_
  have hlt : d.trips.size + i < (d.enter p.trips).trips.size := by
    simpa [enter] using hi
  rw [hname _ hlt]
  simp [enter]

/-- The trips of an added pattern are those that were delivered. -/
theorem Admits.lineUp_perm (h : d.Admits stopCount p) (hname : (d.enter p.trips).Names name) :
    ((d.lineUp p).map (Trip.toFeed name)).Perm p.trips := by
  have hperm := (List.mergeSort_perm (numbered d.trips.size p.trips)
    (Trip.startsBefore (p.stops.length - 1))).map (Trip.toFeed name)
  rw [h.map_toFeed_numbered hname] at hperm
  exact hperm

/-! ## §3. Patterns. -/

theorem halts_getD_haltsOf (p : PatternFeed) {position : Nat} (h : position < p.stops.length) :
    (haltsOf p).getD position default =
      ⟨p.stops[position], !p.noBoarding.contains position, !p.noAlighting.contains position⟩ := by
  have hlt : position < (haltsOf p).length := by simpa using h
  rw [List.getD_eq_getElem _ _ hlt]
  simp [haltsOf]

/-- An added pattern is the one that was delivered. -/
theorem Admits.transcribed (h : d.Admits stopCount p) (hname : (d.enter p.trips).Names name) :
    p.Transcribed name ⟨p.id, haltsOf p, p.minTransferTime, d.lineUp p⟩ where
  name_eq := rfl
  stops_eq := by
    apply List.ext_getElem <;> simp [haltsOf]
  boarding_iff := by
    intro position hposition
    rw [halts_getD_haltsOf p (by simpa [Pattern.length] using hposition)]
    simp
  alighting_iff := by
    intro position hposition
    rw [halts_getD_haltsOf p (by simpa [Pattern.length] using hposition)]
    simp
  minTransferTime_eq := rfl
  trips_perm := h.lineUp_perm hname

/-- The draft says all that the patterns of the feed say. -/
structure Transcribes (ps : List PatternFeed) (d : Draft) : Prop where
  names_nodup : (ps.map (·.id)).Nodup
  tripNames_eq : d.trips.toList.map (·.1) = ps.flatMap fun p => p.trips.map (·.id)
  tripNames_nodup : (d.trips.toList.map (·.1)).Nodup
  patterns : ∀ name, d.Names name →
    List.Forall₂ (PatternFeed.Transcribed name) ps d.patterns.toList

theorem Transcribes.empty : Draft.empty.Transcribes [] where
  names_nodup := List.nodup_nil
  tripNames_eq := rfl
  tripNames_nodup := List.nodup_nil
  patterns := fun _ _ => List.Forall₂.nil

theorem Transcribes.map_name {ps : List PatternFeed} (h : d.Transcribes ps) :
    d.patterns.toList.map (·.name) = ps.map (·.id) := by
  have hpatterns := h.patterns (fun id => (d.trips.getD id default).1) fun id hid => by simp [hid]
  rw [← List.forall₂_eq_eq_eq, List.forall₂_map_left_iff, List.forall₂_map_right_iff]
  exact hpatterns.flip.imp fun _ _ hq => hq.name_eq

/-- Adding a pattern keeps what was written before and writes down the pattern. -/
theorem Transcribes.add {ps : List PatternFeed} (h : d.Transcribes ps)
    (hadmits : d.Admits stopCount p) : (d.add p).Transcribes (ps ++ [p]) := by
  have htrips : (d.add p).trips.toList.map (·.1) =
      d.trips.toList.map (·.1) ++ p.trips.map (·.id) := by
    simp [Draft.add, enter, Function.comp_def]
  refine ⟨?_, ?_, ?_, ?_⟩
  · rw [List.map_append, List.map_singleton, ← List.concat_eq_append, List.nodup_concat]
    refine ⟨fun hmem => ?_, h.names_nodup⟩
    rw [← h.map_name] at hmem
    obtain ⟨q, hq, hname⟩ := List.mem_map.mp hmem
    exact findPattern?_eq_none_iff.mp hadmits.name_new q (Array.mem_toList_iff.mp hq) hname
  · rw [htrips, h.tripNames_eq, List.flatMap_append, List.flatMap_singleton]
  · rw [htrips, List.nodup_append']
    refine ⟨h.tripNames_nodup, hadmits.names_nodup, fun id hid hid' => ?_⟩
    obtain ⟨e, he, rfl⟩ := List.mem_map.mp hid
    obtain ⟨t, ht, hname⟩ := List.mem_map.mp hid'
    exact findTrip?_eq_none_iff.mp (hadmits.names_new t ht) e (Array.mem_toList_iff.mp he)
      hname.symm
  · intro name hname
    have hlist : (d.add p).patterns.toList =
        d.patterns.toList ++ [⟨p.id, haltsOf p, p.minTransferTime, d.lineUp p⟩] := by
      simp [Draft.add]
    rw [hlist]
    exact List.rel_append (h.patterns name hname.of_enter)
      (List.Forall₂.cons (hadmits.transcribed hname) List.Forall₂.nil)

/-- What has been compiled of a list of patterns says all that they say. -/
theorem transcribes_of_foldlM {ps : List PatternFeed}
    (h : ps.foldlM (Draft.addPattern stopCount) Draft.empty = .ok d) : d.Transcribes ps :=
  foldlM_prefix (motive := fun ps d => Draft.Transcribes ps d) (fun hs hstep => by
    obtain ⟨hadmits, -, rfl⟩ := addPattern_eq_ok_iff.mp hstep
    exact hs.add hadmits) ps Transcribes.empty h

/-! ## §4. Rules. -/

/-- The name of a trip that was found is the one that was looked for. -/
theorem Names.eq_of_findTrip? (h : d.Names name) {trip : String} {id : Nat}
    (hid : d.findTrip? trip = some id) : name id = trip := by
  obtain ⟨hlt, hname, -⟩ := Array.findIdx?_eq_some_iff_getElem.mp hid
  rw [h id hlt]
  simpa using hname

theorem name_of_findPattern? {pattern : String} {number : Nat}
    (h : d.findPattern? pattern = some number) :
    (d.patterns.getD number default).name = pattern := by
  obtain ⟨hlt, hname, -⟩ := Array.findIdx?_eq_some_iff_getElem.mp h
  rw [Array.getD_eq_getD_getElem?, Array.getElem?_eq_getElem hlt]
  simpa using hname

/-- The position of boarding stays what it was. -/
theorem position_of_resolveOnward {r : RuleFeed} {e : RuleEnd} (h : d.resolveOnward r = .ok e) :
    e.position = r.onwardPosition := by
  unfold resolveOnward at h
  split at h
  · split at h
    · obtain rfl := Except.ok.inj h
      rfl
    · cases h
  · split at h
    · obtain rfl := Except.ok.inj h
      rfl
    · cases h
  · cases h

/-- A rule that is resolved keeps everything but the names. -/
theorem transcribed_of_resolveRule {t : Timetable} (hnames : d.Names t.tripName)
    (hpatterns : t.forward.schedule.patterns = d.patterns) {raw : RuleFeed} {r : Rule}
    (h : d.resolveRule raw = .ok r) : raw.Transcribed t r := by
  unfold resolveRule at h
  split at h
  · next trip htrip =>
      simp only at h
      rw [guard_eq_ok] at h
      obtain ⟨-, h⟩ := h
      rw [bind_eq_ok] at h
      obtain ⟨onward, honward, h⟩ := h
      rw [guard_eq_ok] at h
      obtain ⟨-, h⟩ := h
      obtain rfl := pure_eq_ok.mp h
      refine ⟨rfl, rfl, rfl, ⟨trip, rfl, hnames.eq_of_findTrip? htrip⟩,
        position_of_resolveOnward honward, ?_⟩
      unfold resolveOnward at honward
      split at honward
      · next name _ heq =>
          rw [heq]
          split at honward
          · next id hid =>
              obtain rfl := Except.ok.inj honward
              exact ⟨id, rfl, hnames.eq_of_findTrip? hid⟩
          · cases honward
      · next name heq hpattern =>
          rw [heq]
          split at honward
          · next number hnumber =>
              obtain rfl := Except.ok.inj honward
              refine ⟨rfl, ?_⟩
              rw [hpattern]
              show some name = some (t.forward.schedule.patterns.getD number default).name
              rw [hpatterns, name_of_findPattern? hnumber]
          · cases honward
      · cases honward
  · exact absurd h throw_ne_ok

end Draft

/-! ## §5. Whole feeds. -/

theorem Feed.transcribed_of_compile {f : Feed} {t : Timetable} (h : f.compile = .ok t) :
    f.Transcribed t ∧ (f.patterns.map (·.id)).Nodup ∧
      t.forward.schedule.patterns.toList.map (·.name) = f.patterns.map (·.id) := by
  unfold Feed.compile at h
  rw [bind_eq_ok] at h
  obtain ⟨d, hd, h⟩ := h
  rw [check_eq_ok, bind_eq_ok] at h
  obtain ⟨-, rules, hrules, h⟩ := h
  obtain rfl := pure_eq_ok.mp h
  have hdraft : d.Transcribes f.patterns := Draft.transcribes_of_foldlM hd
  have hnames : d.Names (Timetable.ofSchedule f.stops.toArray (d.trips.map (·.1))
      ⟨f.stops.length, d.patterns, f.footpaths, rules⟩).tripName := by
    intro id hid
    simp [Timetable.tripName, Timetable.ofSchedule, hid]
  refine ⟨⟨rfl, ?_, ?_, hdraft.patterns _ hnames, rfl, ?_⟩, hdraft.names_nodup, hdraft.map_name⟩
  · show (d.trips.map (·.1)).toList = _
    rw [Array.toList_map]
    exact hdraft.tripNames_eq
  · show (d.trips.map (·.1)).toList.Nodup
    rw [Array.toList_map]
    exact hdraft.tripNames_nodup
  · exact (mapM_eq_ok_iff.mp hrules).imp fun _ _ hr =>
      Draft.transcribed_of_resolveRule hnames rfl hr

/-- A feed that is compiled can be relied on in both directions, and is written
down in full. -/
theorem Feed.reliable_and_transcribed_of_compile {f : Feed} {t : Timetable}
    (h : f.compile = .ok t) :
    (∀ direction, (t.network direction).Reliable) ∧ f.Transcribed t := by
  obtain ⟨htranscribed, hnodup, hnames⟩ := Feed.transcribed_of_compile h
  refine ⟨fun direction => ?_, htranscribed⟩
  refine (Feed.compile_network_valid h direction).reliable (Feed.compile_soundTrips h direction) ?_
  have hforward : (t.forward.schedule.patterns.toList.map (·.name)).Nodup := hnames ▸ hnodup
  cases direction with
  | forward => exact hforward
  | reverse =>
      -- Patterns keep their names when they are run backwards.
      show (t.reverse.schedule.patterns.toList.map (·.name)).Nodup
      rw [Feed.compile_reverse h]
      simpa [Schedule.reversed, Pattern.reversed, Function.comp_def] using hforward

/-- A line whose second run is listed first. -/
def PatternFeed.trunk : PatternFeed where
  id := "trunk"
  stops := [0, 1]
  noBoarding := []
  noAlighting := [0]
  minTransferTime := none
  trips :=
    [⟨"l2", [900, 1200].map Time.saturate, [960, 1200].map Time.saturate, 1, 1.0⟩,
     ⟨"l1", [0, 300].map Time.saturate, [60, 300].map Time.saturate, 1, 1.0⟩]

/-- A branch off the line, with a trip for each run. -/
def PatternFeed.branch : PatternFeed where
  id := "branch"
  stops := [1, 2]
  noBoarding := []
  noAlighting := []
  minTransferTime := some (Duration.saturate 60)
  trips :=
    [⟨"b1", [310, 600].map Time.saturate, [310, 600].map Time.saturate, 2, 1.0⟩,
     ⟨"b2", [1210, 1500].map Time.saturate, [1210, 1500].map Time.saturate, 2, 1.0⟩]

/-- The line, the branch that waits for its first run, and a way back on foot. -/
def Feed.branchLine : Feed where
  stops := ["A", "B", "C"]
  patterns := [.trunk, .branch]
  footpaths := [⟨2, 1, Duration.saturate 240⟩]
  rules := [⟨"l1", 1, none, some "branch", 0, .guaranteed, Duration.saturate 10⟩]

/-- Both patterns, the runs of the line in the order in which they leave. -/
def Draft.branchLine : Draft :=
  (empty.addOrdered .trunk (numbered 0 PatternFeed.trunk.trips).reverse).addOrdered .branch
    (numbered 2 PatternFeed.branch.trips)

/-- The timetable of the line and its branch. -/
def Timetable.branchLine : Timetable :=
  .ofSchedule #["A", "B", "C"] (Draft.branchLine.trips.map (·.1))
    ⟨3, Draft.branchLine.patterns, Feed.branchLine.footpaths,
      [⟨⟨0, 1, some 1⟩, ⟨1, 0, none⟩, .guaranteed, Duration.saturate 10⟩]⟩

theorem Feed.compile_branchLine : Feed.branchLine.compile = .ok .branchLine := by
  have htrunk : Draft.empty.addPattern 3 .trunk =
      .ok (Draft.empty.addOrdered .trunk (Draft.numbered 0 PatternFeed.trunk.trips).reverse) :=
    Draft.Admits.addPattern_eq_addOrdered (by decide +kernel) (List.reverse_perm _)
      (by decide +kernel) (by decide +kernel)
  have hbranch : (Draft.empty.addOrdered .trunk
      (Draft.numbered 0 PatternFeed.trunk.trips).reverse).addPattern 3 .branch = .ok .branchLine :=
    Draft.Admits.addPattern_eq_addOrdered (by decide +kernel) (List.Perm.refl _)
      (by decide +kernel) (by decide +kernel)
  unfold Feed.compile
  simp only [Feed.branchLine, List.foldlM_cons, List.foldlM_nil, List.length_cons,
    List.length_nil, Nat.zero_add, Nat.reduceAdd, bind_eq_ok, pure_eq_ok]
  exact ⟨.branchLine, ⟨_, htrunk, _, hbranch, rfl⟩, (), rfl, _, by decide +kernel, rfl⟩

/-- The runs of the line change places, and everything is still there. -/
theorem Feed.reliable_and_transcribed_branchLine :
    (∀ direction, (Timetable.branchLine.network direction).Reliable) ∧
      Feed.branchLine.Transcribed .branchLine :=
  Feed.reliable_and_transcribed_of_compile Feed.compile_branchLine

end TransitRouting
