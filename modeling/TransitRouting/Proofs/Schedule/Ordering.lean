/-
  TransitRouting.Proofs.Schedule.Ordering
  ───────────────────────────────────────
  Which trips of a pattern pass the check of their order.

  Trips are sorted by when they start and when they end, and then each is
  compared with the next one.  If they can be put into a running order at all,
  sorting finds it, but for one case: trips that start together and end
  together stay as they were delivered, and if one of them is ahead in between,
  it has to come first.

  Main statements:

    • `Draft.Admits.lineUp_pairwise_iff` — a pattern passes exactly when its trips
      have a running order, and those that are tied were delivered in it;
    • `Feed.compile_reordered` — where ties do not matter, a feed passes in
      whatever order the trips of one of its patterns come, or in none;
    • `Feed.compile_line_slow_fast` — two tied trips pass in one order only.
-/
import TransitRouting.Proofs.Schedule.Transcription

namespace TransitRouting

open Checks

/-! ## §1. Sorting trips. -/

/-- In a list that is ordered any two members can be compared. -/
theorem comparable_of_pairwise {α : Type} {R : α → α → Prop} (hrefl : ∀ a, R a a) {xs : List α}
    (h : xs.Pairwise R) : ∀ a ∈ xs, ∀ b ∈ xs, R a b ∨ R b a := by
  intro a ha b hb
  exact List.Pairwise.forall_of_forall_of_flip (R := fun a b => R a b ∨ R b a)
    (fun a _ => Or.inl (hrefl a)) (h.imp Or.inl) (h.imp Or.inr) ha hb

namespace Trip

variable {length last : Nat} {ts : List Trip}

/-- The two trips start together and end together. -/
def Tied (last : Nat) (a b : Trip) : Prop :=
  a.departureAt 0 = b.departureAt 0 ∧ a.arrivalAt last = b.arrivalAt last

theorem Tied.startsBefore {a b : Trip} (h : Tied last a b) : startsBefore last a b = true :=
  startsBefore_iff.mpr (Or.inr ⟨h.1, h.2 ▸ Time.le_refl _⟩)

theorem Tied.symm {a b : Trip} (h : Tied last a b) : Tied last b a := ⟨h.1.symm, h.2.symm⟩

theorem startsBefore_of_keepsAhead {a b : Trip} (h : a.KeepsAhead (last + 1) b) :
    startsBefore last a b = true := by
  have hstart := (h 0 (Nat.succ_pos last)).2
  have hend := (h last (Nat.lt_succ_self last)).1
  rw [startsBefore_iff, Time.lt_def, Time.ext_iff]
  rw [Time.le_def] at hstart
  rcases Int.lt_or_eq_of_le hstart with hlt | heq
  · exact Or.inl hlt
  · exact Or.inr ⟨heq, hend⟩

/-- A trip that comes first in the order of starts although the other one keeps
ahead of it is tied with it. -/
theorem KeepsAhead.tied {a b : Trip} (h : b.KeepsAhead (last + 1) a)
    (hbefore : startsBefore last a b = true) : Tied last a b := by
  have hstart := (h 0 (Nat.succ_pos last)).2
  have hend := (h last (Nat.lt_succ_self last)).1
  rw [startsBefore_iff] at hbefore
  unfold Tied
  simp only [Time.lt_def, Time.ext_iff, Time.le_def] at *
  omega

/-- Sorting leaves tied trips in the order in which they were. -/
theorem pairwise_tied_mergeSort_iff {R : Trip → Trip → Prop} :
    (ts.mergeSort (startsBefore last)).Pairwise (fun a b => Tied last a b → R a b) ↔
      ts.Pairwise (fun a b => Tied last a b → R a b) := by
  induction ts with
  | nil => simp
  | cons a rest ih =>
      obtain ⟨before, after, hsorted, hrest, hlater⟩ := List.mergeSort_cons
        (startsBefore_trans last) (startsBefore_total last) a rest
      -- No trip tied with the first one is sorted in front of it.
      have hbefore : ∀ b ∈ before, ¬ Tied last a b ∧ ¬ Tied last b a := by
        intro b hb
        have hnot := hlater b hb
        constructor
        · intro htied
          simp [htied.startsBefore] at hnot
        · intro htied
          simp [htied.symm.startsBefore] at hnot
      rw [hrest, List.pairwise_append] at ih
      rw [hsorted, List.pairwise_append, List.pairwise_cons, List.pairwise_cons, ← ih]
      have hmem : ∀ b, b ∈ rest ↔ b ∈ before ∨ b ∈ after := by
        intro b
        rw [← List.mem_append, ← hrest, List.mem_mergeSort]
      constructor
      · intro h
        obtain ⟨hfirst, ⟨ha, hsecond⟩, hcross⟩ := h
        refine ⟨fun b hb htied => ?_, hfirst, hsecond,
          fun b hb c hc => hcross b hb c (List.mem_cons_of_mem _ hc)⟩
        rcases (hmem b).mp hb with hb | hb
        · exact absurd htied (hbefore b hb).1
        · exact ha b hb htied
      · intro h
        obtain ⟨ha, hfirst, hsecond, hcross⟩ := h
        refine ⟨hfirst, ⟨fun b hb => ha b ((hmem b).mpr (Or.inr hb)), hsecond⟩, fun b hb c hc => ?_⟩
        cases hc with
        | head => exact fun htied => absurd htied (hbefore b hb).2
        | tail _ hc => exact hcross b hb c hc

/-- Of any two trips one keeps ahead of the other. -/
def Comparable (length : Nat) (ts : List Trip) : Prop :=
  ∀ a ∈ ts, ∀ b ∈ ts, a.KeepsAhead length b ∨ b.KeepsAhead length a

theorem Comparable.perm {us : List Trip} (h : Comparable length ts) (hperm : us.Perm ts) :
    Comparable length us :=
  fun a ha b hb => h a (hperm.mem_iff.mp ha) b (hperm.mem_iff.mp hb)

/-- The trips that pass are those of which any two can be compared, and whose
ties were delivered in running order. -/
theorem pairwise_mergeSort_iff (last : Nat) (ts : List Trip) :
    (ts.mergeSort (startsBefore last)).Pairwise (KeepsAhead (last + 1)) ↔
      Comparable (last + 1) ts ∧
        ts.Pairwise (fun a b => Tied last a b → a.KeepsAhead (last + 1) b) := by
  have hperm := List.mergeSort_perm ts (startsBefore last)
  rw [← pairwise_tied_mergeSort_iff]
  constructor
  · intro h
    have hcomparable : Comparable (last + 1) (ts.mergeSort (startsBefore last)) :=
      comparable_of_pairwise (KeepsAhead.refl (last + 1)) h
    refine ⟨hcomparable.perm hperm.symm, h.imp ?_⟩
    intro a b hahead _
    exact hahead
  · intro h
    obtain ⟨hcomparable, hties⟩ := h
    have hsorted := List.pairwise_mergeSort (startsBefore_trans last) (startsBefore_total last) ts
    refine (hsorted.and hties).imp_of_mem fun {a b} ha hb hboth => ?_
    rcases hcomparable a (hperm.mem_iff.mp ha) b (hperm.mem_iff.mp hb) with hahead | hbehind
    · exact hahead
    · exact hboth.2 (hbehind.tied hboth.1)

end Trip

/-! ## §2. Trips as delivered. -/

/-- At each of `length` positions the first trip neither arrives nor departs
after the second. -/
def TripFeed.KeepsAhead (length : Nat) (a b : TripFeed) : Prop :=
  ∀ q < length, a.arrivals.getD q default ≤ b.arrivals.getD q default ∧
    a.departures.getD q default ≤ b.departures.getD q default

instance (length : Nat) (a b : TripFeed) : Decidable (a.KeepsAhead length b) :=
  inferInstanceAs (Decidable (∀ q < length, _))

/-- The two trips start together and end together. -/
def TripFeed.Tied (last : Nat) (a b : TripFeed) : Prop :=
  a.departures.getD 0 default = b.departures.getD 0 default ∧
    a.arrivals.getD last default = b.arrivals.getD last default

instance (last : Nat) (a b : TripFeed) : Decidable (a.Tied last b) :=
  inferInstanceAs (Decidable (_ ∧ _))

namespace PatternFeed

/-- The trips can be put into an order in which none overtakes another. -/
def HasRunningOrder (p : PatternFeed) : Prop :=
  ∃ order : List TripFeed, order.Perm p.trips ∧
    order.Pairwise (TripFeed.KeepsAhead p.stops.length)

/-- Two trips that start together and end together run alike, or each of them
overtakes the other somewhere. -/
def TiesAgree (p : PatternFeed) : Prop :=
  ∀ a ∈ p.trips, ∀ b ∈ p.trips, a.Tied (p.stops.length - 1) b →
    a.KeepsAhead p.stops.length b → b.KeepsAhead p.stops.length a

/-- Trips that start together and end together were delivered in running
order. -/
def TiesInOrder (p : PatternFeed) : Prop :=
  p.trips.Pairwise fun a b => a.Tied (p.stops.length - 1) b → a.KeepsAhead p.stops.length b

instance (p : PatternFeed) : Decidable p.TiesAgree :=
  inferInstanceAs (Decidable (∀ a ∈ p.trips, _))

instance (p : PatternFeed) : Decidable p.TiesInOrder :=
  inferInstanceAs (Decidable (List.Pairwise _ _))

end PatternFeed

namespace Trip

variable {name : Nat → String} {a b : Trip}

theorem toFeed_arrivals_getD (t : Trip) (q : Nat) :
    (t.toFeed name).arrivals.getD q default = t.arrivalAt q :=
  List.getD_map t.calls default Call.arrival

theorem toFeed_departures_getD (t : Trip) (q : Nat) :
    (t.toFeed name).departures.getD q default = t.departureAt q :=
  List.getD_map t.calls default Call.departure

theorem toFeed_keepsAhead {length : Nat} :
    (a.toFeed name).KeepsAhead length (b.toFeed name) ↔ a.KeepsAhead length b := by
  unfold TripFeed.KeepsAhead KeepsAhead
  simp only [toFeed_arrivals_getD, toFeed_departures_getD]

theorem toFeed_tied {last : Nat} : (a.toFeed name).Tied last (b.toFeed name) ↔ a.Tied last b := by
  unfold TripFeed.Tied Tied
  simp only [toFeed_arrivals_getD, toFeed_departures_getD]

end Trip

theorem TripFeed.KeepsAhead.refl (length : Nat) (t : TripFeed) : t.KeepsAhead length t :=
  fun _ _ => ⟨Time.le_refl _, Time.le_refl _⟩

namespace PatternFeed

variable {p : PatternFeed} {ts : List TripFeed}

/-- Where ties do not matter, those of trips that can be ordered are in order. -/
theorem TiesAgree.tiesInOrder (h : p.TiesAgree) (horder : p.HasRunningOrder) : p.TiesInOrder := by
  obtain ⟨order, hperm, hordered⟩ := horder
  have hcomparable := comparable_of_pairwise (TripFeed.KeepsAhead.refl p.stops.length) hordered
  refine List.pairwise_of_forall_mem_list fun a ha b hb htied => ?_
  rcases hcomparable a (hperm.mem_iff.mpr ha) b (hperm.mem_iff.mpr hb) with hahead | hbehind
  · exact hahead
  · exact h b hb a ha ⟨htied.1.symm, htied.2.symm⟩ hbehind

/-- Neither depends on how the trips are listed. -/
theorem HasRunningOrder.reordered (h : p.HasRunningOrder) (hperm : ts.Perm p.trips) :
    { p with trips := ts }.HasRunningOrder := by
  obtain ⟨order, horder, hordered⟩ := h
  exact ⟨order, horder.trans hperm.symm, hordered⟩

theorem TiesAgree.reordered (h : p.TiesAgree) (hperm : ts.Perm p.trips) :
    { p with trips := ts }.TiesAgree :=
  fun a ha b hb => h a (hperm.mem_iff.mp ha) b (hperm.mem_iff.mp hb)

end PatternFeed

/-! ## §3. Which patterns pass. -/

namespace Draft

variable {d d' e : Draft} {stopCount : Nat} {p : PatternFeed} {ts : List TripFeed}

/-- The order of trips passes exactly when they have a running order, and those
that are tied were delivered in it. -/
theorem Admits.lineUp_pairwise_iff (h : d.Admits stopCount p) :
    (d.lineUp p).Pairwise (Trip.KeepsAhead p.stops.length) ↔
      p.HasRunningOrder ∧ p.TiesInOrder := by
  have hnames := names_tripName (d.enter p.trips)
  have hsame := h.map_toFeed_numbered hnames
  have hlength : p.stops.length - 1 + 1 = p.stops.length :=
    Nat.sub_add_cancel (Nat.le_of_succ_le h.two_le_length)
  have hiff := Trip.pairwise_mergeSort_iff (p.stops.length - 1) (numbered d.trips.size p.trips)
  rw [hlength] at hiff
  have hties : p.TiesInOrder ↔ (numbered d.trips.size p.trips).Pairwise fun a b =>
      a.Tied (p.stops.length - 1) b → a.KeepsAhead p.stops.length b := by
    unfold PatternFeed.TiesInOrder
    rw [← hsame, List.pairwise_map]
    simp only [Trip.toFeed_keepsAhead, Trip.toFeed_tied, hsame]
  unfold lineUp
  rw [hiff, hties]
  refine and_congr_left fun hinOrder => ⟨fun hcomparable => ?_, fun horder => ?_⟩
  · refine ⟨_, h.lineUp_perm hnames, List.pairwise_map.mpr ?_⟩
    exact (hiff.mpr ⟨hcomparable, hinOrder⟩).imp fun hahead => Trip.toFeed_keepsAhead.mpr hahead
  · obtain ⟨order, hperm, hordered⟩ := horder
    have hcomparable := comparable_of_pairwise (TripFeed.KeepsAhead.refl p.stops.length) hordered
    have hmem : ∀ t ∈ numbered d.trips.size p.trips,
        t.toFeed (d.enter p.trips).tripName ∈ order := by
      intro t ht
      have hin : t.toFeed (d.enter p.trips).tripName ∈
          (numbered d.trips.size p.trips).map (Trip.toFeed (d.enter p.trips).tripName) :=
        List.mem_map_of_mem ht
      rw [hsame] at hin
      exact hperm.mem_iff.mpr hin
    intro a ha b hb
    rw [← Trip.toFeed_keepsAhead, ← Trip.toFeed_keepsAhead]
    exact hcomparable _ (hmem a ha) _ (hmem b hb)

/-- The draft with one more pattern, whose trips stay as they are listed. -/
def addListed (d : Draft) (p : PatternFeed) : Draft :=
  { d.enter p.trips with
    patterns := d.patterns.push
      ⟨p.id, haltsOf p, p.minTransferTime, numbered d.trips.size p.trips⟩ }

/-- Trips that are listed in running order stay as they are listed. -/
theorem Admits.addPattern_eq_addListed (h : d.Admits stopCount p)
    (horder : p.trips.Pairwise (TripFeed.KeepsAhead p.stops.length)) :
    d.addPattern stopCount p = .ok (d.addListed p) := by
  have hahead : (numbered d.trips.size p.trips).Pairwise (Trip.KeepsAhead p.stops.length) := by
    rw [← h.map_toFeed_numbered (names_tripName (d.enter p.trips)), List.pairwise_map] at horder
    exact horder.imp Trip.toFeed_keepsAhead.mp
  have hlength : p.stops.length - 1 + 1 = p.stops.length :=
    Nat.sub_add_cancel (Nat.le_of_succ_le h.two_le_length)
  have hlineUp : d.lineUp p = numbered d.trips.size p.trips :=
    List.mergeSort_of_pairwise (hahead.imp fun hkeeps =>
      Trip.startsBefore_of_keepsAhead (hlength.symm ▸ hkeeps))
  exact h.addPattern_eq_of_lineUp hlineUp hahead

/-! ## §4. Drafts that differ in the order of trips. -/

/-- The drafts have the same trips, numbered differently, on patterns of the same
names and lengths. -/
structure Alike (d d' : Draft) : Prop where
  trips : d.trips.toList.Perm d'.trips.toList
  patterns : (d.patterns.toList.map fun p => (p.name, p.length)) =
    d'.patterns.toList.map fun p => (p.name, p.length)

theorem Alike.refl (d : Draft) : d.Alike d := ⟨List.Perm.refl _, rfl⟩

theorem Alike.trips_size (h : d.Alike d') : d.trips.size = d'.trips.size := by
  simpa using h.trips.length_eq

theorem Alike.patterns_size (h : d.Alike d') : d.patterns.size = d'.patterns.size := by
  simpa using congrArg List.length h.patterns

theorem Alike.findTrip?_eq_none_iff (h : d.Alike d') {name : String} :
    d.findTrip? name = none ↔ d'.findTrip? name = none := by
  rw [Draft.findTrip?_eq_none_iff, Draft.findTrip?_eq_none_iff]
  simp only [← Array.mem_toList_iff, h.trips.mem_iff]

theorem findPattern?_eq (d : Draft) (name : String) :
    d.findPattern? name =
      (d.patterns.toList.map fun p => (p.name, p.length)).findIdx? (·.1 = name) := by
  obtain ⟨trips, ⟨patterns⟩⟩ := d
  simp [findPattern?, List.findIdx?_map, Function.comp_def]

theorem patternLength_eq (d : Draft) (number : Nat) :
    d.patternLength number =
      ((d.patterns.toList.map fun p => (p.name, p.length)).getD number default).2 := by
  unfold patternLength
  by_cases h : number < d.patterns.size
  · simp [h]
  · simp [h]
    rfl

theorem Alike.findPattern?_eq (h : d.Alike d') (name : String) :
    d.findPattern? name = d'.findPattern? name := by
  rw [Draft.findPattern?_eq, Draft.findPattern?_eq, h.patterns]

theorem Alike.patternLength_eq (h : d.Alike d') (number : Nat) :
    d.patternLength number = d'.patternLength number := by
  rw [Draft.patternLength_eq, Draft.patternLength_eq, h.patterns]

theorem Alike.lineUp_eq (h : d.Alike d') (p : PatternFeed) : d.lineUp p = d'.lineUp p := by
  unfold lineUp
  rw [h.trips_size]

theorem Alike.admits (h : d.Alike d') (hadmits : d.Admits stopCount p) :
    d'.Admits stopCount p where
  name_new := h.findPattern?_eq p.id ▸ hadmits.name_new
  two_le_length := hadmits.two_le_length
  stop_lt := hadmits.stop_lt
  noBoarding_lt := hadmits.noBoarding_lt
  noAlighting_lt := hadmits.noAlighting_lt
  check := hadmits.check
  names_nodup := hadmits.names_nodup
  names_new := fun t ht => h.findTrip?_eq_none_iff.mp (hadmits.names_new t ht)

/-- Drafts stay alike when the trips of a pattern that is added to both come in
different orders. -/
theorem Alike.add (h : d.Alike d') (hperm : ts.Perm p.trips) :
    (d.add p).Alike (d'.add { p with trips := ts }) where
  trips := by
    have hentries : (p.trips.map fun t => (t.id, d.patterns.size)).Perm
        (ts.map fun t => (t.id, d'.patterns.size)) := by
      rw [h.patterns_size]
      exact hperm.symm.map _
    simpa [Draft.add, enter] using h.trips.append hentries
  patterns := by
    show (d.patterns.push _).toList.map _ = (d'.patterns.push _).toList.map _
    rw [Array.toList_push, Array.toList_push, List.map_append, List.map_append, h.patterns]
    rfl

theorem Alike.addPattern (h : d.Alike d') (hadd : d.addPattern stopCount p = .ok e) :
    ∃ e', d'.addPattern stopCount p = .ok e' ∧ e.Alike e' := by
  obtain ⟨hadmits, horder, rfl⟩ := addPattern_eq_ok_iff.mp hadd
  rw [h.lineUp_eq] at horder
  exact ⟨d'.add p, addPattern_eq_ok_iff.mpr ⟨h.admits hadmits, horder, rfl⟩,
    h.add (List.Perm.refl p.trips)⟩

/-- Whatever patterns can be added to one draft can be added to the other. -/
theorem Alike.foldlM {ps : List PatternFeed} (h : d.Alike d')
    (hadd : ps.foldlM (Draft.addPattern stopCount) d = .ok e) :
    ∃ e', ps.foldlM (Draft.addPattern stopCount) d' = .ok e' ∧ e.Alike e' := by
  induction ps generalizing d d' with
  | nil =>
      obtain rfl := pure_eq_ok.mp hadd
      exact ⟨d', rfl, h⟩
  | cons p ps ih =>
      rw [List.foldlM_cons, bind_eq_ok] at hadd
      obtain ⟨mid, hmid, hrest⟩ := hadd
      obtain ⟨mid', hmid', halike⟩ := h.addPattern hmid
      obtain ⟨e', he', halike'⟩ := ih halike hrest
      exact ⟨e', by rw [List.foldlM_cons, bind_eq_ok]; exact ⟨mid', hmid', he'⟩, halike'⟩

/-! ## §5. Rules for either draft. -/

/-- The pattern of the trip with a given name. -/
def homeOf? (d : Draft) (name : String) : Option Nat :=
  (d.findTrip? name).map fun trip => (d.trips.getD trip default).2

/-- The pattern to which a rule leads. -/
def targetOf? (d : Draft) (r : RuleFeed) : Option Nat :=
  match r.onwardTrip, r.onwardPattern with
  | some name, _ => d.homeOf? name
  | none, some name => d.findPattern? name
  | none, none => none

theorem homeOf?_eq_some_iff (hnames : (d.trips.toList.map (·.1)).Nodup) {name : String}
    {number : Nat} : d.homeOf? name = some number ↔ (name, number) ∈ d.trips.toList := by
  unfold homeOf? findTrip?
  rw [Option.map_eq_some_iff]
  constructor
  · intro h
    obtain ⟨id, hid, hnumber⟩ := h
    obtain ⟨hlt, hname, -⟩ := Array.findIdx?_eq_some_iff_getElem.mp hid
    have hget : d.trips.getD id default = d.trips[id] := by simp [hlt]
    rw [hget] at hnumber
    have hentry : d.trips[id] = (name, number) := Prod.ext (by simpa using hname) hnumber
    rw [← hentry]
    exact Array.mem_toList_iff.mpr (Array.getElem_mem hlt)
  · intro h
    obtain ⟨id, hid, hentry⟩ := List.getElem_of_mem h
    have hlt : id < d.trips.size := by simpa using hid
    have hentry' : d.trips[id] = (name, number) := by simpa using hentry
    refine ⟨id, Array.findIdx?_eq_some_iff_getElem.mpr ⟨hlt, by simp [hentry'], ?_⟩, ?_⟩
    · -- An earlier trip of the same name would be a second one.
      intro j hj hname
      have hj' : j < d.trips.size := Nat.lt_trans hj hlt
      have hjlen : j < (d.trips.toList.map (·.1)).length := by simpa using hj'
      have hlen : id < (d.trips.toList.map (·.1)).length := by simpa using hlt
      have hsame : (d.trips.toList.map (·.1))[j] = (d.trips.toList.map (·.1))[id] := by
        simpa [hentry'] using hname
      exact absurd ((List.Nodup.getElem_inj_iff hnames).mp hsame) (Nat.ne_of_lt hj)
    · simp [hlt, hentry']

theorem Alike.homeOf?_eq (h : d.Alike d') (hnames : (d.trips.toList.map (·.1)).Nodup)
    (name : String) : d.homeOf? name = d'.homeOf? name := by
  have hnames' : (d'.trips.toList.map (·.1)).Nodup :=
    (h.trips.map (·.1)).nodup_iff.mp hnames
  refine Option.ext fun number => ?_
  rw [homeOf?_eq_some_iff hnames, homeOf?_eq_some_iff hnames', h.trips.mem_iff]

theorem Alike.targetOf?_eq (h : d.Alike d') (hnames : (d.trips.toList.map (·.1)).Nodup)
    (r : RuleFeed) : d.targetOf? r = d'.targetOf? r := by
  unfold targetOf?
  split
  · exact h.homeOf?_eq hnames _
  · exact h.findPattern?_eq _
  · rfl

/-- The onward end of a rule can be found if its pattern can. -/
theorem exists_resolveOnward_iff {r : RuleFeed} {number : Nat} :
    (∃ e, d.resolveOnward r = .ok e ∧ e.pattern = number ∧ e.position = r.onwardPosition) ↔
      d.targetOf? r = some number := by
  unfold resolveOnward targetOf? homeOf?
  split
  · split <;> simp_all
  · split <;> simp_all
  · simp_all

/-- A rule can be resolved if both its ends are found, on patterns long enough. -/
theorem exists_resolveRule_iff {r : RuleFeed} :
    (∃ rule, d.resolveRule r = .ok rule) ↔
      (∃ number, d.homeOf? r.feederTrip = some number ∧
        r.feederPosition < d.patternLength number) ∧
      ∃ number, d.targetOf? r = some number ∧ r.onwardPosition < d.patternLength number := by
  unfold resolveRule
  cases htrip : d.findTrip? r.feederTrip with
  | none =>
      have hhome : d.homeOf? r.feederTrip = none := by simp [homeOf?, htrip]
      simp [hhome, throw, throwThe, MonadExceptOf.throw]
  | some trip =>
      have hhome : d.homeOf? r.feederTrip = some (d.trips.getD trip default).2 := by
        simp [homeOf?, htrip]
      simp only [guard_eq_ok, bind_eq_ok, pure_eq_ok, hhome, Option.some.injEq, exists_eq_left',
        Nat.not_le, ← exists_resolveOnward_iff]
      constructor
      · intro h
        obtain ⟨rule, hfeeder, onward, honward, hposition, -⟩ := h
        refine ⟨hfeeder, onward.pattern, ⟨onward, honward, rfl, ?_⟩, ?_⟩
        · exact position_of_resolveOnward honward
        · rw [← position_of_resolveOnward honward]
          exact hposition
      · intro h
        obtain ⟨hfeeder, number, ⟨onward, honward, rfl, hposition⟩, hlt⟩ := h
        exact ⟨_, hfeeder, onward, honward, hposition ▸ hlt, rfl⟩

theorem Alike.exists_resolveRule (h : d.Alike d') (hnames : (d.trips.toList.map (·.1)).Nodup)
    {r : RuleFeed} (hrule : ∃ rule, d.resolveRule r = .ok rule) :
    ∃ rule, d'.resolveRule r = .ok rule := by
  rw [exists_resolveRule_iff, h.homeOf?_eq hnames, h.targetOf?_eq hnames] at hrule
  simp only [h.patternLength_eq] at hrule
  exact exists_resolveRule_iff.mpr hrule

end Draft

/-! ## §6. Who is blamed for overtaking. -/

/-- The error says that trips of the pattern overtake each other. -/
def FeedError.BlamesOrder (pattern : String) : FeedError → Prop
  | .overtaking blamed _ _ _ => blamed = pattern
  | _ => False

theorem not_blamesOrder_of_refuseFirst {α : Type} {xs : List α} {bad : α → Bool}
    {error : α → FeedError} {pattern : String} {e : FeedError}
    (h : refuseFirst xs bad error = .error e) (herror : ∀ x, ¬ (error x).BlamesOrder pattern) :
    ¬ e.BlamesOrder pattern := by
  unfold refuseFirst at h
  split at h
  · next x _ =>
      obtain rfl := Except.error.inj h
      exact herror x
  · cases h

namespace TripFeed

theorem not_blamesOrder_of_checkCalls {trip pattern : String} {calls : List Call}
    {e : FeedError} : ∀ {position : Nat}, checkCalls trip position calls = .error e →
      ¬ e.BlamesOrder pattern := by
  induction calls with
  | nil => intro position h; cases h
  | cons c rest ih =>
      intro position h
      unfold checkCalls at h
      rw [guard_eq_error] at h
      rcases h with ⟨-, rfl⟩ | ⟨-, h⟩
      · exact not_false
      · cases rest with
        | nil => exact ih h
        | cons next rest =>
            simp only at h
            rw [guard_eq_error] at h
            rcases h with ⟨-, rfl⟩ | ⟨-, h⟩
            · exact not_false
            · exact ih h

theorem not_blamesOrder_of_check {t : TripFeed} {length : Nat} {pattern : String} {e : FeedError}
    (h : t.check length = .error e) : ¬ e.BlamesOrder pattern := by
  unfold check at h
  simp only [guard_eq_error] at h
  rcases h with ⟨-, rfl⟩ | ⟨-, ⟨-, rfl⟩ | ⟨-, ⟨-, rfl⟩ | ⟨-, ⟨-, rfl⟩ | ⟨-, h⟩⟩⟩⟩
  · exact not_false
  · exact not_false
  · exact not_false
  · exact not_false
  · exact not_blamesOrder_of_checkCalls h

end TripFeed

namespace Draft

variable {d e : Draft} {stopCount : Nat} {p : PatternFeed} {error : FeedError} {pattern : String}

theorem not_blamesOrder_of_addTrips {length : Nat} {ts : List TripFeed} {done : List Trip}
    (h : d.addTrips length ts done = .error error) : ¬ error.BlamesOrder pattern := by
  induction ts generalizing d done with
  | nil => cases h
  | cons t rest ih =>
      unfold Draft.addTrips at h
      rw [bind_eq_error] at h
      rcases h with hcheck | ⟨-, -, h⟩
      · exact TripFeed.not_blamesOrder_of_check hcheck
      · rw [guard_eq_error] at h
        rcases h with ⟨-, rfl⟩ | ⟨-, h⟩
        · exact not_false
        · exact ih h

theorem eq_of_checkOrder {name : Nat → String} {own : String} {length : Nat} {ts : List Trip}
    (h : checkOrder own name length ts = .error error) (hblames : error.BlamesOrder pattern) :
    own = pattern := by
  induction ts with
  | nil => cases h
  | cons a rest ih =>
      cases rest with
      | nil => cases h
      | cons b rest =>
          unfold checkOrder at h
          split at h
          · obtain rfl := Except.error.inj h
            exact hblames
          · exact ih h

/-- Only a pattern with a new name is blamed, and by that name. -/
theorem findPattern?_of_addPattern_error (h : d.addPattern stopCount p = .error error)
    (hblames : error.BlamesOrder pattern) : d.findPattern? pattern = none := by
  unfold Draft.addPattern at h
  simp only [guard_eq_error, bind_eq_error] at h
  rcases h with ⟨-, rfl⟩ | ⟨hname, ⟨-, rfl⟩ | ⟨-, h | ⟨-, -, h | ⟨-, -, h | ⟨-, -, h | h⟩⟩⟩⟩⟩
  · exact hblames.elim
  · exact hblames.elim
  · exact absurd hblames (not_blamesOrder_of_refuseFirst h fun _ => not_false)
  · exact absurd hblames (not_blamesOrder_of_refuseFirst h fun _ => not_false)
  · exact absurd hblames (not_blamesOrder_of_refuseFirst h fun _ => not_false)
  · exact absurd hblames (not_blamesOrder_of_addTrips h)
  · obtain ⟨added, -, horder | ⟨-, -, hpure⟩⟩ := h
    · obtain rfl := eq_of_checkOrder horder hblames
      simpa using hname
    · cases hpure

/-- A pattern that has been added is not blamed any more. -/
theorem findPattern?_of_foldlM_error {ps : List PatternFeed}
    (h : ps.foldlM (Draft.addPattern stopCount) d = .error error)
    (hblames : error.BlamesOrder pattern) : d.findPattern? pattern = none := by
  induction ps generalizing d with
  | nil => cases h
  | cons p ps ih =>
      rw [List.foldlM_cons, bind_eq_error] at h
      rcases h with hfirst | ⟨mid, hmid, hrest⟩
      · exact findPattern?_of_addPattern_error hfirst hblames
      · obtain ⟨-, -, rfl⟩ := addPattern_eq_ok_iff.mp hmid
        have hlater := ih hrest
        rw [findPattern?_eq_none_iff] at hlater ⊢
        exact fun q hq => hlater q (Array.mem_push.mpr (Or.inl hq))

theorem not_blamesOrder_of_resolveRule {r : RuleFeed} (h : d.resolveRule r = .error error) :
    ¬ error.BlamesOrder pattern := by
  unfold resolveRule at h
  split at h
  · simp only [guard_eq_error, bind_eq_error] at h
    rcases h with ⟨-, rfl⟩ | ⟨-, honward | ⟨onward, -, ⟨-, rfl⟩ | ⟨-, hpure⟩⟩⟩
    · exact not_false
    · unfold resolveOnward at honward
      split at honward
      · split at honward
        · cases honward
        · obtain rfl := Except.error.inj honward
          exact not_false
      · split at honward
        · cases honward
        · obtain rfl := Except.error.inj honward
          exact not_false
      · obtain rfl := Except.error.inj honward
        exact not_false
    · exact not_false
    · cases hpure
  · obtain rfl := Except.error.inj h
    exact not_false

end Draft

/-! ## §7. Whole feeds. -/

namespace Feed

variable {f : Feed} {before after : List PatternFeed} {p : PatternFeed} {ts : List TripFeed}
  {d : Draft}

/-- A feed is compiled if its patterns can be added one after the other, and its
footpaths and rules lead somewhere. -/
theorem exists_compile_iff :
    (∃ t, f.compile = .ok t) ↔ f.checkFootpaths = .ok () ∧
      ∃ d, f.patterns.foldlM (Draft.addPattern f.stops.length) Draft.empty = .ok d ∧
        ∀ r ∈ f.rules, ∃ rule, d.resolveRule r = .ok rule := by
  unfold Feed.compile
  simp only [bind_eq_ok, pure_eq_ok, ← exists_mapM_eq_ok_iff]
  constructor
  · intro h
    obtain ⟨t, d, hd, ⟨⟩, hfootpaths, rules, hrules, -⟩ := h
    exact ⟨hfootpaths, d, hd, rules, hrules⟩
  · intro h
    obtain ⟨hfootpaths, d, hd, rules, hrules⟩ := h
    exact ⟨_, d, hd, (), hfootpaths, rules, hrules, rfl⟩

/-- A feed that is accepted is accepted with the trips of one pattern in another
order. -/
theorem exists_compile_reordered (hf : f.patterns = before ++ p :: after)
    (hperm : ts.Perm p.trips) (hties : p.TiesAgree) (h : ∃ t, f.compile = .ok t) :
    ∃ t, { f with patterns := before ++ { p with trips := ts } :: after }.compile = .ok t := by
  rw [exists_compile_iff] at h ⊢
  obtain ⟨hfootpaths, d, hd, hrules⟩ := h
  have hnames := (Draft.transcribes_of_foldlM hd).tripNames_nodup
  rw [hf, List.foldlM_append, bind_eq_ok] at hd
  obtain ⟨d₀, hd₀, hd⟩ := hd
  rw [List.foldlM_cons, bind_eq_ok] at hd
  obtain ⟨d₁, hd₁, hd⟩ := hd
  obtain ⟨hadmits, horder, rfl⟩ := Draft.addPattern_eq_ok_iff.mp hd₁
  -- The reordered pattern passes as well, and the drafts stay alike from there on.
  have hadmits' : d₀.Admits f.stops.length { p with trips := ts } :=
    { hadmits with
      check := fun t ht => hadmits.check t (hperm.mem_iff.mp ht)
      names_nodup := (hperm.map _).nodup_iff.mpr hadmits.names_nodup
      names_new := fun t ht => hadmits.names_new t (hperm.mem_iff.mp ht) }
  have hrunning := (hadmits.lineUp_pairwise_iff.mp horder).1.reordered hperm
  have horder' := hadmits'.lineUp_pairwise_iff.mpr
    ⟨hrunning, (hties.reordered hperm).tiesInOrder hrunning⟩
  obtain ⟨d', hd', halike⟩ := ((Draft.Alike.refl d₀).add hperm).foldlM hd
  refine ⟨hfootpaths, d', ?_, fun r hr => halike.exists_resolveRule hnames (hrules r hr)⟩
  show (before ++ { p with trips := ts } :: after).foldlM (Draft.addPattern f.stops.length)
    Draft.empty = .ok d'
  rw [List.foldlM_append, bind_eq_ok]
  refine ⟨d₀, hd₀, ?_⟩
  rw [List.foldlM_cons, bind_eq_ok]
  exact ⟨_, Draft.addPattern_eq_ok_iff.mpr ⟨hadmits', horder', rfl⟩, hd'⟩

/-- A fault in a pattern is found if those before it are in order. -/
theorem compile_eq_error (hf : f.patterns = before ++ p :: after)
    (hbefore : before.foldlM (Draft.addPattern f.stops.length) Draft.empty = .ok d) {e : FeedError}
    (h : d.addPattern f.stops.length p = .error e) : f.compile = .error e := by
  unfold Feed.compile
  rw [bind_eq_error, hf, List.foldlM_append, hbefore]
  refine Or.inl ?_
  show (p :: after).foldlM (Draft.addPattern f.stops.length) d = _
  rw [List.foldlM_cons, h]
  rfl

/-- Overtaking is reported of a pattern exactly when its trips have no running
order, once nothing else is wrong with it or before it. -/
theorem blamesOrder_iff (hf : f.patterns = before ++ p :: after)
    (hbefore : before.foldlM (Draft.addPattern f.stops.length) Draft.empty = .ok d)
    (hadmits : d.Admits f.stops.length p) (hties : p.TiesAgree) :
    (∃ e, f.compile = .error e ∧ e.BlamesOrder p.id) ↔ ¬ p.HasRunningOrder := by
  have hfold : f.patterns.foldlM (Draft.addPattern f.stops.length) Draft.empty =
      d.addPattern f.stops.length p >>= fun d =>
        after.foldlM (Draft.addPattern f.stops.length) d := by
    rw [hf, List.foldlM_append, hbefore]
    show (p :: after).foldlM (Draft.addPattern f.stops.length) d = _
    rw [List.foldlM_cons]
  constructor
  · intro h hrunning
    obtain ⟨e, he, hblames⟩ := h
    have hadd := Draft.addPattern_eq_ok_iff.mpr
      ⟨hadmits, hadmits.lineUp_pairwise_iff.mpr ⟨hrunning, hties.tiesInOrder hrunning⟩, rfl⟩
    unfold Feed.compile at he
    rw [bind_eq_error, hfold, hadd] at he
    rcases he with hlater | ⟨d', -, he⟩
    · -- Its name is taken by now.
      have hfree := Draft.findPattern?_of_foldlM_error hlater hblames
      rw [Draft.findPattern?_eq_none_iff] at hfree
      exact hfree _ (Array.mem_push.mpr (Or.inr rfl)) rfl
    · rw [bind_eq_error] at he
      rcases he with hfootpaths | ⟨-, -, he⟩
      · exact not_blamesOrder_of_refuseFirst hfootpaths (fun _ => not_false) hblames
      · rw [bind_eq_error] at he
        rcases he with hrules | ⟨rules, -, hpure⟩
        · obtain ⟨r, -, hr⟩ := exists_of_mapM_eq_error hrules
          exact Draft.not_blamesOrder_of_resolveRule hr hblames
        · cases hpure
  · intro hnone
    obtain ⟨first, second, position, hadd⟩ := hadmits.exists_overtaking fun horder =>
      hnone (hadmits.lineUp_pairwise_iff.mp horder).1
    exact ⟨.overtaking p.id first second position, compile_eq_error hf hbefore hadd, rfl⟩

/-- Where trips that start together and end together do not differ in rank, it
does not matter in which order the trips of a pattern are listed: the feed is
accepted with both orders or with none, and overtaking is reported of the
pattern exactly when its trips have no running order. -/
theorem compile_reordered (hf : f.patterns = before ++ p :: after) (hperm : ts.Perm p.trips)
    (hties : p.TiesAgree) :
    ((∃ t, f.compile = .ok t) ↔
      ∃ t, { f with patterns := before ++ { p with trips := ts } :: after }.compile = .ok t) ∧
    ∀ d, before.foldlM (Draft.addPattern f.stops.length) Draft.empty = .ok d →
      d.Admits f.stops.length p →
      ((∃ e, f.compile = .error e ∧ e.BlamesOrder p.id) ↔ ¬ p.HasRunningOrder) := by
  refine ⟨⟨exists_compile_reordered hf hperm hties, fun h => ?_⟩,
    fun d hbefore hadmits => blamesOrder_iff hf hbefore hadmits hties⟩
  -- Reordering the trips back gives the feed as it was.
  have hback := exists_compile_reordered rfl hperm.symm (hties.reordered hperm) h
  have hsame : { { f with patterns := before ++ { p with trips := ts } :: after } with
      patterns := before ++ { { p with trips := ts } with trips := p.trips } :: after } = f := by
    rw [← hf]
  rw [← hsame]
  exact hback

end Feed

/-! ## §8. Tied trips in the wrong order. -/

/-- A trip that takes its time to the second of three stops. -/
def TripFeed.slow : TripFeed :=
  ⟨"slow", [0, 200, 500].map Time.saturate, [0, 200, 500].map Time.saturate, 0, 1.0⟩

/-- A trip that hurries there, and waits. -/
def TripFeed.fast : TripFeed :=
  ⟨"fast", [0, 100, 500].map Time.saturate, [0, 100, 500].map Time.saturate, 0, 1.0⟩

/-- A trip that comes last. -/
def TripFeed.late : TripFeed :=
  ⟨"late", [0, 200, 600].map Time.saturate, [0, 200, 600].map Time.saturate, 0, 1.0⟩

/-- A line with some trips. -/
def PatternFeed.line (trips : List TripFeed) : PatternFeed :=
  { id := "P", stops := [0, 1, 2], noBoarding := [], noAlighting := [], minTransferTime := none,
    trips }

/-- A feed with one line. -/
def Feed.line (trips : List TripFeed) : Feed :=
  { stops := ["A", "B", "C"], patterns := [.line trips], footpaths := [], rules := [] }

namespace Feed

theorem exists_compile_line {trips : List TripFeed}
    (hadmits : Draft.empty.Admits 3 (.line trips)) (horder : (PatternFeed.line trips).HasRunningOrder)
    (hties : (PatternFeed.line trips).TiesInOrder) : ∃ t, (line trips).compile = .ok t := by
  rw [exists_compile_iff]
  refine ⟨rfl, Draft.empty.add (.line trips), ?_, fun r hr => absurd hr List.not_mem_nil⟩
  show [PatternFeed.line trips].foldlM (Draft.addPattern 3) Draft.empty = _
  rw [List.foldlM_cons, bind_eq_ok]
  exact ⟨_, Draft.addPattern_eq_ok_iff.mpr
    ⟨hadmits, hadmits.lineUp_pairwise_iff.mpr ⟨horder, hties⟩, rfl⟩, rfl⟩

/-- Two trips that start together and end together, of which one is ahead in
between, are accepted in that order, and refused for overtaking in the other,
although none of them overtakes the other. -/
theorem compile_line_slow_fast :
    (∀ t ∈ [TripFeed.slow, TripFeed.fast], t.check 3 = .ok ()) ∧
      [TripFeed.fast, TripFeed.slow].Perm [TripFeed.slow, TripFeed.fast] ∧
      (PatternFeed.line [.slow, .fast]).HasRunningOrder ∧
      (∃ t, (line [.fast, .slow]).compile = .ok t) ∧
      ∃ e, (line [.slow, .fast]).compile = .error e ∧ e.BlamesOrder "P" := by
  have hadmits : Draft.empty.Admits 3 (.line [.slow, .fast]) := by decide +kernel
  have hadmits' : Draft.empty.Admits 3 (.line [.fast, .slow]) := by decide +kernel
  have hahead : [TripFeed.fast, TripFeed.slow].Pairwise (TripFeed.KeepsAhead 3) := by
    decide +kernel
  have hties : (PatternFeed.line [.fast, .slow]).TiesInOrder := by decide +kernel
  have hties' : ¬ (PatternFeed.line [.slow, .fast]).TiesInOrder := by decide +kernel
  have hperm : [TripFeed.fast, TripFeed.slow].Perm [TripFeed.slow, TripFeed.fast] :=
    List.Perm.swap _ _ _
  obtain ⟨first, second, position, hadd⟩ := hadmits.exists_overtaking fun horder =>
    hties' (hadmits.lineUp_pairwise_iff.mp horder).2
  have hpatterns : (line [.slow, .fast]).patterns = [] ++ .line [.slow, .fast] :: [] := rfl
  exact ⟨hadmits.check, hperm, ⟨_, hperm, hahead⟩,
    exists_compile_line hadmits' ⟨_, List.Perm.refl _, hahead⟩ hties,
    _, compile_eq_error hpatterns rfl hadd, rfl⟩

/-- The late trip may be listed before or after the others. -/
theorem compile_reordered_line :
    (PatternFeed.line [.fast, .late]).TiesAgree ∧
      ((∃ t, (line [.fast, .late]).compile = .ok t) ↔
        ∃ t, (line [.late, .fast]).compile = .ok t) ∧
      ((∃ e, (line [.fast, .late]).compile = .error e ∧ e.BlamesOrder "P") ↔
        ¬ (PatternFeed.line [.fast, .late]).HasRunningOrder) := by
  have hpatterns : (line [.fast, .late]).patterns = [] ++ .line [.fast, .late] :: [] := rfl
  have hties : (PatternFeed.line [.fast, .late]).TiesAgree := by decide +kernel
  have hadmits : Draft.empty.Admits 3 (.line [.fast, .late]) := by decide +kernel
  obtain ⟨haccepted, hblamed⟩ :=
    compile_reordered hpatterns (List.Perm.swap TripFeed.fast TripFeed.late []) hties
  exact ⟨hties, haccepted, hblamed Draft.empty rfl hadmits⟩

end Feed

end TransitRouting
