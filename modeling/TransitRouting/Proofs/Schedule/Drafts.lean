/-
  TransitRouting.Proofs.Schedule.Drafts
  ─────────────────────────────────────
  Which patterns a draft takes in, and what it holds then.

  A pattern passes if nothing is wrong with it by itself, if its name and those
  of its trips are new, and if its trips, put in order, do not overtake each
  other.  The draft then has one more pattern, and one more entry for each of
  its trips.

  Main statements:

    • `checkOrder_eq_ok_iff` — the check of neighbours is one of all pairs;
    • `Draft.addTrips_eq_ok_iff` — which trips can be numbered, and how;
    • `Draft.addPattern_eq_ok_iff` — which patterns can be added, and the draft
      that results.
-/
import TransitRouting.Proofs.Schedule.Compilation

namespace TransitRouting

open Checks

/-! ## §1. The order of trips. -/

instance (length : Nat) (a b : Trip) : Decidable (a.KeepsAhead length b) :=
  inferInstanceAs (Decidable (∀ q < length, _))

theorem Trip.overtakenAt?_eq_none_iff {length : Nat} {a b : Trip} :
    a.overtakenAt? length b = none ↔ a.KeepsAhead length b := by
  unfold Trip.overtakenAt? Trip.KeepsAhead
  simp only [List.find?_eq_none, List.mem_range, Bool.or_eq_true, decide_eq_true_eq, not_or,
    Time.not_lt]
  exact ⟨fun h q hq => (h q hq).symm, fun h q hq => (h q hq).symm⟩

namespace Trip

variable {last : Nat}

theorem startsBefore_iff {a b : Trip} :
    startsBefore last a b = true ↔ a.departureAt 0 < b.departureAt 0 ∨
      a.departureAt 0 = b.departureAt 0 ∧ a.arrivalAt last ≤ b.arrivalAt last := by
  simp [startsBefore]

theorem startsBefore_trans (last : Nat) (a b c : Trip) (h : startsBefore last a b = true)
    (h' : startsBefore last b c = true) : startsBefore last a c = true := by
  rw [startsBefore_iff, Time.lt_def, Time.ext_iff, Time.le_def] at *
  omega

theorem startsBefore_total (last : Nat) (a b : Trip) :
    (startsBefore last a b || startsBefore last b a) = true := by
  rw [Bool.or_eq_true, startsBefore_iff, startsBefore_iff, Time.lt_def, Time.lt_def, Time.ext_iff,
    Time.ext_iff, Time.le_def, Time.le_def]
  omega

/-- Trips that can be put into one order only are sorted into that order. -/
theorem mergeSort_eq_of_strict {ts order : List Trip} (hperm : order.Perm ts)
    (hstrict : order.Pairwise fun a b => startsBefore last b a = false) :
    ts.mergeSort (startsBefore last) = order := by
  have hsorted : order.Pairwise fun a b => startsBefore last a b = true := by
    refine hstrict.imp fun {a b} hlater => ?_
    simpa [hlater] using startsBefore_total last a b
  have hperm' := (List.mergeSort_perm ts (startsBefore last)).trans hperm.symm
  refine List.Perm.eq_of_pairwise (fun a b ha hb hab hba => ?_)
    (List.pairwise_mergeSort (startsBefore_trans last) (startsBefore_total last) ts) hsorted hperm'
  -- Of two different trips one starts strictly before the other.
  have hsame : ∀ a ∈ order, ∀ b ∈ order, startsBefore last a b = true →
      startsBefore last b a = true → a = b := by
    intro a ha b hb
    refine List.Pairwise.forall_of_forall_of_flip
      (R := fun a b => startsBefore last a b = true → startsBefore last b a = true → a = b)
      (fun _ _ _ _ => rfl) (hstrict.imp ?_) (hstrict.imp ?_) ha hb
    · intro a b hlater _ hba
      rw [hlater] at hba
      cases hba
    · intro a b hlater hba
      rw [hlater] at hba
      cases hba
  exact hsame a (hperm'.mem_iff.mp ha) b hb hab hba

end Trip

/-- It is enough to compare each trip with the next one. -/
theorem checkOrder_eq_ok_iff {pattern : String} {name : Nat → String} {length : Nat}
    {ts : List Trip} :
    checkOrder pattern name length ts = .ok () ↔ ts.Pairwise (Trip.KeepsAhead length) := by
  constructor
  · intro h
    exact Draft.pairwise_of_checkOrder ts h
  · intro h
    induction ts with
    | nil => rfl
    | cons a rest ih =>
        obtain ⟨hahead, hrest⟩ := List.pairwise_cons.mp h
        cases rest with
        | nil => rfl
        | cons b rest =>
            have hnone := Trip.overtakenAt?_eq_none_iff.mpr (hahead b List.mem_cons_self)
            unfold checkOrder
            simp only [hnone]
            exact ih hrest

/-- The check has only one complaint, and makes it about its own pattern. -/
theorem exists_overtaking_of_not_pairwise (pattern : String) (name : Nat → String)
    {length : Nat} {ts : List Trip} (h : ¬ ts.Pairwise (Trip.KeepsAhead length)) :
    ∃ first second position,
      checkOrder pattern name length ts = .error (.overtaking pattern first second position) := by
  have hfails : checkOrder pattern name length ts ≠ .ok () := mt checkOrder_eq_ok_iff.mp h
  clear h
  induction ts with
  | nil => exact absurd rfl hfails
  | cons a rest ih =>
      cases rest with
      | nil => exact absurd rfl hfails
      | cons b rest =>
          unfold checkOrder at hfails ⊢
          cases hposition : a.overtakenAt? length b with
          | some position => exact ⟨name a.id, name b.id, position, rfl⟩
          | none =>
              simp only [hposition] at hfails ⊢
              exact ih hfails

/-! ## §2. Numbering trips. -/

/-- The trip under a number. -/
def TripFeed.toTrip (t : TripFeed) (id : Nat) : Trip := ⟨id, t.calls, t.group, t.reluctance⟩

namespace Draft

variable {d d' : Draft} {length stopCount : Nat} {p : PatternFeed}

/-- Trips under the numbers from `first` on. -/
def numbered (first : Nat) (ts : List TripFeed) : List Trip :=
  (ts.zipIdx first).map fun (t, id) => t.toTrip id

/-- The draft with the names of more trips of the next pattern. -/
def enter (d : Draft) (ts : List TripFeed) : Draft :=
  { d with trips := d.trips ++ (ts.map fun t => (t.id, d.patterns.size)).toArray }

theorem findTrip?_eq_none_iff {name : String} :
    d.findTrip? name = none ↔ ∀ e ∈ d.trips, e.1 ≠ name := by
  unfold findTrip?
  simp [Array.findIdx?_eq_none_iff]

theorem findPattern?_eq_none_iff {name : String} :
    d.findPattern? name = none ↔ ∀ p ∈ d.patterns, p.name ≠ name := by
  unfold findPattern?
  simp [Array.findIdx?_eq_none_iff]

/-- Trips can be numbered if each of them fits the pattern and no name comes
twice.  They get the next free numbers, in the order in which they come. -/
theorem addTrips_eq_ok_iff {ts : List TripFeed} {done out : List Trip} :
    d.addTrips length ts done = .ok (d', out) ↔
      (∀ t ∈ ts, t.check length = .ok ()) ∧ (ts.map (·.id)).Nodup ∧
        (∀ t ∈ ts, d.findTrip? t.id = none) ∧ d' = d.enter ts ∧
        out = done ++ numbered d.trips.size ts := by
  induction ts generalizing d done with
  | nil =>
      simp only [Draft.addTrips, enter, numbered, Except.ok.injEq, Prod.mk.injEq]
      simp [eq_comm]
  | cons t rest ih =>
      have hnew : ∀ name, ({ d with trips := d.trips.push (t.id, d.patterns.size) } :
          Draft).findTrip? name = none ↔ d.findTrip? name = none ∧ t.id ≠ name := by
        intro name
        simp only [findTrip?_eq_none_iff, Array.mem_push]
        constructor
        · intro h
          exact ⟨fun e he => h e (Or.inl he), h _ (Or.inr rfl)⟩
        · intro h e he
          rcases he with he | rfl
          · exact h.1 e he
          · exact h.2
      have henter : ({ d with trips := d.trips.push (t.id, d.patterns.size) } : Draft).enter rest =
          d.enter (t :: rest) := by
        simp [enter]
      have hnumbered : done ++ [t.toTrip d.trips.size] ++ numbered (d.trips.size + 1) rest =
          done ++ numbered d.trips.size (t :: rest) := by
        simp [numbered, List.zipIdx_cons]
      unfold Draft.addTrips
      rw [check_eq_ok, guard_eq_ok, ih, henter]
      rw [← hnumbered]
      simp only [hnew, Array.size_push, List.forall_mem_cons, List.map_cons, List.nodup_cons,
        List.mem_map, not_exists, not_and, Bool.not_eq_true, Option.isSome_eq_false_iff,
        Option.isNone_iff_eq_none]
      constructor
      · intro h
        obtain ⟨hcheck, hfree, hchecks, hnodup, hfrees, hd, hout⟩ := h
        exact ⟨⟨hcheck, hchecks⟩, ⟨fun u hu => ((hfrees u hu).2).symm, hnodup⟩,
          ⟨hfree, fun u hu => (hfrees u hu).1⟩, hd, hout⟩
      · intro h
        obtain ⟨⟨hcheck, hchecks⟩, ⟨hne, hnodup⟩, ⟨hfree, hfrees⟩, hd, hout⟩ := h
        exact ⟨hcheck, hfree, hchecks, hnodup, fun u hu => ⟨hfrees u hu, fun heq => hne u hu heq.symm⟩, hd,
          hout⟩

/-! ## §3. Adding a pattern. -/

/-- The trips of a pattern under their numbers, in order. -/
def lineUp (d : Draft) (p : PatternFeed) : List Trip :=
  (numbered d.trips.size p.trips).mergeSort (Trip.startsBefore (p.stops.length - 1))

/-- The draft with one more pattern. -/
def add (d : Draft) (p : PatternFeed) : Draft :=
  { d.enter p.trips with
    patterns := d.patterns.push ⟨p.id, haltsOf p, p.minTransferTime, d.lineUp p⟩ }

/-- If anything is wrong with the pattern, then it is the order of its
trips. -/
structure Admits (stopCount : Nat) (d : Draft) (p : PatternFeed) : Prop where
  name_new : d.findPattern? p.id = none
  two_le_length : 2 ≤ p.stops.length
  stop_lt : ∀ s ∈ p.stops, s < stopCount
  noBoarding_lt : ∀ q ∈ p.noBoarding, q < p.stops.length
  noAlighting_lt : ∀ q ∈ p.noAlighting, q < p.stops.length
  check : ∀ t ∈ p.trips, t.check p.stops.length = .ok ()
  names_nodup : (p.trips.map (·.id)).Nodup
  names_new : ∀ t ∈ p.trips, d.findTrip? t.id = none

instance (stopCount : Nat) (d : Draft) (p : PatternFeed) : Decidable (d.Admits stopCount p) :=
  decidable_of_iff (d.findPattern? p.id = none ∧ 2 ≤ p.stops.length ∧ (∀ s ∈ p.stops, s < stopCount) ∧
      (∀ q ∈ p.noBoarding, q < p.stops.length) ∧ (∀ q ∈ p.noAlighting, q < p.stops.length) ∧
      (∀ t ∈ p.trips, t.check p.stops.length = .ok ()) ∧ (p.trips.map (·.id)).Nodup ∧
      ∀ t ∈ p.trips, d.findTrip? t.id = none)
    ⟨fun h => ⟨h.1, h.2.1, h.2.2.1, h.2.2.2.1, h.2.2.2.2.1, h.2.2.2.2.2.1, h.2.2.2.2.2.2.1,
      h.2.2.2.2.2.2.2⟩,
    fun h => ⟨h.name_new, h.two_le_length, h.stop_lt, h.noBoarding_lt, h.noAlighting_lt, h.check,
      h.names_nodup, h.names_new⟩⟩

theorem refuseFirst_le_eq_ok_iff {xs : List Nat} {bound : Nat} {error : Nat → FeedError} :
    refuseFirst xs (bound ≤ ·) error = .ok () ↔ ∀ x ∈ xs, x < bound := by
  simp [refuseFirst_eq_ok_iff]

/-- A pattern can be added if only the order of its trips could be wrong, and
is not. -/
theorem addPattern_eq_ok_iff :
    d.addPattern stopCount p = .ok d' ↔
      d.Admits stopCount p ∧ (d.lineUp p).Pairwise (Trip.KeepsAhead p.stops.length) ∧
        d' = d.add p := by
  unfold Draft.addPattern
  simp only
  rw [guard_eq_ok, guard_eq_ok, check_eq_ok, check_eq_ok, check_eq_ok, bind_eq_ok,
    refuseFirst_le_eq_ok_iff, refuseFirst_le_eq_ok_iff, refuseFirst_le_eq_ok_iff]
  constructor
  · intro h
    obtain ⟨hname, hlength, hstops, hboarding, halighting, ⟨d₁, trips⟩, hadd, h⟩ := h
    obtain ⟨hcheck, hnodup, hnew, rfl, rfl⟩ := addTrips_eq_ok_iff.mp hadd
    simp only [List.nil_append] at h
    rw [check_eq_ok, checkOrder_eq_ok_iff, pure_eq_ok] at h
    obtain ⟨horder, rfl⟩ := h
    exact ⟨⟨by simpa using hname, Nat.le_of_not_lt hlength, hstops, hboarding, halighting, hcheck,
      hnodup, hnew⟩, horder, rfl⟩
  · intro h
    obtain ⟨hadmits, horder, rfl⟩ := h
    refine ⟨by simp [hadmits.name_new], Nat.not_lt.mpr hadmits.two_le_length, hadmits.stop_lt,
      hadmits.noBoarding_lt, hadmits.noAlighting_lt, (d.enter p.trips, numbered d.trips.size p.trips),
      ?_, ?_⟩
    · exact addTrips_eq_ok_iff.mpr ⟨hadmits.check, hadmits.names_nodup, hadmits.names_new, rfl, rfl⟩
    · simp only
      rw [check_eq_ok, checkOrder_eq_ok_iff, pure_eq_ok]
      exact ⟨horder, rfl⟩

/-- The draft with one more pattern, whose trips are those of a list. -/
def addOrdered (d : Draft) (p : PatternFeed) (order : List Trip) : Draft :=
  { d.enter p.trips with
    patterns := d.patterns.push ⟨p.id, haltsOf p, p.minTransferTime, order⟩ }

/-- A pattern is added with its trips as they are lined up, if they keep ahead so. -/
theorem Admits.addPattern_eq_of_lineUp (h : d.Admits stopCount p) {order : List Trip}
    (hlineUp : d.lineUp p = order) (hahead : order.Pairwise (Trip.KeepsAhead p.stops.length)) :
    d.addPattern stopCount p = .ok (d.addOrdered p order) := by
  refine addPattern_eq_ok_iff.mpr ⟨h, hlineUp.symm ▸ hahead, ?_⟩
  unfold add
  rw [hlineUp]
  rfl

/-- A pattern whose trips can be put into one order only is added with that order. -/
theorem Admits.addPattern_eq_addOrdered (h : d.Admits stopCount p) {order : List Trip}
    (hperm : order.Perm (numbered d.trips.size p.trips))
    (hstrict : order.Pairwise fun a b => Trip.startsBefore (p.stops.length - 1) b a = false)
    (hahead : order.Pairwise (Trip.KeepsAhead p.stops.length)) :
    d.addPattern stopCount p = .ok (d.addOrdered p order) :=
  h.addPattern_eq_of_lineUp (Trip.mergeSort_eq_of_strict hperm hstrict) hahead

/-- If the order of its trips is wrong with a pattern and nothing else, that is
reported. -/
theorem Admits.exists_overtaking (h : d.Admits stopCount p)
    (horder : ¬ (d.lineUp p).Pairwise (Trip.KeepsAhead p.stops.length)) :
    ∃ first second position,
      d.addPattern stopCount p = .error (.overtaking p.id first second position) := by
  obtain ⟨first, second, position, hcheck⟩ :=
    exists_overtaking_of_not_pairwise p.id (d.enter p.trips).tripName horder
  have hadd : d.addTrips p.stops.length p.trips [] =
      .ok (d.enter p.trips, numbered d.trips.size p.trips) :=
    addTrips_eq_ok_iff.mpr ⟨h.check, h.names_nodup, h.names_new, rfl, rfl⟩
  have hlength : ¬ p.stops.length < 2 := Nat.not_lt.mpr h.two_le_length
  refine ⟨first, second, position, ?_⟩
  unfold lineUp at hcheck
  unfold Draft.addPattern
  simp only [h.name_new, hlength, hadd, refuseFirst_le_eq_ok_iff.mpr h.stop_lt,
    refuseFirst_le_eq_ok_iff.mpr h.noBoarding_lt, refuseFirst_le_eq_ok_iff.mpr h.noAlighting_lt]
  show (checkOrder p.id _ _ _ >>= fun _ => _) = _
  rw [hcheck]
  rfl

end Draft

end TransitRouting
