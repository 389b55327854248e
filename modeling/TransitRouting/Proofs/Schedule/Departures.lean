/-
  TransitRouting.Proofs.Schedule.Departures
  ─────────────────────────────────────────
  Finding the first departure by halving.

  The trips of a pattern stand in the order in which they run: at every
  position an earlier trip of the list neither arrives nor departs after a
  later one.  So those that have left before a given time come first, halving
  finds the first of the others, and whoever boards that one gets everywhere
  at least as soon as with any later one.

  Main statements:

    • `partitionPoint_spec` — where halving ends, if the numbers that have a
      property come first;
    • `Pattern.firstDeparture?_eq_some` — a trip that can be caught is found,
      or an earlier one that can be caught as well;
    • `Pattern.firstDeparture?_eq_none_iff` — nothing is found exactly when
      every trip has left.
-/
import TransitRouting.Schedule

namespace TransitRouting

/-! ## §1. Halving. -/

/-- All numbers below the point where halving ends have the property, and
none from there on. -/
theorem partitionPoint_spec (holds : Nat → Bool) :
    ∀ (base size : Nat),
      (∀ i j, base ≤ i → i ≤ j → j < base + size → holds j = true → holds i = true) →
      base ≤ partitionPoint holds base size ∧
        partitionPoint holds base size ≤ base + size ∧
        (∀ i, base ≤ i → i < partitionPoint holds base size → holds i = true) ∧
        ∀ i, partitionPoint holds base size ≤ i → i < base + size → holds i = false := by
  intro base size hdown
  fun_induction partitionPoint holds base size with
  | case1 base size hsize half hmid ih =>
      have hhalf : half = size / 2 := rfl
      obtain ⟨hge, hle, hbelow, habove⟩ := ih fun i j hi hij hj =>
        hdown i j (by omega) hij (by omega)
      refine ⟨by omega, by omega, ?_, ?_⟩
      · intro i hi hlt
        -- Below the middle the property is inherited from it.
        by_cases him : base + half ≤ i
        · exact hbelow i him hlt
        · exact hdown i (base + half) hi (by omega) (by omega) hmid
      · intro i hi hlt
        exact habove i hi (by omega)
  | case2 base size hsize half hmid ih =>
      have hhalf : half = size / 2 := rfl
      obtain ⟨hge, hle, hbelow, habove⟩ := ih fun i j hi hij hj =>
        hdown i j hi hij (by omega)
      refine ⟨hge, by omega, hbelow, ?_⟩
      intro i hi hlt
      by_cases him : i < base + (size - half)
      · exact habove i hi him
      · -- Above the middle the property would be handed down to it.
        cases hhold : holds i with
        | false => rfl
        | true =>
            have := hdown (base + half) i (by omega) (by omega) hlt hhold
            exact absurd this hmid
  -- One number is left.
  | case3 base size hsize hone =>
      simp only [Bool.and_eq_true, decide_eq_true_eq] at hone
      refine ⟨by omega, by omega, ?_, ?_⟩
      · intro i hi hlt
        have : i = base := by omega
        exact this ▸ hone.2
      · intro i hi hlt
        omega
  | case4 base size hsize hone =>
      refine ⟨Nat.le_refl _, by omega, ?_, ?_⟩
      · intro i hi hlt
        omega
      · intro i hi hlt
        have hi' : i = base := by omega
        have hs : size = 1 := by omega
        simpa [hs, hi'] using hone

/-! ## §2. Trips in the order in which they run. -/

/-- At each of `length` positions the first trip neither arrives nor departs
after the second. -/
def Trip.KeepsAhead (length : Nat) (a b : Trip) : Prop :=
  ∀ q < length, a.arrivalAt q ≤ b.arrivalAt q ∧ a.departureAt q ≤ b.departureAt q

theorem Trip.KeepsAhead.refl (length : Nat) (a : Trip) : a.KeepsAhead length a :=
  fun _ _ => ⟨Time.le_refl _, Time.le_refl _⟩

theorem Trip.KeepsAhead.trans {length : Nat} {a b c : Trip} (h : a.KeepsAhead length b)
    (h' : b.KeepsAhead length c) : a.KeepsAhead length c :=
  fun q hq => ⟨Time.le_trans (h q hq).1 (h' q hq).1, Time.le_trans (h q hq).2 (h' q hq).2⟩

namespace Pattern

/-- No trip of the pattern is overtaken by a later one of the list. -/
def Ordered (p : Pattern) : Prop := p.trips.Pairwise (Trip.KeepsAhead p.length)

theorem Ordered.keepsAhead {p : Pattern} (h : p.Ordered) {i j : Nat} (hij : i ≤ j)
    (hj : j < p.trips.length) : (p.trip i).KeepsAhead p.length (p.trip j) := by
  have hi : i < p.trips.length := by omega
  have hti : p.trip i = p.trips[i] := by simp [trip, hi]
  have htj : p.trip j = p.trips[j] := by simp [trip, hj]
  rw [hti, htj]
  rcases Nat.lt_or_eq_of_le hij with hlt | rfl
  · exact (List.pairwise_iff_getElem.mp h) i j hi hj hlt
  · exact Trip.KeepsAhead.refl _ _

/-- Those that have left before a given time come first. -/
theorem Ordered.departed_of_le {p : Pattern} (h : p.Ordered) {position : Nat}
    (hpos : position < p.length) {earliest : Time} {i j : Nat} (hij : i ≤ j)
    (hj : j < p.trips.length) (hleft : (p.trip j).departureAt position < earliest) :
    (p.trip i).departureAt position < earliest := by
  have hle := (h.keepsAhead hij hj position hpos).2
  rw [Time.lt_def] at hleft ⊢
  rw [Time.le_def] at hle
  omega

/-- What halving finds among the trips of an ordered pattern. -/
theorem Ordered.partitionPoint_departures {p : Pattern} (h : p.Ordered) {position : Nat}
    (hpos : position < p.length) (earliest : Time) :
    let index := partitionPoint
      (fun index => (p.trip index).departureAt position < earliest) 0 p.trips.length
    index ≤ p.trips.length ∧
      (∀ i < index, (p.trip i).departureAt position < earliest) ∧
      ∀ i, index ≤ i → i < p.trips.length → earliest ≤ (p.trip i).departureAt position := by
  have hspec := partitionPoint_spec
    (fun index => decide ((p.trip index).departureAt position < earliest)) 0 p.trips.length
    (fun i j _ hij hj hleft => by
      simp only [decide_eq_true_eq] at hleft ⊢
      exact h.departed_of_le hpos hij (by omega) hleft)
  obtain ⟨-, hle, hbelow, habove⟩ := hspec
  refine ⟨by omega, ?_, ?_⟩
  · intro i hi
    exact of_decide_eq_true (hbelow i (Nat.zero_le _) hi)
  · intro i hi hlt
    exact Time.not_lt.mp (of_decide_eq_false (habove i hi (by omega)))

/-! ## §3. The first departure. -/

/-- The trip found is there, can be caught, and every trip before it has
left. -/
theorem Ordered.of_firstDeparture? {p : Pattern} (h : p.Ordered) {position : Nat}
    (hpos : position < p.length) {earliest : Time} {found : Nat}
    (hfound : p.firstDeparture? position earliest = some found) :
    found < p.trips.length ∧ earliest ≤ (p.trip found).departureAt position ∧
      ∀ i < found, (p.trip i).departureAt position < earliest := by
  obtain ⟨-, hbelow, habove⟩ := h.partitionPoint_departures hpos earliest
  unfold firstDeparture? at hfound
  simp only at hfound
  split at hfound
  · next hlt =>
      obtain rfl := Option.some.inj hfound
      exact ⟨hlt, habove _ (Nat.le_refl _) hlt, hbelow⟩
  · exact absurd hfound (by simp)

/-- If a trip can be caught, then one is found that comes no later in the
list. -/
theorem Ordered.firstDeparture?_eq_some {p : Pattern} (h : p.Ordered) {position : Nat}
    (hpos : position < p.length) {earliest : Time} {i : Nat} (hi : i < p.trips.length)
    (hcatch : earliest ≤ (p.trip i).departureAt position) :
    ∃ found ≤ i, p.firstDeparture? position earliest = some found := by
  obtain ⟨-, hbelow, -⟩ := h.partitionPoint_departures hpos earliest
  generalize hindex : partitionPoint
    (fun index => decide ((p.trip index).departureAt position < earliest)) 0
      p.trips.length = index at hbelow
  have hle : index ≤ i := Nat.le_of_not_lt fun hlt =>
    Time.not_lt.mpr hcatch (hbelow i hlt)
  refine ⟨index, hle, ?_⟩
  unfold firstDeparture?
  simp only [hindex]
  rw [if_pos (by omega)]

/-- Nothing is found exactly when every trip has left. -/
theorem Ordered.firstDeparture?_eq_none_iff {p : Pattern} (h : p.Ordered) {position : Nat}
    (hpos : position < p.length) {earliest : Time} :
    p.firstDeparture? position earliest = none ↔
      ∀ i < p.trips.length, (p.trip i).departureAt position < earliest := by
  constructor
  · intro hnone i hi
    rw [← Time.not_le]
    intro hcatch
    obtain ⟨found, -, hfound⟩ := h.firstDeparture?_eq_some hpos hi hcatch
    rw [hnone] at hfound
    cases hfound
  · intro hleft
    cases hfound : p.firstDeparture? position earliest with
    | none => rfl
    | some found =>
        obtain ⟨hlt, hcatch, -⟩ := h.of_firstDeparture? hpos hfound
        exact absurd (hleft found hlt) (Time.not_lt.mpr hcatch)

end Pattern

end TransitRouting
