/-
  TransitRouting.Schedule.Reversal
  ────────────────────────────────
  A schedule run backwards in time.

  To arrive by a given time is to depart after the negated time on the
  reversed schedule: every time is negated, halts and trips come in the
  opposite order, arrivals and departures change places, footpaths lead the
  other way, and a rule's two ends are swapped.

  Main statements: reversing a trip, a pattern, or a footpath twice gives it
  back (`Trip.reversed_reversed`, `Pattern.reversed_reversed`,
  `Footpath.reversed_reversed`), for times whose negation fits.
-/
import TransitRouting.Schedule
import TransitRouting.Schedule.Numbering

namespace TransitRouting

/-- The call as seen backwards in time. -/
def Call.reversed (c : Call) : Call := ⟨-c.departure, -c.arrival⟩

/-- The trip run backwards in time. -/
def Trip.reversed (t : Trip) : Trip := { t with calls := t.calls.reverse.map Call.reversed }

/-- The halt as seen backwards in time: who alighted now boards. -/
def Halt.reversed (h : Halt) : Halt := ⟨h.stop, h.alighting, h.boarding⟩

/-- The pattern run backwards in time. -/
def Pattern.reversed (p : Pattern) : Pattern :=
  { p with
    halts := p.halts.reverse.map Halt.reversed
    trips := p.trips.reverse.map Trip.reversed }

/-- The footpath walked the other way. -/
def Footpath.reversed (f : Footpath) : Footpath := ⟨f.destination, f.origin, f.duration⟩

/-- The end of a connection in the reversed schedule, where the pattern with a
given number has `length` halts. -/
def RuleEnd.reversed (length : Nat → Nat) (e : RuleEnd) : RuleEnd :=
  { e with position := Numbering.opposite (length e.pattern) e.position }

/-- The rule in the reversed schedule: the trip that was boarded is the one
that is left. -/
def Rule.reversed (length : Nat → Nat) (r : Rule) : Rule :=
  { r with feeder := r.onward.reversed length, onward := r.feeder.reversed length }

/-- The whole schedule run backwards in time. -/
def Schedule.reversed (s : Schedule) : Schedule :=
  { stopCount := s.stopCount
    patterns := s.patterns.map Pattern.reversed
    footpaths := s.footpaths.map Footpath.reversed
    rules := s.rules.map (Rule.reversed fun number => (s.pattern number).length) }

/-! ## Reversing twice. -/

theorem Halt.reversed_reversed (h : Halt) : h.reversed.reversed = h := rfl

theorem Footpath.reversed_reversed (f : Footpath) : f.reversed.reversed = f := rfl

theorem Call.reversed_reversed (c : Call) (ha : c.arrival.seconds ≠ -2147483648)
    (hd : c.departure.seconds ≠ -2147483648) : c.reversed.reversed = c := by
  show (⟨-(-c.arrival), -(-c.departure)⟩ : Call) = c
  rw [Time.neg_neg _ ha, Time.neg_neg _ hd]

/-- No time of the trip is the least one, so all of them can be negated. -/
def Trip.Negatable (t : Trip) : Prop :=
  ∀ c ∈ t.calls, c.arrival.seconds ≠ -2147483648 ∧ c.departure.seconds ≠ -2147483648

instance (t : Trip) : Decidable t.Negatable :=
  inferInstanceAs (Decidable (∀ c ∈ t.calls, _))

theorem Trip.reversed_reversed (t : Trip) (h : t.Negatable) : t.reversed.reversed = t := by
  have hcalls : (t.calls.reverse.map Call.reversed).reverse.map Call.reversed = t.calls := by
    rw [← List.map_reverse, List.reverse_reverse, List.map_map]
    -- Each call comes back.
    conv => rhs; rw [← List.map_id t.calls]
    apply List.map_congr_left
    intro c hc
    exact Call.reversed_reversed c (h c hc).1 (h c hc).2
  show { t with calls := (t.calls.reverse.map Call.reversed).reverse.map Call.reversed } = t
  rw [hcalls]

theorem Pattern.reversed_reversed (p : Pattern) (h : ∀ t ∈ p.trips, t.Negatable) :
    p.reversed.reversed = p := by
  have hhalts : (p.halts.reverse.map Halt.reversed).reverse.map Halt.reversed = p.halts := by
    rw [← List.map_reverse, List.reverse_reverse, List.map_map]
    -- Swapping who boards and who alights twice changes nothing.
    conv => rhs; rw [← List.map_id p.halts]
    rfl
  have htrips : (p.trips.reverse.map Trip.reversed).reverse.map Trip.reversed = p.trips := by
    rw [← List.map_reverse, List.reverse_reverse, List.map_map]
    -- Each trip comes back.
    conv => rhs; rw [← List.map_id p.trips]
    apply List.map_congr_left
    intro t ht
    exact Trip.reversed_reversed t (h t ht)
  show { p with
    halts := (p.halts.reverse.map Halt.reversed).reverse.map Halt.reversed
    trips := (p.trips.reverse.map Trip.reversed).reverse.map Trip.reversed } = p
  rw [hhalts, htrips]

end TransitRouting
