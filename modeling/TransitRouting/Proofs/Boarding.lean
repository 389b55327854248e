/-
  TransitRouting.Proofs.Boarding
  ──────────────────────────────
  What can be said of a trip that was found to board.

  It can be boarded at the halt and is not forbidden, and either no rule was
  needed, then it leaves no earlier than the traveller is ready, or a rule that
  applies to the connection lets the traveller board it in less or more time
  than usual, and that time is kept.

  Main statements:

    • `Network.Boardable.of_earliestBoarding` — what is found is justified;
    • `Network.mem_applicableRules` — which rules apply to a connection;
    • `Network.earliestBoarding_some` — one who comes from a trip boards by the
      ruling, unless the trip is banned;
    • `Network.earliestBoarding_of_none_applies` — where no rule applies, only
      the usual time for changing counts.
-/
import TransitRouting.Boarding
import TransitRouting.Proofs.Schedule.Tables

namespace TransitRouting

/-! ## §1. Rules that apply. -/

/-- What a fold has picked in the end it has come across. -/
theorem mem_of_foldl_pick {α : Type} {pick : Option α → α → Option α}
    (hpick : ∀ held x, pick held x = some x ∨ pick held x = held) {xs : List α} {y : α}
    (h : xs.foldl pick none = some y) : y ∈ xs := by
  have hpicked : ∀ y, xs.foldl pick none = some y → y ∈ xs := by
    refine List.foldlRecOn (motive := fun held => ∀ y, held = some y → y ∈ xs) _ _
      (fun _ hy => by cases hy) ?_
    intro held hheld x hx y hy
    rcases hpick held x with hnew | hsame
    · rw [hnew] at hy
      obtain rfl := Option.some.inj hy
      exact hx
    · rw [hsame] at hy
      exact hheld y hy
  exact hpicked y h

theorem Rule.mem_of_preferred? {rules : List Rule} {r : Rule} (h : preferred? rules = some r) :
    r ∈ rules := by
  refine mem_of_foldl_pick (fun held? q => ?_) h
  cases held? with
  | none => exact Or.inl rfl
  | some held =>
      by_cases hpreferred : q.isPreferredTo held = true
      · exact Or.inl (by simp [hpreferred])
      · exact Or.inr (by simp [hpreferred])

namespace Network

variable {n : Network} {feeder : Feeder} {pattern position : Nat}

/-- A rule applies to a connection if it is about leaving the feeder's trip
where it was left, and about boarding at the halt. -/
theorem mem_applicableRules {r : Rule} :
    r ∈ n.applicableRules feeder pattern position ↔
      r ∈ n.schedule.rules ∧ r.feeder.position = feeder.position ∧
        (r.feeder.trip = some feeder.trip ∨
          r.feeder.trip = none ∧ r.feeder.pattern = feeder.pattern) ∧
        r.onward.pattern = pattern ∧ r.onward.position = position := by
  unfold applicableRules rulesFrom
  simp only [List.mem_filter, List.mem_append, RuleEnd.covers, RuleEnd.isAt, Bool.and_eq_true,
    decide_eq_true_eq]
  constructor
  · intro hgiven
    rcases hgiven with ⟨⟨hr, htrip, hposition⟩ | ⟨hr, htrip, hpattern, hposition⟩, -, honward⟩
    · exact ⟨hr, hposition, Or.inl htrip, honward⟩
    · exact ⟨hr, hposition, Or.inr ⟨htrip, hpattern⟩, honward⟩
  · intro hgiven
    rcases hgiven with ⟨hr, hposition, htrip | ⟨htrip, hpattern⟩, honward⟩
    · exact ⟨Or.inl ⟨hr, htrip, hposition⟩, by simp [htrip], honward⟩
    · exact ⟨Or.inr ⟨hr, htrip, hpattern, hposition⟩, by simp [htrip], honward⟩

/-- A minimum time of its own comes from a rule that applies. -/
theorem of_ruling_eq_override {kind : RuleKind} {minTransferTime : Duration} {target : Option Nat}
    (h : n.ruling feeder pattern position = .override kind minTransferTime target) :
    ∃ r ∈ n.applicableRules feeder pattern position, r.kind.overrides = true ∧ r.kind = kind ∧
      r.minTransferTime = minTransferTime ∧ r.onward.trip = target := by
  unfold ruling at h
  simp only at h
  split at h
  · cases h
  · split at h
    · next r hr =>
        obtain ⟨hmem, hoverrides⟩ := List.mem_filter.mp (Rule.mem_of_preferred? hr)
        simp only [Ruling.override.injEq] at h
        exact ⟨r, hmem, hoverrides, h⟩
    · cases h

/-- The ruling for a connection opens up a trip at a halt: one who left the
feeder at `arrival` may board it at `time`. -/
def Opens (n : Network) (feeder : Feeder) (pattern position trip : Nat) (arrival time : Time)
    (kind : RuleKind) : Prop :=
  ∃ minTransferTime target,
    n.ruling feeder pattern position = .override kind minTransferTime target ∧
      target.all (· = trip) = true ∧ arrival + minTransferTime ≤ time

/-- What the ruling opens up, one of the rules that apply does. -/
theorem Opens.exists_rule {trip : Nat} {arrival time : Time} {kind : RuleKind}
    (h : n.Opens feeder pattern position trip arrival time kind) :
    ∃ r ∈ n.applicableRules feeder pattern position, r.kind.overrides = true ∧ r.kind = kind ∧
      r.onward.covers trip = true ∧ arrival + r.minTransferTime ≤ time := by
  obtain ⟨minTransferTime, target, hruling, hcovers, hle⟩ := h
  obtain ⟨r, hr, hoverrides, hkind, rfl, rfl⟩ := of_ruling_eq_override hruling
  exact ⟨r, hr, hoverrides, hkind, hcovers, hle⟩

/-- One who left the feeder at its halt and is at the stop of another halt from
`ready` on catches a trip there at `time`: by the usual time for changing if no
rule was needed, and by what the ruling says otherwise. -/
def Catches (n : Network) (slack : Duration) (feeder : Feeder) (pattern position trip : Nat)
    (ready time : Time) (rule : Option RuleKind) : Prop :=
  match rule with
  | none => ready + slack ≤ time
  | some kind => n.Opens feeder pattern position trip ready time kind

/-- Whoever catches a trip is there before it leaves. -/
theorem Catches.ready_le {slack : Duration} {trip : Nat} {ready time : Time}
    {rule : Option RuleKind} (h : n.Catches slack feeder pattern position trip ready time rule) :
    ready ≤ time := by
  unfold Catches at h
  split at h
  · exact Time.le_trans (Time.le_add _ _) h
  · obtain ⟨minTransferTime, target, -, -, hle⟩ := h
    exact Time.le_trans (Time.le_add _ _) hle

end Network

/-! ## §2. The outcome, branch by branch. -/

/-- The outcome, unless the trip that was found is banned. -/
def BoardingOutcome.unless (banned : Nat → Bool) : BoardingOutcome → BoardingOutcome
  | .found b => if banned b.tripId then .forbidden else .found b
  | outcome => outcome

namespace BoardingOutcome

variable {banned : Nat → Bool} {outcome usual : BoardingOutcome} {target : Option Boarding}
  {b : Boarding} {e : Time}

theorem unless_eq_self (h : ∀ trip, banned trip = false) : outcome.unless banned = outcome := by
  cases outcome with
  | found b =>
      show (if banned b.tripId then _ else _) = _
      rw [h]
      exact if_neg Bool.false_ne_true
  | nothingAfter _ => rfl
  | forbidden => rfl

theorem unless_eq_found_iff :
    outcome.unless banned = .found b ↔ outcome = .found b ∧ banned b.tripId = false := by
  cases outcome with
  | found first =>
      show (if banned first.tripId then _ else _) = _ ↔ _
      constructor
      · intro h
        split at h
        · cases h
        · next hbanned =>
            obtain rfl := BoardingOutcome.found.inj h
            exact ⟨rfl, Bool.eq_false_iff.mpr hbanned⟩
      · rintro ⟨hfound, hbanned⟩
        obtain rfl := BoardingOutcome.found.inj hfound
        rw [hbanned]
        rfl
  | nothingAfter _ => simp [BoardingOutcome.unless]
  | forbidden => simp [BoardingOutcome.unless]

theorem unless_eq_forbidden_iff :
    outcome.unless banned = .forbidden ↔
      outcome = .forbidden ∨ ∃ b, outcome = .found b ∧ banned b.tripId = true := by
  cases outcome with
  | found b =>
      show (if banned b.tripId then _ else _) = _ ↔ _
      cases hbanned : banned b.tripId <;> simp [hbanned]
  | nothingAfter _ => simp [BoardingOutcome.unless]
  | forbidden => simp [BoardingOutcome.unless]

theorem unless_eq_nothingAfter_iff :
    outcome.unless banned = .nothingAfter e ↔ outcome = .nothingAfter e := by
  cases outcome with
  | found b =>
      show (if banned b.tripId then _ else _) = _ ↔ _
      cases banned b.tripId <;> simp
  | nothingAfter _ => exact Iff.rfl
  | forbidden => exact Iff.rfl

/-- What is found is the rule's own trip, or found without it. -/
theorem orTarget_eq_found (h : usual.orTarget target = .found b) :
    usual = .found b ∨ target = some b := by
  unfold orTarget at h
  cases target with
  | none => exact .inl h
  | some own =>
      cases usual with
      | found first =>
          simp only at h
          split at h
          · exact .inl h
          · exact .inr (congrArg some (BoardingOutcome.found.inj h))
      | nothingAfter _ => exact .inr (congrArg some (BoardingOutcome.found.inj h))
      | forbidden => exact .inr (congrArg some (BoardingOutcome.found.inj h))

/-- If nothing is found, the rule had no trip of its own, and the outcome is the usual
one. -/
theorem orTarget_eq_of_ne_found (h : ∀ b, usual.orTarget target ≠ .found b) :
    usual.orTarget target = usual := by
  cases target with
  | none => rfl
  | some own =>
      cases usual with
      | found first =>
          by_cases hbefore : first.time < own.time
          · exact if_pos hbefore
          · exact absurd (if_neg hbefore) (h own)
      | nothingAfter _ => exact absurd rfl (h own)
      | forbidden => exact absurd rfl (h own)

end BoardingOutcome

namespace Network

variable {n : Network} {feeder : Feeder} {f : Option Feeder} {pattern position : Nat}
  {earliest arrival : Time}

theorem earliestBoarding_of_closed (hclosed : (n.pattern pattern).canBoard position = false) :
    n.earliestBoarding pattern position earliest arrival f = .nothingAfter earliest := by
  unfold earliestBoarding
  simp only [hclosed, Bool.not_false, if_true]

theorem earliestBoarding_none (hcan : (n.pattern pattern).canBoard position = true) :
    n.earliestBoarding pattern position earliest arrival none =
      (n.pattern pattern).boardFirst position earliest none := by
  unfold earliestBoarding
  simp only [hcan, Bool.not_true, Bool.false_eq_true, if_false]

/-- One who comes from a trip boards by the ruling, unless the trip is banned. -/
theorem earliestBoarding_some (hcan : (n.pattern pattern).canBoard position = true) :
    n.earliestBoarding pattern position earliest arrival (some feeder) =
      (n.boardByRuling (n.ruling feeder pattern position) pattern position earliest
        arrival).unless (n.forbidsTrip feeder pattern position) := by
  unfold earliestBoarding
  simp only [hcan, Bool.not_true, Bool.false_eq_true, if_false]
  cases n.boardByRuling (n.ruling feeder pattern position) pattern position earliest arrival <;> rfl

end Network

/-! ## §3. What is found is justified. -/

namespace Network

variable {n : Network} {feeder : Feeder} {pattern position : Nat}

/-- The trip can be boarded in time: by the usual time for changing if no rule
was needed, and by a rule's time otherwise. -/
def InTime (n : Network) (feeder : Option Feeder) (pattern : Nat) (earliest arrival : Time)
    (b : Boarding) : Prop :=
  match b.rule with
  | none => earliest ≤ b.time
  | some kind =>
    ∃ f, feeder = some f ∧ n.Opens f pattern b.position b.tripId arrival b.time kind

/-- Whoever boards in time is there before the trip leaves. -/
theorem InTime.ready_le {f : Option Feeder} {earliest arrival : Time} {b : Boarding}
    (h : n.InTime f pattern earliest arrival b) (hle : arrival ≤ earliest) : arrival ≤ b.time := by
  unfold InTime at h
  split at h
  · exact Time.le_trans hle h
  · obtain ⟨feeder, -, minTransferTime, target, -, -, hopens⟩ := h
    exact Time.le_trans (Time.le_add _ _) hopens

/-- All that is promised of a trip that was found to board. -/
structure Boardable (n : Network) (feeder : Option Feeder) (pattern position : Nat)
    (earliest arrival : Time) (b : Boarding) : Prop where
  /-- The trip is one of the pattern's. -/
  trip_lt : b.trip < (n.pattern pattern).trips.length
  /-- It is boarded at the position, where and when it leaves. -/
  eq_boarding : b = (n.pattern pattern).boarding b.trip position b.rule
  /-- It can be boarded in time. -/
  inTime : n.InTime feeder pattern earliest arrival b

theorem boardable_of_boardFirst (hn : n.Valid) (hcan : (n.pattern pattern).canBoard position = true)
    {earliest ready arrival : Time} {rule : Option RuleKind} {f : Option Feeder} {b : Boarding}
    (h : (n.pattern pattern).boardFirst position ready rule = .found b)
    (htime : ∀ b : Boarding, b.rule = rule → b.position = position → ready ≤ b.time →
      n.InTime f pattern earliest arrival b) :
    n.Boardable f pattern position earliest arrival b := by
  have hlength := Pattern.lt_length_of_canBoard hcan
  have hvalid := hn.pattern_of_lt_length hlength
  unfold Pattern.boardFirst at h
  split at h
  · next trip htrip =>
      obtain rfl := BoardingOutcome.found.inj h
      obtain ⟨hlt, hready, -⟩ :=
        hvalid.ordered.of_firstDeparture? (Nat.lt_of_succ_lt hlength) htrip
      exact ⟨hlt, rfl, htime _ rfl rfl hready⟩
  · cases h

theorem boardable_of_boardTrip? {earliest ready arrival : Time} {rule : Option RuleKind}
    {target : Nat} {f : Option Feeder} {b : Boarding}
    (h : (n.pattern pattern).boardTrip? position ready rule target = some b)
    (htime : ∀ b : Boarding, b.rule = rule → b.position = position → b.tripId = target →
      ready ≤ b.time → n.InTime f pattern earliest arrival b) :
    n.Boardable f pattern position earliest arrival b := by
  unfold Pattern.boardTrip? at h
  split at h
  · next trip htrip =>
      split at h
      · next hready =>
          obtain rfl := Option.some.inj h
          obtain ⟨hlt, hid, -⟩ := List.findIdx?_eq_some_iff_getElem.mp htrip
          have hid' : ((n.pattern pattern).trip trip).id = target := by
            simpa [Pattern.trip, hlt] using hid
          exact ⟨hlt, rfl, htime _ rfl rfl hid' hready⟩
      · cases h
  · cases h

/-- The ruling alone already justifies what it leads to. -/
theorem boardable_of_boardByRuling (hn : n.Valid)
    (hcan : (n.pattern pattern).canBoard position = true) {earliest arrival : Time}
    {b : Boarding}
    (h : n.boardByRuling (n.ruling feeder pattern position) pattern position earliest arrival =
      .found b) :
    n.Boardable (some feeder) pattern position earliest arrival b := by
  have husual : ∀ b : Boarding, b.rule = none → b.position = position → earliest ≤ b.time →
      n.InTime (some feeder) pattern earliest arrival b := by
    intro b hrule _ hle
    unfold InTime
    rw [hrule]
    exact hle
  cases hruling : n.ruling feeder pattern position with
  | unrestricted =>
      rw [hruling] at h
      exact boardable_of_boardFirst hn hcan h husual
  | forbidden =>
      rw [hruling] at h
      cases h
  | override kind minTransferTime target =>
      rw [hruling] at h
      have hbyRule : ∀ b : Boarding, b.rule = some kind → b.position = position →
          target.all (· = b.tripId) = true → arrival + minTransferTime ≤ b.time →
          n.InTime (some feeder) pattern earliest arrival b := by
        intro b hrule hposition hcovers hle
        unfold InTime
        rw [hrule, hposition]
        exact ⟨feeder, rfl, minTransferTime, target, hruling, hcovers, hle⟩
      cases target with
      | none =>
          refine boardable_of_boardFirst hn hcan h ?_
          intro b hrule hposition hle
          exact hbyRule b hrule hposition rfl hle
      | some target =>
          -- The rule's own trip competes with the one found without it.
          rcases BoardingOutcome.orTarget_eq_found h with hfirst | hown
          · exact boardable_of_boardFirst hn hcan hfirst husual
          · refine boardable_of_boardTrip? hown ?_
            intro b hrule hposition hid hle
            exact hbyRule b hrule hposition (by simp [hid]) hle

/-- What is found can be boarded at the halt, in time, and is not forbidden. -/
theorem Boardable.of_earliestBoarding (hn : n.Valid) {earliest arrival : Time}
    {f : Option Feeder} {b : Boarding}
    (h : n.earliestBoarding pattern position earliest arrival f = .found b) :
    (n.pattern pattern).canBoard position = true ∧
      n.Boardable f pattern position earliest arrival b ∧
      ∀ feeder, f = some feeder → n.forbidsTrip feeder pattern position b.tripId = false := by
  cases hcan : (n.pattern pattern).canBoard position with
  | false =>
      rw [earliestBoarding_of_closed hcan] at h
      cases h
  | true =>
      refine ⟨rfl, ?_⟩
      cases f with
      | none =>
          rw [earliestBoarding_none hcan] at h
          refine ⟨boardable_of_boardFirst hn hcan h ?_, fun _ hf => by cases hf⟩
          intro b hrule _ hle
          unfold InTime
          rw [hrule]
          exact hle
      | some feeder =>
          rw [earliestBoarding_some hcan, BoardingOutcome.unless_eq_found_iff] at h
          obtain ⟨hfound, hforbids⟩ := h
          refine ⟨boardable_of_boardByRuling hn hcan hfound, fun _ heq => ?_⟩
          obtain rfl := Option.some.inj heq
          exact hforbids

/-! ## §4. Where no rule applies. -/

theorem applicableRules_of_no_rules (h : n.schedule.rules = []) :
    n.applicableRules feeder pattern position = [] := by
  simp [applicableRules, rulesFrom, h]

/-- Where no rule applies, only the usual time for changing counts. -/
theorem earliestBoarding_of_none_applies
    (hcan : (n.pattern pattern).canBoard position = true) {earliest arrival : Time}
    {f : Option Feeder}
    (h : ∀ feeder, f = some feeder → n.applicableRules feeder pattern position = []) :
    n.earliestBoarding pattern position earliest arrival f =
      (n.pattern pattern).boardFirst position earliest none := by
  cases f with
  | none => exact earliestBoarding_none hcan
  | some feeder =>
      have hnone := h feeder rfl
      have hruling : n.ruling feeder pattern position = .unrestricted := by
        simp [ruling, hnone, Rule.preferred?]
      have hforbids : ∀ trip, n.forbidsTrip feeder pattern position trip = false := by
        intro trip
        simp [forbidsTrip, hnone]
      rw [earliestBoarding_some hcan, hruling, BoardingOutcome.unless_eq_self hforbids]
      rfl

end Network

end TransitRouting
