/-
  TransitRouting.Proofs.Boarding.Overrides
  ────────────────────────────────────────
  Rules that set the time for changing: whether that time is kept, and which trips
  they open up.

  Several rules may set a time for one change, for different trips of the pattern.
  One of them prevails for the whole halt: the most specific, and of those the one
  with the shortest time.  If it names a trip, that trip competes with the one found
  by the usual time, and all others keep the usual time.  So a rule that is passed
  over opens nothing up, and a rule with more than the usual time does not hold back
  its own trip if that is the first one to be caught by the usual time.

  Main statements:

    • `Rule.not_isPreferredTo_preferred?` — no rule is preferred to the one that
      prevails;
    • `Feed.keepsRuleTime_iff` — when the time of the rule that prevails is kept;
    • `Feed.exists_earliestBoarding_le` — whoever can be in time for a trip by the
      rule that prevails finds that trip or one that leaves no later;
    • `Feed.not_keepsRuleTime_lateTrain`, `Feed.not_exists_earliestBoarding_earlyTrain`
      — a time that is not kept, and a trip that is not opened up.
-/
import Mathlib.Data.List.Induction
import TransitRouting.Proofs.Boarding.Outcomes
import TransitRouting.Proofs.Schedule.Ordering

namespace TransitRouting

/-! ## §1. The rule that prevails. -/

namespace Rule

theorem isPreferredTo_iff {r held : Rule} :
    r.isPreferredTo held = true ↔
      held.specificity < r.specificity ∨
        held.specificity = r.specificity ∧ r.minTransferTime < held.minTransferTime := by
  unfold isPreferredTo
  simp only [Bool.or_eq_true, Bool.and_eq_true, decide_eq_true_eq]

theorem not_isPreferredTo_self (r : Rule) : ¬ r.isPreferredTo r = true := by
  rw [isPreferredTo_iff, Duration.lt_def]
  omega

theorem isPreferredTo_trans {a b c : Rule} (hab : a.isPreferredTo b = true)
    (hbc : b.isPreferredTo c = true) : a.isPreferredTo c = true := by
  rw [isPreferredTo_iff, Duration.lt_def] at *
  omega

/-- Of two rules of which neither is preferred, both set the same time. -/
theorem minTransferTime_eq {a b : Rule} (hab : ¬ a.isPreferredTo b = true)
    (hba : ¬ b.isPreferredTo a = true) : a.minTransferTime = b.minTransferTime := by
  rw [isPreferredTo_iff, Duration.lt_def] at hab hba
  exact Duration.ext (by omega)

theorem preferred?_concat (rules : List Rule) (r : Rule) :
    preferred? (rules ++ [r]) = some (match preferred? rules with
      | none => r
      | some held => if r.isPreferredTo held then r else held) := by
  unfold preferred?
  rw [List.foldl_append, List.foldl_cons, List.foldl_nil]
  generalize List.foldl _ none rules = held?
  cases held? <;> rfl

theorem preferred?_eq_none_iff {rules : List Rule} : preferred? rules = none ↔ rules = [] := by
  constructor
  · intro hnone
    rcases List.eq_nil_or_concat rules with h | ⟨before, r, rfl⟩
    · exact h
    · rw [List.concat_eq_append, preferred?_concat] at hnone
      cases hnone
  · rintro rfl
    rfl

/-- No rule is preferred to the one that prevails. -/
theorem not_isPreferredTo_preferred? {rules : List Rule} {r : Rule}
    (h : preferred? rules = some r) : ∀ q ∈ rules, ¬ q.isPreferredTo r = true := by
  -- The induction adds rules at the end, where they are compared.
  induction rules using List.reverseRecOn generalizing r with
  | nil => cases h
  | append_singleton rules last ih =>
      rw [preferred?_concat] at h
      obtain rfl := Option.some.inj h
      intro q hq hpreferred
      rcases List.mem_append.mp hq with hq | hq
      · cases hheld : preferred? rules with
        | none =>
            rw [preferred?_eq_none_iff.mp hheld] at hq
            cases hq
        | some held =>
            simp only [hheld] at hpreferred
            split at hpreferred
            · next hlast => exact ih hheld q hq (isPreferredTo_trans hpreferred hlast)
            · exact ih hheld q hq hpreferred
      · obtain rfl := List.mem_singleton.mp hq
        split at hpreferred
        · exact not_isPreferredTo_self _ hpreferred
        · split at hpreferred
          · exact not_isPreferredTo_self _ hpreferred
          · next hlast => exact hlast hpreferred

end Rule

/-! ## §2. Times for changing. -/

/-- What a change to the trip takes by the ruling: the time that it sets if it is about
the trip, and the usual time if it is not. -/
def Ruling.timeFor (slack : Duration) (trip : Nat) : Ruling → Duration
  | .override _ minTransferTime target =>
    if target.all (· = trip) then minTransferTime else slack
  | _ => slack

namespace Network

/-- The rule is about the change and sets a time for changing to the trip. -/
structure Sets (n : Network) (feeder : Option Feeder) (pattern position trip : Nat) (r : Rule) :
    Prop where
  applies : n.Applies feeder pattern position r
  overrides : r.kind.overrides = true
  covers : r.onward.covers trip = true

/-- What a change to the trip takes by the rules that are about that trip: the time of
the most specific one, and of several the shortest; the usual time if none sets one. -/
def Takes (n : Network) (slack : Duration) (feeder : Option Feeder)
    (pattern position trip : Nat) (time : Duration) : Prop :=
  (∃ r, n.Sets feeder pattern position trip r ∧
      (∀ q, n.Sets feeder pattern position trip q → ¬ q.isPreferredTo r = true) ∧
      time = r.minTransferTime) ∨
    (∀ r, ¬ n.Sets feeder pattern position trip r) ∧ time = slack

/-- The rule that prevails is about another trip, while by the rules about this one the
change takes less than usual. -/
def PassesOver (n : Network) (slack : Duration) (feeder : Feeder)
    (pattern position trip : Nat) : Prop :=
  ∃ kind minTransferTime own,
    n.ruling feeder pattern position = .override kind minTransferTime (some own) ∧ own ≠ trip ∧
      ∃ time, n.Takes slack (some feeder) pattern position trip time ∧ time < slack

variable {n : Network} {feeder : Feeder} {pattern position trip : Nat} {slack : Duration}

/-- The rules of the change that set a time. -/
theorem Valid.mem_overriding_iff (hn : n.Valid)
    (hserves : n.schedule.Serves feeder.pattern feeder.trip) {r : Rule} :
    r ∈ (n.applicableRules feeder pattern position).filter (·.kind.overrides) ↔
      n.Applies (some feeder) pattern position r ∧ r.kind.overrides = true := by
  rw [List.mem_filter, hn.mem_applicableRules_iff hserves]

/-- A ruling that sets a time is that of a rule to which no other is preferred. -/
theorem Valid.exists_rule_of_ruling (hn : n.Valid)
    (hserves : n.schedule.Serves feeder.pattern feeder.trip) {kind : RuleKind}
    {minTransferTime : Duration} {target : Option Nat}
    (h : n.ruling feeder pattern position = .override kind minTransferTime target) :
    ∃ r, n.Applies (some feeder) pattern position r ∧ r.kind.overrides = true ∧
      r.minTransferTime = minTransferTime ∧ r.onward.trip = target ∧
      ∀ q, n.Applies (some feeder) pattern position q → q.kind.overrides = true →
        ¬ q.isPreferredTo r = true := by
  unfold ruling at h
  simp only at h
  split at h
  · cases h
  · split at h
    · next r hr =>
        obtain ⟨happlies, hoverrides⟩ :=
          (hn.mem_overriding_iff hserves).mp (Rule.mem_of_preferred? hr)
        obtain ⟨-, rfl, rfl⟩ := Ruling.override.inj h
        refine ⟨r, happlies, hoverrides, rfl, rfl, fun q hq hset => ?_⟩
        exact Rule.not_isPreferredTo_preferred? hr q
          ((hn.mem_overriding_iff hserves).mpr ⟨hq, hset⟩)
    · cases h

/-- An unrestricted change is one for which no rule sets a time. -/
theorem Valid.not_overrides_of_ruling (hn : n.Valid)
    (hserves : n.schedule.Serves feeder.pattern feeder.trip)
    (h : n.ruling feeder pattern position = .unrestricted) {r : Rule}
    (hr : n.Applies (some feeder) pattern position r) : ¬ r.kind.overrides = true := by
  unfold ruling at h
  simp only at h
  split at h
  · cases h
  · split at h
    · cases h
    · next hnone =>
        intro hset
        have hmem := (hn.mem_overriding_iff hserves).mpr ⟨hr, hset⟩
        rw [Rule.preferred?_eq_none_iff.mp hnone] at hmem
        cases hmem

/-- Unless a trip is passed over, the ruling gives no more time for changing to it than
the rules about it. -/
theorem Valid.timeFor_le (hn : n.Valid) (hserves : n.schedule.Serves feeder.pattern feeder.trip)
    {time : Duration} (htakes : n.Takes slack (some feeder) pattern position trip time)
    (hpasses : ¬ n.PassesOver slack feeder pattern position trip)
    (hfree : n.ruling feeder pattern position ≠ .forbidden) :
    (n.ruling feeder pattern position).timeFor slack trip ≤ time := by
  cases hruling : n.ruling feeder pattern position with
  | forbidden => exact absurd hruling hfree
  | unrestricted =>
      rcases htakes with ⟨r, hr, -, -⟩ | ⟨-, rfl⟩
      · exact absurd hr.overrides (hn.not_overrides_of_ruling hserves hruling hr.applies)
      · exact Nat.le_refl _
  | override kind minTransferTime target =>
      obtain ⟨held, happlies, hoverrides, htime, htarget, hprevails⟩ :=
        hn.exists_rule_of_ruling hserves hruling
      show (if target.all (· = trip) then minTransferTime else slack) ≤ time
      by_cases hcovers : target.all (· = trip) = true
      · rw [if_pos hcovers]
        have hsets : n.Sets (some feeder) pattern position trip held := by
          refine ⟨happlies, hoverrides, ?_⟩
          unfold RuleEnd.covers
          rw [htarget]
          exact hcovers
        rcases htakes with ⟨r, hr, hleast, rfl⟩ | ⟨hnone, -⟩
        · rw [← htime, Rule.minTransferTime_eq (hleast held hsets)
            (hprevails r hr.applies hr.overrides)]
          exact Nat.le_refl _
        · exact absurd hsets (hnone held)
      · rw [if_neg hcovers]
        refine Nat.le_of_not_lt fun hshorter => hpasses ?_
        cases target with
        | none => exact absurd rfl hcovers
        | some own =>
            refine ⟨kind, minTransferTime, own, hruling, ?_, time, htakes, hshorter⟩
            rintro rfl
            exact hcovers (by simp)

end Network

/-! ## §3. What can be caught is found. -/

namespace BoardingOutcome

variable {usual : BoardingOutcome} {target : Option Boarding} {own b : Boarding} {limit : Time}

/-- The rule's own trip is found, unless one by the usual time leaves before it. -/
theorem orTarget_some_eq_found (h : usual.orTarget (some own) = .found b) :
    b = own ∨ usual = .found b ∧ b.time < own.time := by
  cases usual with
  | nothingAfter _ => exact Or.inl (BoardingOutcome.found.inj h).symm
  | forbidden => exact Or.inl (BoardingOutcome.found.inj h).symm
  | found first =>
      simp only [orTarget] at h
      split at h
      · next hbefore =>
          obtain rfl := BoardingOutcome.found.inj h
          exact Or.inr ⟨rfl, hbefore⟩
      · exact Or.inl (BoardingOutcome.found.inj h).symm

/-- If either of the two trips leaves by some time, one is found that does. -/
theorem exists_orTarget_eq_found
    (h : (∃ b, usual = .found b ∧ b.time ≤ limit) ∨ ∃ own, target = some own ∧ own.time ≤ limit) :
    ∃ b, usual.orTarget target = .found b ∧ b.time ≤ limit := by
  cases target with
  | none =>
      rcases h with hfirst | ⟨own, hown, -⟩
      · exact hfirst
      · cases hown
  | some own =>
      cases usual with
      | found first =>
          by_cases hbefore : first.time < own.time
          · refine ⟨first, if_pos hbefore, ?_⟩
            rcases h with ⟨b, hb, hle⟩ | ⟨other, hother, hle⟩
            · exact BoardingOutcome.found.inj hb ▸ hle
            · obtain rfl := Option.some.inj hother
              exact Time.le_trans (Int.le_of_lt hbefore) hle
          · refine ⟨own, if_neg hbefore, ?_⟩
            rcases h with ⟨b, hb, hle⟩ | ⟨other, hother, hle⟩
            · obtain rfl := BoardingOutcome.found.inj hb
              exact Time.le_trans (Time.not_lt.mp hbefore) hle
            · exact Option.some.inj hother ▸ hle
      | nothingAfter _ =>
          rcases h with ⟨b, hb, -⟩ | ⟨other, hother, hle⟩
          · cases hb
          · exact ⟨own, rfl, Option.some.inj hother ▸ hle⟩
      | forbidden =>
          rcases h with ⟨b, hb, -⟩ | ⟨other, hother, hle⟩
          · cases hb
          · exact ⟨own, rfl, Option.some.inj hother ▸ hle⟩

end BoardingOutcome

namespace Pattern

variable {p : Pattern} {position : Nat} {ready : Time} {rule : Option RuleKind}

/-- If a trip can be caught, one is found that leaves no later. -/
theorem Ordered.exists_boardFirst (h : p.Ordered) (hposition : position < p.length) {i : Nat}
    (hi : i < p.trips.length) (hcatch : ready ≤ (p.trip i).departureAt position) :
    ∃ b, p.boardFirst position ready rule = .found b ∧
      b.time ≤ (p.trip i).departureAt position := by
  obtain ⟨found, hle, hfound⟩ := h.firstDeparture?_eq_some hposition hi hcatch
  refine ⟨p.boarding found position rule, ?_, (h.keepsAhead hle hi position hposition).2⟩
  unfold boardFirst
  rw [hfound]

/-- Trips of one number are one trip. -/
theorem eq_of_trip_id (hids : (p.trips.map (·.id)).Nodup) {i j : Nat} (hi : i < p.trips.length)
    (hj : j < p.trips.length) (h : (p.trip i).id = (p.trip j).id) : i = j := by
  have hget : ∀ {k : Nat}, k < p.trips.length →
      (p.trips.map (·.id))[k]? = some (p.trip k).id := by
    intro k hk
    simp [trip, hk]
  refine (List.getElem?_inj (by rwa [List.length_map]) hids).mp ?_
  rw [hget hi, hget hj, h]

/-- A trip is looked up by its number. -/
theorem boardTrip?_id (hids : (p.trips.map (·.id)).Nodup) {i : Nat} (hi : i < p.trips.length) :
    p.boardTrip? position ready rule (p.trip i).id =
      if ready ≤ (p.trip i).departureAt position then some (p.boarding i position rule)
      else none := by
  have hindex : p.trips.findIdx? (·.id = (p.trip i).id) = some i := by
    rw [List.findIdx?_eq_some_iff_getElem]
    refine ⟨hi, by simp [trip, hi], fun j hj hsame => ?_⟩
    have hlt : j < p.trips.length := Nat.lt_trans hj hi
    have hid : (p.trip j).id = (p.trip i).id := by
      simpa [trip, hlt] using hsame
    exact absurd (eq_of_trip_id hids hlt hi hid) (Nat.ne_of_lt hj)
  unfold boardTrip?
  rw [hindex]

end Pattern

namespace Network

variable {n : Network} {feeder : Feeder} {pattern position : Nat} {slack : Duration}
  {arrival : Time}

/-- Where nothing is forbidden, whoever can be in time for a trip by the ruling finds
that trip or one that leaves no later. -/
theorem Valid.exists_earliestBoarding_of_timeFor (hn : n.Valid)
    (hcan : (n.pattern pattern).canBoard position = true)
    (hfree : n.ruling feeder pattern position ≠ .forbidden)
    (hbans : ∀ trip, n.forbidsTrip feeder pattern position trip = false) {i : Nat}
    (hi : i < (n.pattern pattern).trips.length)
    (hcatch : arrival + (n.ruling feeder pattern position).timeFor slack
        ((n.pattern pattern).trip i).id ≤ ((n.pattern pattern).trip i).departureAt position) :
    ∃ b, n.earliestBoarding pattern position (arrival + slack) arrival (some feeder) = .found b ∧
      b.time ≤ ((n.pattern pattern).trip i).departureAt position := by
  have hlength := Pattern.lt_length_of_canBoard hcan
  have hposition := Nat.lt_of_succ_lt hlength
  have hvalid := hn.pattern_of_lt_length hlength
  rw [earliestBoarding_some hcan, BoardingOutcome.unless_eq_self hbans]
  cases hruling : n.ruling feeder pattern position with
  | forbidden => exact absurd hruling hfree
  | unrestricted =>
      rw [hruling] at hcatch
      exact hvalid.ordered.exists_boardFirst hposition hi hcatch
  | override kind minTransferTime target =>
      rw [hruling] at hcatch
      cases target with
      | none => exact hvalid.ordered.exists_boardFirst hposition hi hcatch
      | some own =>
          refine BoardingOutcome.exists_orTarget_eq_found ?_
          by_cases hown : own = ((n.pattern pattern).trip i).id
          · -- The rule is about the trip, which can be boarded by it.
            right
            subst hown
            have hready : arrival + minTransferTime ≤
                ((n.pattern pattern).trip i).departureAt position := by
              simpa [Ruling.timeFor] using hcatch
            rw [Pattern.boardTrip?_id hvalid.ids_nodup hi, if_pos hready]
            exact ⟨_, rfl, Time.le_refl _⟩
          · left
            have hready : arrival + slack ≤
                ((n.pattern pattern).trip i).departureAt position := by
              simpa [Ruling.timeFor, hown] using hcatch
            exact hvalid.ordered.exists_boardFirst hposition hi hready

end Network

/-! ## §4. The time of the rule that prevails. -/

namespace Network

/-- One of the rule's trips is the first to be caught by the usual time, and it leaves
before the time that the rule sets is over. -/
def Undercuts (n : Network) (pattern position : Nat) (usual byRule : Time) (own : Nat) : Prop :=
  ∃ i, ((n.pattern pattern).trip i).id = own ∧ (n.pattern pattern).IsFirst position usual i ∧
    ((n.pattern pattern).trip i).departureAt position < byRule

variable {n : Network} {feeder : Feeder} {pattern position : Nat} {earliest arrival : Time}
  {kind : RuleKind} {minTransferTime : Duration} {b : Boarding}

/-- The trip of a rule is boarded by the rule in the time that it sets, or without the
rule as the first one by the usual time. -/
theorem Valid.ready_le_of_boardByRuling (hn : n.Valid)
    (hcan : (n.pattern pattern).canBoard position = true)
    (htrip : b.trip < (n.pattern pattern).trips.length)
    (hb : b = (n.pattern pattern).boarding b.trip position b.rule)
    (h : n.boardByRuling (.override kind minTransferTime (some b.tripId)) pattern position earliest
      arrival = .found b) :
    b.rule = some kind ∧ arrival + minTransferTime ≤ b.time ∨
      b.rule = none ∧ b.time < arrival + minTransferTime ∧
        (n.pattern pattern).IsFirst position earliest b.trip := by
  have hlength := Pattern.lt_length_of_canBoard hcan
  have hvalid := hn.pattern_of_lt_length hlength
  have hid : b.tripId = ((n.pattern pattern).trip b.trip).id := congrArg Boarding.tripId hb
  have htime : b.time = ((n.pattern pattern).trip b.trip).departureAt position :=
    congrArg Boarding.time hb
  change BoardingOutcome.orTarget _ _ = _ at h
  rw [hid, Pattern.boardTrip?_id hvalid.ids_nodup htrip, ← htime] at h
  by_cases hready : arrival + minTransferTime ≤ b.time
  · left
    rw [if_pos hready] at h
    rcases BoardingOutcome.orTarget_some_eq_found h with hown | ⟨-, hbefore⟩
    · exact ⟨congrArg Boarding.rule hown, hready⟩
    · -- The trip does not leave before itself.
      rw [htime] at hbefore
      exact absurd hbefore (Int.lt_irrefl _)
  · right
    rw [if_neg hready] at h
    obtain ⟨hfirst, heq⟩ := hvalid.ordered.isFirst_of_boardFirst (Nat.lt_of_succ_lt hlength) h
    exact ⟨congrArg Boarding.rule heq, Time.not_le.mp hready, hfirst⟩

/-- A trip that the rule covers is boarded by the rule in the time that it sets, unless it
undercuts that time. -/
theorem Valid.keepsRuleTime (hn : n.Valid) {target : Option Nat}
    (hruling : n.ruling feeder pattern position = .override kind minTransferTime target)
    (hfound : n.earliestBoarding pattern position earliest arrival (some feeder) = .found b)
    (hcovers : target.all (· = b.tripId) = true) :
    b.rule = some kind ∧ arrival + minTransferTime ≤ b.time ∧
        (∀ own ∈ target, ¬ n.Undercuts pattern position earliest (arrival + minTransferTime) own) ∨
      b.rule = none ∧ b.time < arrival + minTransferTime ∧ earliest ≤ b.time ∧
        ∃ own ∈ target, n.Undercuts pattern position earliest (arrival + minTransferTime) own := by
  obtain ⟨hcan, hboardable, -⟩ := Boardable.of_earliestBoarding hn hfound
  have hlength := Pattern.lt_length_of_canBoard hcan
  have hvalid := hn.pattern_of_lt_length hlength
  have htime : b.time = ((n.pattern pattern).trip b.trip).departureAt position :=
    congrArg Boarding.time hboardable.eq_boarding
  have hid : b.tripId = ((n.pattern pattern).trip b.trip).id :=
    congrArg Boarding.tripId hboardable.eq_boarding
  rw [earliestBoarding_some hcan, BoardingOutcome.unless_eq_found_iff, hruling] at hfound
  cases target with
  | none =>
      obtain ⟨hfirst, heq⟩ := hvalid.ordered.isFirst_of_boardFirst (Nat.lt_of_succ_lt hlength)
        hfound.1
      exact Or.inl ⟨congrArg Boarding.rule heq, htime ▸ hfirst.leaves, fun own hown => nomatch hown⟩
  | some own =>
      obtain rfl : own = b.tripId := by simpa using hcovers
      rcases hn.ready_le_of_boardByRuling hcan hboardable.trip_lt hboardable.eq_boarding hfound.1
        with ⟨hrule, hready⟩ | ⟨hrule, hbefore, hfirst⟩
      · refine Or.inl ⟨hrule, hready, ?_⟩
        rintro own hown ⟨i, hi, hfirst, hbefore⟩
        obtain rfl := Option.some.inj hown
        obtain rfl := Pattern.eq_of_trip_id hvalid.ids_nodup hfirst.lt hboardable.trip_lt
          (hi.trans hid)
        rw [← htime] at hbefore
        exact Time.not_lt.mpr hready hbefore
      · refine Or.inr ⟨hrule, hbefore, ?_, b.tripId, rfl, b.trip, hid.symm, hfirst, ?_⟩
        · rw [htime]
          exact hfirst.leaves
        · rw [← htime]
          exact hbefore

end Network

/-! ## §5. Compiled feeds. -/

/-- In both directions of every compiled feed: a trip that is found and covered by the
rule that prevails leaves no earlier than the time that the rule sets allows if and only
if it is boarded by the rule, and that is so unless the trip undercuts that time, which
takes a rule with more than the usual time. -/
theorem Feed.keepsRuleTime_iff {f : Feed} {t : Timetable} (hcompile : f.compile = .ok t)
    (d : Direction) {feeder : Feeder} {pattern position : Nat} {arrival : Time} {slack : Duration}
    {kind : RuleKind} {minTransferTime : Duration} {target : Option Nat}
    (hruling : (t.network d).ruling feeder pattern position =
      .override kind minTransferTime target) {b : Boarding}
    (hfound : (t.network d).earliestBoarding pattern position (arrival + slack) arrival
      (some feeder) = .found b)
    (hcovers : target.all (· = b.tripId) = true) :
    (arrival + minTransferTime ≤ b.time ↔ b.rule = some kind) ∧
      (arrival + minTransferTime ≤ b.time ↔ ∀ own ∈ target,
        ¬ (t.network d).Undercuts pattern position (arrival + slack) (arrival + minTransferTime)
          own) ∧
      (minTransferTime ≤ slack → arrival + minTransferTime ≤ b.time) := by
  have hn := Feed.compile_network_valid hcompile d
  rcases hn.keepsRuleTime hruling hfound hcovers with
    ⟨hrule, hready, hnone⟩ | ⟨hrule, hbefore, husual, own, hown, hundercuts⟩
  · exact ⟨iff_of_true hready hrule, iff_of_true hready hnone, fun _ => hready⟩
  · have hnot : ¬ arrival + minTransferTime ≤ b.time := Time.not_le.mpr hbefore
    refine ⟨iff_of_false hnot (by simp [hrule]),
      iff_of_false hnot fun hnone => hnone own hown hundercuts, fun hle => ?_⟩
    exact Time.le_trans (Time.add_le_add (Time.le_refl arrival) hle) husual

/-- In both directions of every compiled feed, where no rule forbids anything to one who
comes from a trip: if the ruling gives a trip of the pattern enough time, that trip or one
that leaves no later is found.  That is the time of the rules about the trip, unless the
trip is passed over. -/
theorem Feed.exists_earliestBoarding_le {f : Feed} {t : Timetable} (hcompile : f.compile = .ok t)
    (d : Direction) {feeder : Feeder}
    (hserves : t.forward.schedule.Serves feeder.pattern feeder.trip) {pattern position : Nat}
    (hcan : ((t.network d).pattern pattern).canBoard position = true)
    (hfree : ∀ r, (t.network d).Applies (some feeder) pattern position r → r.kind ≠ .notAllowed)
    (arrival : Time) (slack : Duration) {i : Nat}
    (hi : i < ((t.network d).pattern pattern).trips.length) :
    let trip := ((t.network d).pattern pattern).trip i
    let boarding := (t.network d).earliestBoarding pattern position (arrival + slack) arrival
      (some feeder)
    (arrival + ((t.network d).ruling feeder pattern position).timeFor slack trip.id ≤
        trip.departureAt position →
      ∃ b, boarding = .found b ∧ b.time ≤ trip.departureAt position) ∧
    ∀ time, (t.network d).Takes slack (some feeder) pattern position trip.id time →
      ¬ (t.network d).PassesOver slack feeder pattern position trip.id →
      arrival + time ≤ trip.departureAt position →
      ∃ b, boarding = .found b ∧ b.time ≤ trip.departureAt position := by
  intro trip boarding
  have hn := Feed.compile_network_valid hcompile d
  have hserves' := (Feed.serves_network_iff hcompile d).mpr hserves
  have hruling : (t.network d).ruling feeder pattern position ≠ .forbidden := by
    rw [ne_eq, Network.ruling_eq_forbidden_iff, hn.forbidsPattern_iff hserves']
    rintro ⟨r, hr, hkind, -⟩
    exact hfree r hr hkind
  have hbans : ∀ id, (t.network d).forbidsTrip feeder pattern position id = false := by
    intro id
    rw [Bool.eq_false_iff, ne_eq, hn.forbidsTrip_iff hserves']
    rintro ⟨r, hr, hkind, -⟩
    exact hfree r hr hkind
  have hfound : arrival + ((t.network d).ruling feeder pattern position).timeFor slack trip.id ≤
      trip.departureAt position → ∃ b, boarding = .found b ∧ b.time ≤ trip.departureAt position :=
    hn.exists_earliestBoarding_of_timeFor hcan hruling hbans hi
  refine ⟨hfound, fun time htakes hpasses hcatch => hfound ?_⟩
  have hle := hn.timeFor_le hserves' htakes hpasses hruling
  exact Time.le_trans (Time.add_le_add (Time.le_refl arrival) hle) hcatch

/-! ## §6. A bus and its trains. -/

/-- A bus that gets to the second stop at 600. -/
def PatternFeed.bus : PatternFeed where
  id := "bus"
  stops := [0, 1]
  noBoarding := []
  noAlighting := []
  minTransferTime := none
  trips := [⟨"b", [0, 600].map Time.saturate, [0, 600].map Time.saturate, 0, 1.0⟩]

/-- Four trains that leave there later. -/
def PatternFeed.train : PatternFeed where
  id := "train"
  stops := [1, 2]
  noBoarding := []
  noAlighting := []
  minTransferTime := none
  trips :=
    [⟨"early", [610, 900].map Time.saturate, [610, 900].map Time.saturate, 0, 1.0⟩,
     ⟨"middle", [630, 910].map Time.saturate, [630, 910].map Time.saturate, 0, 1.0⟩,
     ⟨"late", [680, 920].map Time.saturate, [680, 920].map Time.saturate, 0, 1.0⟩,
     ⟨"last", [800, 1000].map Time.saturate, [800, 1000].map Time.saturate, 0, 1.0⟩]

/-- Where the bus is left. -/
def Feeder.bus : Feeder := ⟨0, 0, 1⟩

namespace Rule

/-- The late train waits for those who need a minute and a half. -/
def lateWaits : Rule := ⟨⟨0, 1, some 0⟩, ⟨1, 0, some 3⟩, .guaranteed, Duration.saturate 90⟩

/-- The middle train waits in any case. -/
def middleWaits : Rule := ⟨⟨0, 1, some 0⟩, ⟨1, 0, some 2⟩, .guaranteed, Duration.zero⟩

/-- The early train waits for those who need ten seconds. -/
def earlyWaits : Rule := ⟨⟨0, 1, some 0⟩, ⟨1, 0, some 1⟩, .guaranteed, Duration.saturate 10⟩

end Rule

namespace Feed

open Checks

/-- The bus and the trains, with rules for changing from the one to the others. -/
def trains (rules : List RuleFeed) : Feed where
  stops := ["A", "B", "C"]
  patterns := [.bus, .train]
  footpaths := []
  rules

/-- With a train that waits longer than usual. -/
def lateTrain : Feed :=
  trains [⟨"b", 1, some "late", none, 0, .guaranteed, Duration.saturate 90⟩]

/-- With two trains that wait, each by a rule of its own. -/
def earlyTrain : Feed :=
  trains
    [⟨"b", 1, some "early", none, 0, .guaranteed, Duration.saturate 10⟩,
     ⟨"b", 1, some "middle", none, 0, .guaranteed, Duration.zero⟩]

/-- Both patterns under their numbers. -/
def trainsDraft : Draft := (Draft.empty.addListed .bus).addListed .train

/-- The timetable of the bus and the trains. -/
def trainsTimetable (rules : List Rule) : Timetable :=
  Timetable.ofSchedule #["A", "B", "C"] (trainsDraft.trips.map (·.1))
    ⟨3, trainsDraft.patterns, [], rules⟩

theorem compile_trains {rules : List RuleFeed} {resolved : List Rule}
    (h : rules.mapM trainsDraft.resolveRule = .ok resolved) :
    (trains rules).compile = .ok (trainsTimetable resolved) := by
  have hbus : Draft.empty.addPattern 3 .bus = .ok (Draft.empty.addListed .bus) :=
    Draft.Admits.addPattern_eq_addListed (by decide +kernel) (by decide +kernel)
  have htrain : (Draft.empty.addListed .bus).addPattern 3 .train = .ok trainsDraft :=
    Draft.Admits.addPattern_eq_addListed (by decide +kernel) (by decide +kernel)
  unfold Feed.compile
  simp only [trains, List.foldlM_cons, List.foldlM_nil, List.length_cons, List.length_nil,
    Nat.zero_add, Nat.reduceAdd, bind_eq_ok, pure_eq_ok]
  exact ⟨trainsDraft, ⟨_, hbus, _, htrain, rfl⟩, (), rfl, resolved, h, rfl⟩

theorem compile_lateTrain : lateTrain.compile = .ok (trainsTimetable [.lateWaits]) :=
  compile_trains (by decide +kernel)

theorem compile_earlyTrain :
    earlyTrain.compile = .ok (trainsTimetable [.earlyWaits, .middleWaits]) :=
  compile_trains (by decide +kernel)

theorem serves_bus (rules : List Rule) :
    (trainsTimetable rules).forward.schedule.Serves Feeder.bus.pattern Feeder.bus.trip := by
  refine ⟨_, List.mem_singleton.mpr rfl, rfl⟩

/-- The late train is the first one after the usual minute.  It is boarded without its
rule, ten seconds before the time that the rule sets is over. -/
theorem not_keepsRuleTime_lateTrain :
    let t := trainsTimetable [.lateWaits]
    let n := t.network .forward
    let arrival := Time.saturate 600
    lateTrain.compile = .ok t ∧
      t.forward.schedule.Serves Feeder.bus.pattern Feeder.bus.trip ∧
      n.ruling .bus 1 0 = .override .guaranteed (Duration.saturate 90) (some 3) ∧
      ∃ b, n.earliestBoarding 1 0 (arrival + Duration.saturate 60) arrival (some .bus) =
          .found b ∧
        b.tripId = 3 ∧ b.rule = none ∧ ¬ arrival + Duration.saturate 90 ≤ b.time := by
  intro t n arrival
  have hfound : n.earliestBoarding 1 0 (arrival + Duration.saturate 60) arrival (some .bus) =
      .found ((n.pattern 1).boarding 2 0 none) := by decide +kernel
  exact ⟨compile_lateTrain, serves_bus _, by decide +kernel, _, hfound, by decide +kernel, rfl,
    by decide +kernel⟩

/-- One who comes twenty seconds sooner boards the late train by its rule. -/
theorem keepsRuleTime_lateTrain :
    let n := (trainsTimetable [.lateWaits]).network .forward
    let arrival := Time.saturate 580
    let usual := arrival + Duration.saturate 60
    let byRule := arrival + Duration.saturate 90
    ∃ b, n.earliestBoarding 1 0 usual arrival (some .bus) = .found b ∧ b.tripId = 3 ∧
      (byRule ≤ b.time ↔ b.rule = some .guaranteed) ∧
      (byRule ≤ b.time ↔ ∀ own ∈ some 3, ¬ n.Undercuts 1 0 usual byRule own) ∧
      (Duration.saturate 90 ≤ Duration.saturate 60 → byRule ≤ b.time) := by
  intro n arrival usual byRule
  have hruling : n.ruling .bus 1 0 = .override .guaranteed (Duration.saturate 90) (some 3) := by
    decide +kernel
  have hfound : n.earliestBoarding 1 0 usual arrival (some .bus) =
      .found ((n.pattern 1).boarding 2 0 (some .guaranteed)) := by decide +kernel
  exact ⟨_, hfound, by decide +kernel,
    keepsRuleTime_iff compile_lateTrain .forward hruling hfound (by decide +kernel)⟩

/-- The early train leaves ten seconds after the bus has come, and by its own rule it
waits so long.  It is passed over for the middle one, whose rule is no more specific but
sets a shorter time, and which leaves twenty seconds later. -/
theorem not_exists_earliestBoarding_earlyTrain :
    let t := trainsTimetable [.earlyWaits, .middleWaits]
    let n := t.network .forward
    let arrival := Time.saturate 600
    let slack := Duration.saturate 60
    let early := (n.pattern 1).trip 0
    earlyTrain.compile = .ok t ∧
      t.forward.schedule.Serves Feeder.bus.pattern Feeder.bus.trip ∧
      (n.pattern 1).canBoard 0 = true ∧
      (∀ r, n.Applies (some .bus) 1 0 r → r.kind ≠ .notAllowed) ∧
      n.Takes slack (some .bus) 1 0 early.id (Duration.saturate 10) ∧
      arrival + Duration.saturate 10 ≤ early.departureAt 0 ∧
      n.PassesOver slack .bus 1 0 early.id ∧
      ¬ ∃ b, n.earliestBoarding 1 0 (arrival + slack) arrival (some .bus) = .found b ∧
        b.time ≤ early.departureAt 0 := by
  intro t n arrival slack early
  have hfound : n.earliestBoarding 1 0 (arrival + slack) arrival (some .bus) =
      .found ((n.pattern 1).boarding 1 0 (some .guaranteed)) := by decide +kernel
  have hruling : n.ruling .bus 1 0 = .override .guaranteed Duration.zero (some 2) := by
    decide +kernel
  have hfree : ∀ r ∈ n.schedule.rules, r.kind ≠ .notAllowed := by decide +kernel
  have honly : ∀ r ∈ n.schedule.rules, r.onward.covers early.id = true → r = .earlyWaits := by
    decide +kernel
  have hsets : n.Sets (some .bus) 1 0 early.id .earlyWaits := by
    refine ⟨⟨?_, _, rfl, ⟨rfl, rfl⟩, Or.inr rfl, rfl, rfl⟩, rfl, rfl⟩
    exact List.mem_cons_self
  have htakes : n.Takes slack (some .bus) 1 0 early.id (Duration.saturate 10) := by
    refine Or.inl ⟨_, hsets, fun q hq => ?_, rfl⟩
    rw [honly q hq.applies.1 hq.covers]
    exact Rule.not_isPreferredTo_self _
  refine ⟨compile_earlyTrain, serves_bus _, by decide +kernel, fun r hr => hfree r hr.1, htakes,
    by decide +kernel, ⟨_, _, _, hruling, by decide +kernel, _, htakes, by decide +kernel⟩, ?_⟩
  rintro ⟨b, hb, hle⟩
  obtain rfl := BoardingOutcome.found.inj (hfound.symm.trans hb)
  exact absurd hle (by decide +kernel)

/-- The middle train waits by the rule that prevails, and it is found. -/
theorem exists_earliestBoarding_earlyTrain :
    let n := (trainsTimetable [.earlyWaits, .middleWaits]).network .forward
    let arrival := Time.saturate 600
    let slack := Duration.saturate 60
    let middle := (n.pattern 1).trip 1
    (∃ time, n.Takes slack (some .bus) 1 0 middle.id time ∧
        ¬ n.PassesOver slack .bus 1 0 middle.id ∧ arrival + time ≤ middle.departureAt 0) ∧
      ∃ b, n.earliestBoarding 1 0 (arrival + slack) arrival (some .bus) = .found b ∧
        b.time ≤ middle.departureAt 0 := by
  intro n arrival slack middle
  have hn : n.Valid := Feed.compile_network_valid compile_earlyTrain .forward
  have hruling : n.ruling .bus 1 0 = .override .guaranteed Duration.zero (some 2) := by
    decide +kernel
  have hfree : ∀ r ∈ n.schedule.rules, r.kind ≠ .notAllowed := by decide +kernel
  obtain ⟨r, happlies, hoverrides, htime, htarget, hprevails⟩ :=
    hn.exists_rule_of_ruling (serves_bus _) hruling
  have htakes : n.Takes slack (some .bus) 1 0 middle.id r.minTransferTime := by
    refine Or.inl ⟨r, ⟨happlies, hoverrides, ?_⟩, fun q hq => hprevails q hq.applies hq.overrides,
      rfl⟩
    unfold RuleEnd.covers
    rw [htarget]
    decide +kernel
  have hpasses : ¬ n.PassesOver slack .bus 1 0 middle.id := by
    rintro ⟨kind, minTransferTime, own, hother, hne, -⟩
    rw [hruling] at hother
    obtain ⟨-, -, hown⟩ := Ruling.override.inj hother
    exact hne ((Option.some.inj hown).symm.trans (by decide +kernel))
  have hcatch : arrival + r.minTransferTime ≤ middle.departureAt 0 := by
    rw [htime]
    decide +kernel
  have hcan : (n.pattern 1).canBoard 0 = true := by decide +kernel
  have hmiddle : 1 < (n.pattern 1).trips.length := by decide +kernel
  obtain ⟨-, hfound⟩ := exists_earliestBoarding_le compile_earlyTrain .forward (serves_bus _) hcan
    (fun q hq => hfree q hq.1) arrival slack hmiddle
  exact ⟨⟨_, htakes, hpasses, hcatch⟩, hfound _ htakes hpasses hcatch⟩

end Feed

end TransitRouting
