/-
  TransitRouting.Proofs.Boarding.Outcomes
  ───────────────────────────────────────
  When a trip is found to board, when none is left, and when boarding is forbidden.

  Rules forbid or they set a time, and the two do not mix.  One that forbids the
  whole pattern ends the matter.  All others that forbid have no say in which trip
  is chosen: it is the one that a network without them chooses, and only then is it
  looked up whether it is banned.

  Main statements:

    • `Network.Valid.mem_applicableRules_iff` — the tables give the rules that are
      about a change, and no others;
    • `Network.earliestBoarding_some_eq_permissive` — a ban is looked up after the choice;
    • `Pattern.Ordered.isFirst_of_boardFirst` — what halving finds leaves first, and
      no other trip that can be caught is anywhere sooner;
    • `Feed.earliestBoarding_justified` — all three outcomes, for both directions of
      a compiled feed.
-/
import TransitRouting.Proofs.Boarding

namespace TransitRouting

/-! ## §1. Rules about a change. -/

/-- The rule is about changing from the feeder, where it is left, to a halt. -/
structure Rule.Governs (r : Rule) (f : Feeder) (pattern position : Nat) : Prop where
  left : r.feeder.pattern = f.pattern ∧ r.feeder.position = f.position
  trip : r.feeder.trip = none ∨ r.feeder.trip = some f.trip
  boarded : r.onward.pattern = pattern ∧ r.onward.position = position

/-- A rule that names the trip that is left is about its pattern: a trip runs on one pattern
only. -/
theorem Schedule.Valid.feeder_pattern_eq {s : Schedule} (hs : s.Valid) {r : Rule} (hr : r ∈ s.rules)
    {pattern trip : Nat} (htrip : r.feeder.trip = some trip) (hserves : s.Serves pattern trip) :
    r.feeder.pattern = pattern :=
  hs.home_unique ((hs.ends r hr).1.serves trip htrip) hserves

namespace Network

/-- A rule of the schedule is about the change.  One who does not come from a trip
makes none. -/
def Applies (n : Network) (feeder : Option Feeder) (pattern position : Nat) (r : Rule) : Prop :=
  r ∈ n.schedule.rules ∧ ∃ f ∈ feeder, r.Governs f pattern position

/-- A rule forbids changing to the trip. -/
def Bans (n : Network) (feeder : Option Feeder) (pattern position trip : Nat) : Prop :=
  ∃ r, n.Applies feeder pattern position r ∧ r.kind = .notAllowed ∧ r.onward.covers trip = true

/-- A rule forbids changing to any trip of the pattern. -/
def BansAll (n : Network) (feeder : Option Feeder) (pattern position : Nat) : Prop :=
  ∃ r, n.Applies feeder pattern position r ∧ r.kind = .notAllowed ∧ r.onward.trip = none

variable {n : Network} {f : Feeder} {feeder : Option Feeder} {pattern position trip : Nat}
  {earliest arrival : Time}

/-- The tables give the rules that are about a change, and no others. -/
theorem Valid.mem_applicableRules_iff (hn : n.Valid) (hf : n.schedule.Serves f.pattern f.trip)
    {r : Rule} :
    r ∈ n.applicableRules f pattern position ↔ n.Applies (some f) pattern position r := by
  rw [mem_applicableRules]
  constructor
  · rintro ⟨hr, hposition, htrip, hboarded⟩
    refine ⟨hr, f, rfl, ?_⟩
    rcases htrip with htrip | ⟨htrip, hpattern⟩
    · exact ⟨⟨hn.schedule.feeder_pattern_eq hr htrip hf, hposition⟩, .inr htrip, hboarded⟩
    · exact ⟨⟨hpattern, hposition⟩, .inl htrip, hboarded⟩
  · rintro ⟨hr, g, hg, ⟨hpattern, hposition⟩, htrip, hboarded⟩
    obtain rfl := Option.some.inj hg
    refine ⟨hr, hposition, ?_, hboarded⟩
    rcases htrip with htrip | htrip
    · exact .inr ⟨htrip, hpattern⟩
    · exact .inl htrip

theorem Valid.forbidsTrip_iff (hn : n.Valid) (hf : n.schedule.Serves f.pattern f.trip) :
    n.forbidsTrip f pattern position trip = true ↔ n.Bans (some f) pattern position trip := by
  unfold forbidsTrip Bans
  simp only [List.any_eq_true, Bool.and_eq_true, decide_eq_true_eq, hn.mem_applicableRules_iff hf]

/-- A rule that applies forbids the whole pattern. -/
def forbidsPattern (n : Network) (f : Feeder) (pattern position : Nat) : Bool :=
  (n.applicableRules f pattern position).any fun r =>
    r.kind = .notAllowed && r.onward.trip = none

theorem Valid.forbidsPattern_iff (hn : n.Valid) (hf : n.schedule.Serves f.pattern f.trip) :
    n.forbidsPattern f pattern position = true ↔ n.BansAll (some f) pattern position := by
  unfold forbidsPattern BansAll
  simp only [List.any_eq_true, Bool.and_eq_true, decide_eq_true_eq, hn.mem_applicableRules_iff hf]

/-! ## §2. Without the rules that forbid. -/

/-- The same network without the rules that forbid. -/
def permissive (n : Network) : Network :=
  { n with schedule :=
      { n.schedule with rules := n.schedule.rules.filter fun r => !decide (r.kind = .notAllowed) } }

theorem applicableRules_permissive :
    n.permissive.applicableRules f pattern position =
      (n.applicableRules f pattern position).filter fun r => !decide (r.kind = .notAllowed) := by
  unfold applicableRules rulesFrom permissive
  simp only [List.filter_append, List.filter_filter]
  congr 1 <;> exact List.filter_congr fun r _ => by ac_rfl

/-- None of the rules that are left forbids anything. -/
theorem any_applicableRules_permissive (p : Rule → Bool) :
    ((n.permissive.applicableRules f pattern position).any fun r =>
      r.kind = .notAllowed && p r) = false := by
  rw [applicableRules_permissive, List.any_filter, List.any_eq_false]
  intro r _
  cases decide (r.kind = .notAllowed) <;> simp

theorem forbidsTrip_permissive : n.permissive.forbidsTrip f pattern position trip = false :=
  any_applicableRules_permissive _

theorem forbidsPattern_permissive : n.permissive.forbidsPattern f pattern position = false :=
  any_applicableRules_permissive _

/-- The ruling forbids a change if and only if a rule forbids the whole pattern. -/
theorem ruling_eq_forbidden_iff :
    n.ruling f pattern position = .forbidden ↔ n.forbidsPattern f pattern position = true := by
  unfold ruling forbidsPattern
  simp only
  split
  · next hforbids => simp only [hforbids]
  · next hforbids =>
      simp only [hforbids]
      split <;> simp only [reduceCtorEq, Bool.false_eq_true]

/-- Rules that forbid single trips have no say in the ruling. -/
theorem ruling_permissive (h : n.forbidsPattern f pattern position = false) :
    n.permissive.ruling f pattern position = n.ruling f pattern position := by
  have hpermissive : n.permissive.forbidsPattern f pattern position = false :=
    forbidsPattern_permissive
  have hoverrides : (n.permissive.applicableRules f pattern position).filter (·.kind.overrides) =
      (n.applicableRules f pattern position).filter (·.kind.overrides) := by
    rw [applicableRules_permissive, List.filter_filter]
    refine List.filter_congr fun r _ => ?_
    cases r.kind <;> rfl
  unfold forbidsPattern at h hpermissive
  unfold ruling
  simp only [h, hpermissive, hoverrides]

theorem boardFirst_ne_forbidden (p : Pattern) (rule : Option RuleKind) :
    p.boardFirst position earliest rule ≠ .forbidden := by
  unfold Pattern.boardFirst
  split <;> exact nofun

theorem boardByRuling_eq_forbidden_iff (ruling : Ruling) :
    n.boardByRuling ruling pattern position earliest arrival = .forbidden ↔
      ruling = .forbidden := by
  constructor
  · intro h
    cases ruling with
    | unrestricted => exact absurd h (boardFirst_ne_forbidden _ _)
    | forbidden => rfl
    | override kind minTransferTime target =>
        cases target with
        | none => exact absurd h (boardFirst_ne_forbidden _ _)
        | some own =>
            change BoardingOutcome.orTarget _ _ = _ at h
            rw [BoardingOutcome.orTarget_eq_of_ne_found fun b hb => nomatch h.symm.trans hb] at h
            exact absurd h (boardFirst_ne_forbidden _ _)
  · rintro rfl
    rfl

/-- Without the rules that forbid nothing is forbidden. -/
theorem earliestBoarding_permissive_ne_forbidden :
    n.permissive.earliestBoarding pattern position earliest arrival feeder ≠ .forbidden := by
  cases hcan : (n.permissive.pattern pattern).canBoard position with
  | false =>
      rw [earliestBoarding_of_closed hcan]
      exact nofun
  | true =>
      cases feeder with
      | none =>
          rw [earliestBoarding_none hcan]
          exact boardFirst_ne_forbidden _ _
      | some f =>
          rw [earliestBoarding_some hcan,
            BoardingOutcome.unless_eq_self fun _ => forbidsTrip_permissive,
            ne_eq, boardByRuling_eq_forbidden_iff, ruling_eq_forbidden_iff,
            forbidsPattern_permissive]
          exact Bool.false_ne_true

/-- A ban of the whole pattern ends the matter.  Others are looked up after the trip is
chosen, in the same way as without them. -/
theorem earliestBoarding_some_eq_permissive (hcan : (n.pattern pattern).canBoard position = true) :
    n.earliestBoarding pattern position earliest arrival (some f) =
      if n.forbidsPattern f pattern position then .forbidden
      else
        (n.permissive.earliestBoarding pattern position earliest arrival (some f)).unless
          (n.forbidsTrip f pattern position) := by
  rw [earliestBoarding_some hcan]
  cases hforbids : n.forbidsPattern f pattern position with
  | true =>
      rw [ruling_eq_forbidden_iff.mpr hforbids]
      rfl
  | false =>
      have hcan' : (n.permissive.pattern pattern).canBoard position = true := hcan
      rw [earliestBoarding_some hcan', ruling_permissive hforbids,
        BoardingOutcome.unless_eq_self fun _ => forbidsTrip_permissive]
      rfl

end Network

/-! ## §3. The first trip. -/

/-- The trip of the pattern is the first to leave the position at `earliest` or later, and
no other that does gets to a later position sooner. -/
structure Pattern.IsFirst (p : Pattern) (position : Nat) (earliest : Time) (trip : Nat) :
    Prop where
  lt : trip < p.trips.length
  leaves : earliest ≤ (p.trip trip).departureAt position
  others_left : ∀ i < trip, (p.trip i).departureAt position < earliest
  arrival_le : ∀ i < p.trips.length, earliest ≤ (p.trip i).departureAt position →
    ∀ q, position < q → q < p.length → (p.trip trip).arrivalAt q ≤ (p.trip i).arrivalAt q

namespace Pattern

variable {p : Pattern} {position : Nat} {earliest : Time} {rule : Option RuleKind}

/-- What halving finds leaves first, and no other trip that can be caught is anywhere
sooner. -/
theorem Ordered.isFirst_of_boardFirst (h : p.Ordered) (hposition : position < p.length)
    {b : Boarding} (hfound : p.boardFirst position earliest rule = .found b) :
    p.IsFirst position earliest b.trip ∧ b = p.boarding b.trip position rule := by
  unfold boardFirst at hfound
  split at hfound
  · next trip htrip =>
      obtain rfl := BoardingOutcome.found.inj hfound
      obtain ⟨hlt, hleaves, hothers⟩ := h.of_firstDeparture? hposition htrip
      refine ⟨⟨hlt, hleaves, hothers, fun i hi hcatch q _ hq => ?_⟩, rfl⟩
      -- The other trip has not left, so it does not come before this one.
      have hle : trip ≤ i := Nat.le_of_not_lt fun hbefore =>
        Time.not_lt.mpr hcatch (hothers i hbefore)
      exact (h.keepsAhead hle hi q hq).1
  · cases hfound

/-- If nothing is found, all trips have left. -/
theorem Ordered.departed_of_boardFirst (h : p.Ordered) (hposition : position < p.length)
    {e : Time} (hnothing : p.boardFirst position earliest rule = .nothingAfter e) :
    e = earliest ∧ ∀ i < p.trips.length, (p.trip i).departureAt position < e := by
  unfold boardFirst at hnothing
  split at hnothing
  · cases hnothing
  · next hnone =>
      obtain rfl := BoardingOutcome.nothingAfter.inj hnothing
      exact ⟨rfl, (h.firstDeparture?_eq_none_iff hposition).mp hnone⟩

end Pattern

/-! ## §4. The outcomes. -/

namespace Network

variable {n : Network} {f : Feeder} {feeder : Option Feeder} {pattern position trip : Nat}
  {earliest arrival : Time} {b : Boarding}

/-- All that justifies boarding a trip. -/
structure Justified (n : Network) (feeder : Option Feeder) (pattern position : Nat)
    (earliest arrival : Time) (b : Boarding) : Prop where
  /-- Passengers may get on at the halt. -/
  canBoard : (n.pattern pattern).canBoard position = true
  /-- The trip is one of the pattern's. -/
  trip_lt : b.trip < (n.pattern pattern).trips.length
  /-- It is boarded there, where and when it leaves. -/
  eq_boarding : b = (n.pattern pattern).boarding b.trip position b.rule
  /-- No rule forbids it. -/
  not_bans : ¬ n.Bans feeder pattern position b.tripId
  /-- Without a rule it leaves no earlier than the traveller is ready. -/
  ready : b.rule = none → earliest ≤ b.time
  /-- A rule by which it is boarded gives enough time. -/
  by_rule : ∀ kind, b.rule = some kind →
    ∃ r, n.Applies feeder pattern position r ∧ r.kind = kind ∧ kind.overrides = true ∧
      r.onward.covers b.tripId = true ∧ arrival + r.minTransferTime ≤ b.time
  /-- Where no rule sets a time, it is the first trip. -/
  isFirst : (∀ r, n.Applies feeder pattern position r → r.kind.overrides = false) →
    b.rule = none ∧ (n.pattern pattern).IsFirst position earliest b.trip

theorem ruling_of_none_overrides
    (hnone : ∀ r ∈ n.applicableRules f pattern position, r.kind.overrides = false) :
    n.ruling f pattern position = .forbidden ∨ n.ruling f pattern position = .unrestricted := by
  have hfilter : (n.applicableRules f pattern position).filter (·.kind.overrides) = [] :=
    List.filter_eq_nil_iff.mpr fun r hr => by simp [hnone r hr]
  unfold ruling
  simp only [hfilter]
  split
  · exact .inl rfl
  · exact .inr rfl

/-- Where no rule sets a time, what is found is found without rules. -/
theorem Valid.boardFirst_of_earliestBoarding (hn : n.Valid)
    (hserves : ∀ g ∈ feeder, n.schedule.Serves g.pattern g.trip)
    (hcan : (n.pattern pattern).canBoard position = true)
    (hnone : ∀ r, n.Applies feeder pattern position r → r.kind.overrides = false)
    (h : n.earliestBoarding pattern position earliest arrival feeder = .found b) :
    (n.pattern pattern).boardFirst position earliest none = .found b := by
  cases feeder with
  | none => rwa [earliestBoarding_none hcan] at h
  | some f =>
      have hruling := ruling_of_none_overrides fun r hr =>
        hnone r ((hn.mem_applicableRules_iff (hserves f rfl)).mp hr)
      rw [earliestBoarding_some hcan, BoardingOutcome.unless_eq_found_iff] at h
      rcases hruling with hruling | hruling
      · rw [hruling] at h
        cases h.1
      · rw [hruling] at h
        exact h.1

theorem Valid.justified_of_earliestBoarding (hn : n.Valid)
    (hserves : ∀ g ∈ feeder, n.schedule.Serves g.pattern g.trip)
    (h : n.earliestBoarding pattern position earliest arrival feeder = .found b) :
    n.Justified feeder pattern position earliest arrival b := by
  obtain ⟨hcan, hboardable, hforbids⟩ := Boardable.of_earliestBoarding hn h
  have hposition := Pattern.lt_length_of_canBoard hcan
  have hintime := hboardable.inTime
  refine ⟨hcan, hboardable.trip_lt, hboardable.eq_boarding, ?_, ?_, ?_, ?_⟩
  · rintro ⟨r, ⟨hr, f, hf, hgoverns⟩, hbans⟩
    obtain rfl := hf
    have hbanned := (hn.forbidsTrip_iff (hserves f rfl)).mpr ⟨r, ⟨hr, f, rfl, hgoverns⟩, hbans⟩
    rw [hforbids f rfl] at hbanned
    cases hbanned
  · intro hrule
    unfold InTime at hintime
    rw [hrule] at hintime
    exact hintime
  · intro kind hrule
    unfold InTime at hintime
    rw [hrule] at hintime
    obtain ⟨f, rfl, hopens⟩ := hintime
    obtain ⟨r, hr, hoverrides, rfl, hcovers, hle⟩ := hopens.exists_rule
    rw [congrArg Boarding.position hboardable.eq_boarding] at hr
    exact ⟨r, (hn.mem_applicableRules_iff (hserves f rfl)).mp hr, rfl, hoverrides, hcovers, hle⟩
  · intro hnone
    have hfirst := hn.boardFirst_of_earliestBoarding hserves hcan hnone h
    obtain ⟨hisFirst, heq⟩ := (hn.pattern_of_lt_length hposition).ordered.isFirst_of_boardFirst
      (Nat.lt_of_succ_lt hposition) hfirst
    exact ⟨congrArg Boarding.rule heq, hisFirst⟩

/-- Boarding is forbidden where the whole pattern is, or where the trip is that would have
been chosen without the rules that forbid. -/
theorem Valid.earliestBoarding_eq_forbidden_iff (hn : n.Valid)
    (hserves : ∀ g ∈ feeder, n.schedule.Serves g.pattern g.trip) :
    n.earliestBoarding pattern position earliest arrival feeder = .forbidden ↔
      (n.pattern pattern).canBoard position = true ∧
        (n.BansAll feeder pattern position ∨
          ∃ b, n.permissive.earliestBoarding pattern position earliest arrival feeder = .found b ∧
            n.Bans feeder pattern position b.tripId) := by
  cases hcan : (n.pattern pattern).canBoard position with
  | false => simp [earliestBoarding_of_closed hcan]
  | true =>
      cases feeder with
      | none =>
          -- Nobody changes, so nothing is forbidden.
          rw [earliestBoarding_none hcan]
          constructor
          · exact fun h => absurd h (boardFirst_ne_forbidden _ _)
          · rintro ⟨-, ⟨r, ⟨-, f, hf, -⟩, -⟩ | ⟨b, -, r, ⟨-, f, hf, -⟩, -⟩⟩ <;> cases hf
      | some f =>
          have hf := hserves f rfl
          have hpermissive : n.permissive.earliestBoarding pattern position earliest arrival
              (some f) ≠ .forbidden := earliestBoarding_permissive_ne_forbidden
          rw [earliestBoarding_some_eq_permissive hcan, ← hn.forbidsPattern_iff hf]
          cases hforbids : n.forbidsPattern f pattern position with
          | true => simp
          | false =>
              simp only [Bool.false_eq_true, if_false, BoardingOutcome.unless_eq_forbidden_iff,
                hpermissive, false_or, true_and, hn.forbidsTrip_iff hf]

/-- If nothing is found at an open halt, then all trips leave too early: by the usual time
for changing, or by that of a rule for the whole pattern. -/
theorem Valid.departed_of_earliestBoarding (hn : n.Valid)
    (hserves : ∀ g ∈ feeder, n.schedule.Serves g.pattern g.trip)
    (hcan : (n.pattern pattern).canBoard position = true) {e : Time}
    (h : n.earliestBoarding pattern position earliest arrival feeder = .nothingAfter e) :
    (∀ i < (n.pattern pattern).trips.length,
        ((n.pattern pattern).trip i).departureAt position < e) ∧
      (e = earliest ∨ ∃ r, n.Applies feeder pattern position r ∧ r.kind.overrides = true ∧
        r.onward.trip = none ∧ e = arrival + r.minTransferTime) := by
  have hposition := Pattern.lt_length_of_canBoard hcan
  have hdeparted {ready : Time} {rule : Option RuleKind}
      (hnothing : (n.pattern pattern).boardFirst position ready rule = .nothingAfter e) :=
    (hn.pattern_of_lt_length hposition).ordered.departed_of_boardFirst
      (Nat.lt_of_succ_lt hposition) hnothing
  cases feeder with
  | none =>
      rw [earliestBoarding_none hcan] at h
      obtain ⟨he, hleft⟩ := hdeparted h
      exact ⟨hleft, .inl he⟩
  | some f =>
      rw [earliestBoarding_some hcan, BoardingOutcome.unless_eq_nothingAfter_iff] at h
      cases hruling : n.ruling f pattern position with
      | unrestricted =>
          rw [hruling] at h
          obtain ⟨he, hleft⟩ := hdeparted h
          exact ⟨hleft, .inl he⟩
      | forbidden =>
          rw [hruling] at h
          cases h
      | override kind minTransferTime target =>
          rw [hruling] at h
          cases target with
          | none =>
              obtain ⟨he, hleft⟩ := hdeparted h
              obtain ⟨r, hr, hoverrides, -, rfl, hall⟩ := of_ruling_eq_override hruling
              exact ⟨hleft, .inr ⟨r, (hn.mem_applicableRules_iff (hserves f rfl)).mp hr,
                hoverrides, hall, he⟩⟩
          | some own =>
              change BoardingOutcome.orTarget _ _ = _ at h
              rw [BoardingOutcome.orTarget_eq_of_ne_found fun b hb => nomatch h.symm.trans hb] at h
              obtain ⟨he, hleft⟩ := hdeparted h
              exact ⟨hleft, .inl he⟩

end Network

/-! ## §5. Compiled feeds. -/

/-- Both networks of a compiled feed have the same trips. -/
theorem Feed.serves_network_iff {f : Feed} {t : Timetable} (hcompile : f.compile = .ok t)
    (d : Direction) {pattern id : Nat} :
    (t.network d).schedule.Serves pattern id ↔ t.forward.schedule.Serves pattern id := by
  cases d with
  | forward => exact Iff.rfl
  | reverse =>
      show t.reverse.schedule.Serves pattern id ↔ _
      rw [Feed.compile_reverse hcompile]
      exact Schedule.reversed_serves _ _ _

/-- In both directions of every compiled feed, for one who comes from any trip or from
none: a trip that is found is justified; boarding is forbidden exactly at an open halt
where a rule bans the whole pattern, or the trip that would be chosen without the rules
that forbid; and nothing is found only at a closed halt, or if all trips leave too
early. -/
theorem Feed.earliestBoarding_justified {f : Feed} {t : Timetable} (hcompile : f.compile = .ok t)
    (d : Direction) {feeder : Option Feeder}
    (hserves : ∀ g ∈ feeder, t.forward.schedule.Serves g.pattern g.trip) (pattern position : Nat)
    (earliest arrival : Time) :
    (∀ b, (t.network d).earliestBoarding pattern position earliest arrival feeder = .found b →
        (t.network d).Justified feeder pattern position earliest arrival b) ∧
      ((t.network d).earliestBoarding pattern position earliest arrival feeder = .forbidden ↔
        ((t.network d).pattern pattern).canBoard position = true ∧
          ((t.network d).BansAll feeder pattern position ∨
            ∃ b, (t.network d).permissive.earliestBoarding pattern position earliest arrival
                feeder = .found b ∧ (t.network d).Bans feeder pattern position b.tripId)) ∧
      ∀ e, (t.network d).earliestBoarding pattern position earliest arrival feeder =
          .nothingAfter e →
        ((t.network d).pattern pattern).canBoard position = false ∧ e = earliest ∨
          (∀ i < ((t.network d).pattern pattern).trips.length,
              (((t.network d).pattern pattern).trip i).departureAt position < e) ∧
            (e = earliest ∨ ∃ r, (t.network d).Applies feeder pattern position r ∧
              r.kind.overrides = true ∧ r.onward.trip = none ∧
                e = arrival + r.minTransferTime) := by
  have hn := Feed.compile_network_valid hcompile d
  have hserves' : ∀ g ∈ feeder, (t.network d).schedule.Serves g.pattern g.trip :=
    fun g hg => (Feed.serves_network_iff hcompile d).mpr (hserves g hg)
  refine ⟨fun b hb => hn.justified_of_earliestBoarding hserves' hb,
    hn.earliestBoarding_eq_forbidden_iff hserves', fun e he => ?_⟩
  cases hcan : ((t.network d).pattern pattern).canBoard position with
  | false =>
      rw [Network.earliestBoarding_of_closed hcan] at he
      exact .inl ⟨rfl, (BoardingOutcome.nothingAfter.inj he).symm⟩
  | true => exact .inr (hn.departed_of_earliestBoarding hserves' hcan he)

/-- Where a bus ends, a train waits for it, and nobody may change to a ferry. -/
def Feed.harbour : Feed where
  stops := ["A", "B", "C"]
  patterns :=
    [{ id := "bus"
       stops := [0, 1]
       noBoarding := []
       noAlighting := []
       minTransferTime := none
       trips := [⟨"b", [0, 600].map Time.saturate, [0, 600].map Time.saturate, 0, 1.0⟩] },
     { id := "train"
       stops := [1, 2]
       noBoarding := []
       noAlighting := []
       minTransferTime := none
       trips := [⟨"t", [630, 900].map Time.saturate, [630, 900].map Time.saturate, 0, 1.0⟩] },
     { id := "ferry"
       stops := [1, 2]
       noBoarding := []
       noAlighting := []
       minTransferTime := none
       trips := [⟨"f", [700, 1000].map Time.saturate, [700, 1000].map Time.saturate, 0, 1.0⟩] }]
  footpaths := []
  rules :=
    [⟨"b", 1, some "t", none, 0, .guaranteed, Duration.zero⟩,
     ⟨"b", 1, some "f", none, 0, .notAllowed, Duration.zero⟩]

/-- The train is boarded by its rule, sooner than usual.  The ferry would be chosen if
nothing was forbidden, so boarding it is. -/
theorem Feed.earliestBoarding_harbour :
    let n := Feed.harbour.timetable.network .forward
    let bus : Feeder := ⟨0, 0, 1⟩
    (∃ b, n.earliestBoarding 1 0 (Time.saturate 660) (Time.saturate 600) (some bus) = .found b ∧
        b.time = Time.saturate 630 ∧ b.rule = some .guaranteed ∧
        n.Justified (some bus) 1 0 (Time.saturate 660) (Time.saturate 600) b) ∧
      n.earliestBoarding 2 0 (Time.saturate 660) (Time.saturate 600) (some bus) = .forbidden ∧
      (n.BansAll (some bus) 2 0 ∨
        ∃ b, n.permissive.earliestBoarding 2 0 (Time.saturate 660) (Time.saturate 600)
          (some bus) = .found b ∧ n.Bans (some bus) 2 0 b.tripId) := by
  intro n bus
  have hcompile : Feed.harbour.compile = .ok Feed.harbour.timetable :=
    Feed.compile_eq_timetable (by decide +kernel)
  have hserves : ∀ g ∈ some bus,
      Feed.harbour.timetable.forward.schedule.Serves g.pattern g.trip := by
    intro g hg
    obtain rfl := Option.some.inj hg
    unfold Schedule.Serves
    decide +kernel
  have htrain : n.earliestBoarding 1 0 (Time.saturate 660) (Time.saturate 600) (some bus) =
      .found ((n.pattern 1).boarding 0 0 (some .guaranteed)) := by decide +kernel
  have hferry : n.earliestBoarding 2 0 (Time.saturate 660) (Time.saturate 600) (some bus) =
      .forbidden := by decide +kernel
  obtain ⟨hfound, -, -⟩ := Feed.earliestBoarding_justified hcompile .forward hserves 1 0
    (Time.saturate 660) (Time.saturate 600)
  obtain ⟨-, hforbidden, -⟩ := Feed.earliestBoarding_justified hcompile .forward hserves 2 0
    (Time.saturate 660) (Time.saturate 600)
  exact ⟨⟨_, htrain, by decide +kernel, rfl, hfound _ htrain⟩, hferry, (hforbidden.mp hferry).2⟩

end TransitRouting
