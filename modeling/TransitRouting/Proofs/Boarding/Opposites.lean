/-
  TransitRouting.Proofs.Boarding.Opposites
  ────────────────────────────────────────
  Rules are about the same connections in both networks of a timetable.

  Rules are looked up under the trip that is left, or under its pattern.  In the
  reversed network the trip that was boarded is left, so a rule that is found
  under a trip in one network may be found under a pattern in the other, and in
  another place among the rules.  What counts is that both find each rule about
  a connection exactly once.

  Main statements:

    • `Network.rulesFor_perm` — the lookup finds the rules about a
      connection, each of them as often as it is in the schedule;
    • `Rule.joins_reversed` — a rule joins two halts exactly if its reversal joins
      them the other way;
    • `Feed.terms_opposite` — on which terms one may change in the one network
      and in the other.
-/
import Mathlib.Data.Multiset.MapFold
import TransitRouting.Proofs.Boarding.Outcomes

namespace TransitRouting

/-! ## §1. Rules about a connection. -/

/-- The end lies at the halt and covers the trip. -/
def RuleEnd.isFor (e : RuleEnd) (pattern position trip : Nat) : Bool :=
  e.isAt pattern position && e.covers trip

namespace Rule

/-- The rule is about leaving the feeder where it is left and boarding the trip at the
halt. -/
def joins (r : Rule) (f : Feeder) (pattern position trip : Nat) : Bool :=
  r.feeder.isFor f.pattern f.position f.trip && r.onward.isFor pattern position trip

/-- What the rule lays down: its kind and its minimum time. -/
def terms (r : Rule) : RuleKind × Duration := (r.kind, r.minTransferTime)

end Rule

namespace Network

/-- The rules that apply to changing from a feeder to a halt and cover the trip. -/
def rulesFor (n : Network) (f : Feeder) (pattern position trip : Nat) : List Rule :=
  (n.applicableRules f pattern position).filter (·.onward.covers trip)

/-- The terms on which one changes from a feeder to a trip at a halt, each as often as
there are rules that lay it down. -/
def terms (n : Network) (f : Feeder) (pattern position trip : Nat) :
    Multiset (RuleKind × Duration) :=
  ((n.rulesFor f pattern position trip).map Rule.terms : List (RuleKind × Duration))

variable {n r : Network} {f : Feeder} {pattern position trip : Nat}

theorem mem_terms {kind : RuleKind} {time : Duration} :
    (kind, time) ∈ n.terms f pattern position trip ↔
      ∃ rule ∈ n.applicableRules f pattern position, rule.kind = kind ∧
        rule.minTransferTime = time ∧ rule.onward.covers trip = true := by
  unfold terms rulesFor Rule.terms
  simp only [Multiset.mem_coe, List.mem_map, List.mem_filter, Prod.mk.injEq]
  constructor
  · rintro ⟨rule, ⟨hrule, hcovers⟩, hkind, htime⟩
    exact ⟨rule, hrule, hkind, htime, hcovers⟩
  · rintro ⟨rule, hrule, hkind, htime, hcovers⟩
    exact ⟨rule, ⟨hrule, hcovers⟩, hkind, htime⟩

/-- A trip is forbidden exactly if that is among the terms. -/
theorem forbidsTrip_iff_exists_terms :
    n.forbidsTrip f pattern position trip = true ↔
      ∃ time, (RuleKind.notAllowed, time) ∈ n.terms f pattern position trip := by
  unfold forbidsTrip
  simp only [mem_terms, List.any_eq_true, Bool.and_eq_true, decide_eq_true_eq]
  constructor
  · rintro ⟨rule, hrule, hkind, hcovers⟩
    exact ⟨_, rule, hrule, hkind, rfl, hcovers⟩
  · rintro ⟨-, rule, hrule, hkind, -, hcovers⟩
    exact ⟨rule, hrule, hkind, hcovers⟩

/-- The lookup finds the rules about a connection, each of them as often as it is in the
schedule. -/
theorem rulesFor_perm (hn : n.schedule.Valid) (hf : n.schedule.Serves f.pattern f.trip)
    (pattern position trip : Nat) :
    (n.rulesFor f pattern position trip).Perm
      (n.schedule.rules.filter (·.joins f pattern position trip)) := by
  -- Those under the trip and those under the pattern are the two halves of all.
  refine List.Perm.trans (List.Perm.of_eq ?_) (List.filter_append_perm (·.feeder.trip.isSome) _)
  unfold rulesFor applicableRules rulesFrom
  simp only [List.filter_append, List.filter_filter]
  congr 1 <;> refine List.filter_congr fun rule hrule => Bool.eq_iff_iff.mpr ?_
  · cases htrip : rule.feeder.trip with
    | none => simp
    | some id =>
        have hpattern : id = f.trip → rule.feeder.pattern = f.pattern :=
          fun hid => hn.feeder_pattern_eq hrule (htrip.trans (congrArg some hid)) hf
        simp only [Rule.joins, RuleEnd.isFor, RuleEnd.isAt, RuleEnd.covers, htrip]
        grind
  · cases htrip : rule.feeder.trip with
    | none =>
        simp only [Rule.joins, RuleEnd.isFor, RuleEnd.isAt, RuleEnd.covers, htrip]
        grind
    | some id => simp

/-- The terms are those of the rules about the connection. -/
theorem terms_eq (hn : n.schedule.Valid) (hf : n.schedule.Serves f.pattern f.trip)
    (pattern position trip : Nat) :
    n.terms f pattern position trip =
      ((n.schedule.rules.filter (·.joins f pattern position trip)).map Rule.terms : List _) :=
  Multiset.coe_eq_coe.mpr ((rulesFor_perm hn hf pattern position trip).map Rule.terms)

end Network

/-! ## §2. The reversed network. -/

section Reversal

variable {pattern position : Nat}

theorem Numbering.opposite_inj {length position other : Nat} (hposition : position < length)
    (hother : other < length) :
    opposite length position = opposite length other ↔ position = other := by
  unfold opposite
  omega

/-- An end lies at a halt exactly if the end reversed lies at the opposite one. -/
theorem RuleEnd.isFor_reversed (length : Nat → Nat) {e : RuleEnd} (he : e.position < length e.pattern)
    (hposition : position < length pattern) (trip : Nat) :
    (e.reversed length).isFor pattern (Numbering.opposite (length pattern) position) trip =
      e.isFor pattern position trip := by
  have hat : (e.reversed length).isAt pattern (Numbering.opposite (length pattern) position) =
      e.isAt pattern position := by
    unfold isAt reversed
    by_cases hpattern : e.pattern = pattern
    · subst hpattern
      simp only [Numbering.opposite_inj he hposition]
    · simp [hpattern]
  unfold isFor
  rw [hat]
  rfl

/-- A rule joins two halts exactly if its reversal joins them the other way. -/
theorem Rule.joins_reversed (length : Nat → Nat) {rule : Rule}
    (hfeeder : rule.feeder.position < length rule.feeder.pattern)
    (honward : rule.onward.position < length rule.onward.pattern) {f : Feeder}
    (hleft : f.position < length f.pattern) (hboarded : position < length pattern) (trip : Nat) :
    (rule.reversed length).joins ⟨pattern, trip, Numbering.opposite (length pattern) position⟩
        f.pattern (Numbering.opposite (length f.pattern) f.position) f.trip =
      rule.joins f pattern position trip := by
  show ((rule.onward.reversed length).isFor _ _ _ && (rule.feeder.reversed length).isFor _ _ _) = _
  rw [RuleEnd.isFor_reversed length honward hboarded, RuleEnd.isFor_reversed length hfeeder hleft,
    Bool.and_comm]
  rfl

end Reversal

namespace Network

variable {n r : Network} {f : Feeder} {pattern position trip : Nat}

/-- One changes from a feeder to a trip on the terms on which, in the reversed network, one
changes from that trip to the feeder's. -/
theorem terms_eq_reversed (hn : n.schedule.Valid) (hr : r.schedule = n.schedule.reversed)
    (hf : n.schedule.Serves f.pattern f.trip)
    (hleft : f.position < (n.pattern f.pattern).length) (htrip : n.schedule.Serves pattern trip)
    (hboarded : position < (n.pattern pattern).length) :
    n.terms f pattern position trip =
      r.terms ⟨pattern, trip, Numbering.opposite (n.pattern pattern).length position⟩ f.pattern
        (Numbering.opposite (n.pattern f.pattern).length f.position) f.trip := by
  have hrules : r.schedule.rules =
      n.schedule.rules.map (Rule.reversed fun number => (n.pattern number).length) := by
    rw [hr]
    rfl
  have hserves : r.schedule.Serves pattern trip := by
    rw [hr]
    exact (Schedule.reversed_serves _ _ _).mpr htrip
  rw [terms_eq hn hf, terms_eq (hr ▸ hn.reversed) hserves, hrules, List.filter_map, List.map_map]
  -- What a rule lays down is not changed by reversing it.
  show _ = Multiset.ofList ((n.schedule.rules.filter _).map Rule.terms)
  refine congrArg _ (congrArg _ (List.filter_congr fun rule hrule => ?_))
  obtain ⟨hfeeder, honward⟩ := hn.ends rule hrule
  exact (Rule.joins_reversed (fun number => (n.pattern number).length) hfeeder.position_lt
    honward.position_lt hleft hboarded trip).symm

end Network

/-! ## §3. Both networks of a timetable. -/

/-- In the timetable of every feed, for every trip that is left at one of its halts and
every trip that is boarded at one of its own: the rules that apply and cover the trip
boarded lay down the same terms, each as often, as those that in the reversed network
apply to leaving that trip and cover the one that was left; and they forbid the change
in both networks or in neither. -/
theorem Feed.terms_opposite {feed : Feed} {t : Timetable} (hcompile : feed.compile = .ok t)
    {f : Feeder} (hserves : t.forward.schedule.Serves f.pattern f.trip)
    (hleft : f.position < (t.forward.pattern f.pattern).length) {pattern position trip : Nat}
    (htrip : t.forward.schedule.Serves pattern trip)
    (hboarded : position < (t.forward.pattern pattern).length) :
    let opposite (pattern position : Nat) :=
      Numbering.opposite (t.forward.pattern pattern).length position
    let feeder : Feeder := ⟨pattern, trip, opposite pattern position⟩
    t.forward.terms f pattern position trip =
        t.reverse.terms feeder f.pattern (opposite f.pattern f.position) f.trip ∧
      t.forward.forbidsTrip f pattern position trip =
        t.reverse.forbidsTrip feeder f.pattern (opposite f.pattern f.position) f.trip := by
  intro opposite feeder
  have hterms : t.forward.terms f pattern position trip =
      t.reverse.terms feeder f.pattern (opposite f.pattern f.position) f.trip :=
    Network.terms_eq_reversed (Feed.compile_network_valid hcompile .forward).schedule
      (Feed.compile_reverse hcompile) hserves hleft htrip hboarded
  refine ⟨hterms, Bool.eq_iff_iff.mpr ?_⟩
  rw [Network.forbidsTrip_iff_exists_terms, Network.forbidsTrip_iff_exists_terms, hterms]

/-- A harbour where trains are timed, and where one of them waits and is closed all the
same. -/
def Feed.closedTrain : Feed :=
  { Feed.harbour with
    rules :=
      [⟨"b", 1, some "t", none, 0, .guaranteed, Duration.saturate 90⟩,
       ⟨"b", 1, none, some "train", 0, .timed, Duration.saturate 5⟩,
       ⟨"b", 1, some "t", none, 0, .notAllowed, Duration.zero⟩] }

/-- All three rules are found under the bus.  In the reversed network two are found under
the train and the other one under its pattern, after them. -/
theorem Feed.terms_opposite_closedTrain :
    let t := Feed.closedTrain.timetable
    let bus : Feeder := ⟨0, 0, 1⟩
    let train : Feeder := ⟨1, 1, 1⟩
    (t.forward.rulesFor bus 1 0 1).map Rule.kind = [.guaranteed, .timed, .notAllowed] ∧
      (t.reverse.rulesFor train 0 0 0).map Rule.kind = [.guaranteed, .notAllowed, .timed] ∧
      t.forward.terms bus 1 0 1 = t.reverse.terms train 0 0 0 ∧
      t.forward.forbidsTrip bus 1 0 1 = true ∧ t.reverse.forbidsTrip train 0 0 0 = true := by
  intro t bus train
  have hcompile : Feed.closedTrain.compile = .ok t := Feed.compile_eq_timetable (by decide +kernel)
  have hbus : t.forward.schedule.Serves bus.pattern bus.trip := by
    unfold Schedule.Serves
    decide +kernel
  have htrain : t.forward.schedule.Serves 1 1 := by
    unfold Schedule.Serves
    decide +kernel
  have hleft : bus.position < (t.forward.pattern bus.pattern).length := by decide +kernel
  have hboarded : 0 < (t.forward.pattern 1).length := by decide +kernel
  have hforbids : t.forward.forbidsTrip bus 1 0 1 = true := by decide +kernel
  have hfirst : Numbering.opposite (t.forward.pattern 0).length 1 = 0 := by decide +kernel
  have hlast : Numbering.opposite (t.forward.pattern 1).length 0 = 1 := by decide +kernel
  have hopposite := Feed.terms_opposite hcompile hbus hleft htrain hboarded
  simp only [bus, hfirst, hlast] at hopposite
  obtain ⟨hterms, hsame⟩ := hopposite
  exact ⟨by decide +kernel, by decide +kernel, hterms, hforbids, hsame.symm.trans hforbids⟩

end TransitRouting
