/-
  TransitRouting.Proofs.Iteration.Barred
  ──────────────────────────────────────
  Chains of rides that a search misses because others may not change.

  Labels compete on time, transfers, cost and groups alone, and not on what they
  may board next.  So one who comes on a trip from which a connection is
  forbidden keeps out one who comes later and could make it.  Only then is a chain
  lost: if at each of its changes everybody who could be there as early may make
  it, the chain is matched.

  Main statements:

    • `SearchContext.Way.exists_chain` — every label of a ride stands for a chain
      that obeys the rules;
    • `Iteration.delivers_of_not_bars` — a chain is matched unless those who stand
      in its place may not change;
    • `Iteration.delivers_of_openToRivals` — a chain is matched if its changes may
      be made by all who could be there as early;
    • `Iteration.not_delivers_bySlow` — a chain that is missed.
-/
import TransitRouting.Proofs.Iteration.Chains
import TransitRouting.Proofs.Iteration.EarliestArrival

namespace TransitRouting

/-! ## §1. Connections that are closed. -/

/-- A rule forbids to change from the feeder to any trip at the halt. -/
def Schedule.Closes (s : Schedule) (f : Feeder) (pattern position : Nat) : Prop :=
  ∃ r ∈ s.rules, r.kind = .notAllowed ∧ r.feeder.trip = some f.trip ∧
    r.feeder.position = f.position ∧ r.onward = ⟨pattern, position, none⟩

instance (s : Schedule) (f : Feeder) (pattern position : Nat) :
    Decidable (s.Closes f pattern position) :=
  inferInstanceAs (Decidable (∃ r ∈ s.rules, _ ∧ _ ∧ _ ∧ _))

/-- No rule forbids any of the changes. -/
def Schedule.LeavesOpen (s : Schedule) (changes : List Change) : Prop :=
  ∀ c ∈ changes, ¬ s.Closes c.before.feeder c.pattern c.position

instance (s : Schedule) (changes : List Change) : Decidable (s.LeavesOpen changes) :=
  inferInstanceAs (Decidable (∀ c ∈ changes, ¬ s.Closes c.before.feeder c.pattern c.position))

theorem Schedule.LeavesOpen.concat {s : Schedule} {changes : List Change} (h : s.LeavesOpen changes)
    {c : Change} (hc : ¬ s.Closes c.before.feeder c.pattern c.position) :
    s.LeavesOpen (changes ++ [c]) := by
  intro c' hc'
  rcases List.mem_append.mp hc' with hc' | hc'
  · exact h c' hc'
  · obtain rfl := List.mem_singleton.mp hc'
    exact hc

/-- All rules forbid to change from one trip to a pattern. -/
def Schedule.OnlyCloses (s : Schedule) : Prop :=
  ∀ r ∈ s.rules, r.kind = .notAllowed ∧ r.feeder.trip.isSome = true ∧ r.onward.trip = none

namespace Network

variable {n : Network} {f : Feeder} {pattern position : Nat}

/-- If all rules forbid changing from one trip to a pattern, none applies to a
connection that is not forbidden. -/
theorem applicableRules_of_not_closes (hcloses : n.schedule.OnlyCloses)
    (h : ¬ n.schedule.Closes f pattern position) : n.applicableRules f pattern position = [] := by
  rw [List.eq_nil_iff_forall_not_mem]
  intro r hr
  obtain ⟨hmem, hposition, htrip, hpattern, hboard⟩ := mem_applicableRules.mp hr
  obtain ⟨hkind, hnamed, hopen⟩ := hcloses r hmem
  rcases htrip with htrip | ⟨hnone, -⟩
  · have honward : r.onward = ⟨pattern, position, none⟩ := by
      cases hend : r.onward
      simp_all
    exact h ⟨r, hmem, hkind, htrip, hposition, honward⟩
  · rw [hnone] at hnamed
    cases hnamed

/-- From a feeder for which the halt is closed every trip there is forbidden. -/
theorem forbidsTrip_of_closes (h : n.schedule.Closes f pattern position) (trip : Nat) :
    n.forbidsTrip f pattern position trip = true := by
  obtain ⟨r, hr, hkind, htrip, hposition, honward⟩ := h
  have happlies : r ∈ n.applicableRules f pattern position :=
    mem_applicableRules.mpr ⟨hr, hposition, .inl htrip, by rw [honward], by rw [honward]⟩
  exact List.any_eq_true.mpr ⟨r, happlies, by simp [hkind, honward, RuleEnd.covers]⟩

/-- Where all rules close connections, whoever boards was ready in time. -/
theorem InTime.earliest_le (hcloses : n.schedule.OnlyCloses) {feeder : Option Feeder}
    {earliest arrival : Time} {b : Boarding} (h : n.InTime feeder pattern earliest arrival b) :
    earliest ≤ b.time := by
  unfold InTime at h
  split at h
  · exact h
  · obtain ⟨_, -, hopens⟩ := h
    obtain ⟨r, hr, hoverrides, -⟩ := hopens.exists_rule
    obtain ⟨hkind, -⟩ := hcloses r (mem_applicableRules.mp hr).1
    rw [hkind] at hoverrides
    cases hoverrides

end Network

/-- Rules of a feed that all forbid changing to a pattern do so on the timetable. -/
theorem Feed.compile_onlyCloses {f : Feed} {t : Timetable} (hcompile : f.compile = .ok t)
    (hrules : ∀ q ∈ f.rules, q.kind = .notAllowed ∧ q.onwardTrip = none) :
    t.forward.schedule.OnlyCloses := by
  intro r hr
  obtain ⟨raw, hraw, hkind, hopen⟩ := Feed.exists_rule_of_mem hcompile hr
  obtain ⟨hnotAllowed, hnone⟩ := hrules raw hraw
  exact ⟨hkind.trans hnotAllowed, Feed.compile_feeder_isSome hcompile hr, hopen hnone⟩

/-! ## §2. Labels stand for chains that obey the rules. -/

/-- The label, in the given round, is that of a ride which ends so. -/
structure LabelStore.StandsFor (s : LabelStore) (round : Nat) (l : Label) (x : Alighting) :
    Prop where
  rides_eq : x.rides = round
  stop_eq : x.stop = l.stop
  time_eq : x.time = l.arrival
  feeder_eq : s.arrivingTrip l = some x.feeder

namespace SearchContext

variable {ctx : SearchContext} {departure : Time} {s : LabelStore}

/-- Where all rules close connections, whoever boards a trip was ready in time for it,
and was not forbidden to change to it. -/
theorem boards_of_riderFrom? (hn : ctx.network.Valid) (hcloses : ctx.network.schedule.OnlyCloses)
    {f : Option Feeder} {round pattern board : Nat} {place : LabelPlace} {l : Label} {r : Rider}
    (h : ctx.riderFrom? f round pattern board place l = some r) :
    r.boarding.trip < (ctx.network.pattern pattern).trips.length ∧
      (ctx.network.pattern pattern).canBoard board = true ∧
      (if round = 1 then l.arrival else l.arrival + ctx.slackFor (ctx.network.pattern pattern)) ≤
        ((ctx.network.pattern pattern).trip r.boarding.trip).departureAt board ∧
      ∀ feeder, f = some feeder → ¬ ctx.network.schedule.Closes feeder pattern board := by
  obtain ⟨-, hfound⟩ := of_riderFrom? h
  obtain ⟨hboard, ⟨htrip, hboarding, hinTime⟩, hallowed⟩ :=
    Network.Boardable.of_earliestBoarding hn hfound
  have htime : r.boarding.time =
      ((ctx.network.pattern pattern).trip r.boarding.trip).departureAt board :=
    congrArg Boarding.time hboarding
  refine ⟨htrip, hboard, htime ▸ hinTime.earliest_le hcloses, ?_⟩
  intro feeder hfeeder hclosed
  have hforbids := Network.forbidsTrip_of_closes hclosed r.boarding.tripId
  rw [hallowed feeder hfeeder] at hforbids
  cases hforbids

/-- Whoever gets off has a label for the end of that ride. -/
theorem standsFor_alight (hn : ctx.network.Valid) {f : Option Feeder}
    {round pattern board : Nat} {place : LabelPlace} {l : Label} {r : Rider}
    (h : ctx.riderFrom? f round pattern board place l = some r) (alight : Nat) :
    s.StandsFor round (ctx.alight round pattern alight r)
      (ctx.network.alighting round pattern r.boarding.trip alight) := by
  obtain ⟨-, hfound⟩ := of_riderFrom? h
  obtain ⟨-, ⟨-, hboarding, -⟩, -⟩ := Network.Boardable.of_earliestBoarding hn hfound
  have hid : r.boarding.tripId = ((ctx.network.pattern pattern).trip r.boarding.trip).id :=
    congrArg Boarding.tripId hboarding
  refine ⟨rfl, rfl, rfl, ?_⟩
  show some (Feeder.mk pattern r.boarding.tripId alight) = _
  rw [hid]
  rfl

/-- A way without rides is that of a connector from the origin. -/
theorem Way.mem_seeds_of_zero {l : Label} {rest : List Label}
    (h : ctx.Way departure s 0 (l :: rest)) : l ∈ ctx.seeds departure := by
  generalize hzero : 0 = round at h
  cases h with
  | access hl => exact hl
  | ride => cases hzero
  | walk hbefore _ _ hride => exact absurd hzero.symm (hbefore.round_ne_zero hride)

/-- Where nobody walks and all rules close connections, the label of a ride stands
for the end of a chain none of whose changes is forbidden. -/
theorem Way.exists_chain (hn : ctx.network.Valid) (hcloses : ctx.network.schedule.OnlyCloses)
    (hpaths : ctx.network.schedule.footpaths = []) {round : Nat} {way : List Label}
    (h : ctx.Way departure s round way) :
    ∀ {l rest}, way = l :: rest → round ≠ 0 →
      ∃ changes x, ctx.Chain departure changes x ∧ ctx.network.schedule.LeavesOpen changes ∧
        s.StandsFor round l x := by
  induction h with
  | access => exact fun _ hround => absurd rfl hround
  | @ride round before rest place pattern board alight r hway _ _ hstop hrider hlt hlength hcan
      ih =>
      intro l _ heq _
      cases heq
      obtain ⟨htrip, hboard, hcatch, hallowed⟩ := boards_of_riderFrom? hn hcloses hrider
      have hride : ctx.network.Offers pattern r.boarding.trip board alight :=
        ⟨htrip, hboard, hcan, hlt, hlength⟩
      have hends := standsFor_alight (s := s) hn hrider alight
      by_cases hfirst : round = 0
      · -- The first trip is boarded where a connector leads.
        subst hfirst
        obtain ⟨c, index, hindex, hconnector, harrival, -⟩ := mem_seeds hway.mem_seeds_of_zero
        have hc : c ∈ ctx.access := List.mem_of_getElem? (List.mem_zipIdx_iff_getElem?.mp hindex)
        rw [if_pos rfl, harrival] at hcatch
        exact ⟨[], _, .start hc hride (hstop.trans hconnector) hcatch,
          fun _ hchange => absurd hchange List.not_mem_nil, hends⟩
      · -- Every later one is boarded where the ride before ends.
        obtain ⟨changes, x, hchain, hleaves, rfl, hxstop, hxtime, hxfeeder⟩ := ih rfl hfirst
        have hlater : x.rides + 1 ≠ 1 := by omega
        have hready : (Change.mk x none pattern board).time = before.arrival := hxtime
        rw [if_neg hlater, ← hready] at hcatch
        exact ⟨changes ++ [⟨x, none, pattern, board⟩],
          ctx.network.alighting (x.rides + 1) pattern r.boarding.trip alight,
          .change hchain rfl (fun _ hpath => by cases hpath) hride (hstop.trans hxstop.symm) hcatch,
          hleaves.concat (hallowed x.feeder hxfeeder), hends⟩
  | walk _ _ _ _ hpath =>
      -- There is no footpath to walk.
      have hmem := (hn.mem_footpathsFrom hpath).1
      rw [hpaths] at hmem
      cases hmem

end SearchContext

/-! ## §3. Those who stand in the place of a chain. -/

/-- Of those who are at the stop of the change as early and with no more rides, all
came on another trip, or left it at another halt, and may not change. -/
def LabelStore.Bars (s : LabelStore) (n : Network) (c : Change) : Prop :=
  s.ReachedBy c.stop c.before.rides c.time ∧
    ∀ k ≤ c.before.rides, ∀ e ∈ s.bestLabels k c.stop, e.2.arrival ≤ c.time →
      ∃ feeder ∈ s.arrivingTrip e.2, feeder ≠ c.before.feeder ∧
        n.schedule.Closes feeder c.pattern c.position

/-- The change may be made by all who could be at its stop as early and with no more
rides, by a chain that no rule forbids. -/
def SearchContext.OpenToRivals (ctx : SearchContext) (departure : Time) (c : Change) : Prop :=
  ∀ ⦃others y⦄, ctx.Chain departure others y → ctx.network.schedule.LeavesOpen others →
    y.stop = c.stop → y.rides ≤ c.before.rides → y.time ≤ c.time →
    ¬ ctx.network.schedule.Closes y.feeder c.pattern c.position

namespace SearchContext

variable {ctx : SearchContext} {departure : Time} {s : LabelStore}

/-- If all who could be there may change, nobody who is there keeps the chain out. -/
theorem OpenToRivals.not_bars {c : Change} (h : ctx.OpenToRivals departure c)
    (hn : ctx.network.Valid) (hcloses : ctx.network.schedule.OnlyCloses)
    (hpaths : ctx.network.schedule.footpaths = []) {last : Nat}
    (hs : ctx.StoreSound departure s last) : ¬ s.Bars ctx.network c := by
  intro hbars
  obtain ⟨⟨k, hk, ⟨place, e⟩, he, hearly⟩, hall⟩ := hbars
  obtain ⟨feeder, hfeeder, -, hclosed⟩ := hall k hk _ he hearly
  have hround : k ≠ 0 := by
    rintro rfl
    rw [hs.arrivingTrip_of_round_zero he] at hfeeder
    cases hfeeder
  obtain ⟨rest, hway⟩ := hs.realised (hs.soundTo.valid.label?_of_mem_bestLabels he)
  rw [(LabelStore.mem_bestLabels.mp he).1] at hway
  obtain ⟨others, y, hchain, hleaves, hrides, hstop, htime, hcame⟩ :=
    hway.exists_chain hn hcloses hpaths rfl hround
  have hsame : feeder = y.feeder := Option.some.inj (hfeeder.symm.trans hcame)
  exact h hchain hleaves (hstop.trans (hs.soundTo.valid.stop_of_mem_bestLabels he)) (hrides ▸ hk)
    (htime ▸ hearly) (hsame ▸ hclosed)

end SearchContext

/-- Without footpaths, and if all rules close connections, a chain that no rule forbids
is matched at the destination, unless at one of its changes those who stand in its
place may not change. -/
theorem Iteration.delivers_of_not_bars {ctx : SearchContext} (hctx : ctx.Valid)
    (hpaths : ctx.network.schedule.footpaths = []) (hcloses : ctx.network.schedule.OnlyCloses)
    (hends : ∀ a ∈ ctx.access, ∀ c ∈ ctx.egress, a.stop ≠ c.stop) {interrupt : Interrupt}
    {departure : Time} (hrun : (Iteration.run ctx interrupt departure).cancelled = false)
    {changes : List Change} {x : Alighting} (hchain : ctx.Chain departure changes x)
    (hlimit : x.rides ≤ ctx.maxRounds) {c : Connector} (hc : c ∈ ctx.egress)
    (hstop : x.stop = c.stop) (hleaves : ctx.network.schedule.LeavesOpen changes)
    (hkept : ∀ change ∈ changes,
      ¬ (Iteration.run ctx interrupt departure).store.Bars ctx.network change) :
    (Iteration.run ctx interrupt departure).Delivers (x.time + c.duration) := by
  have hstore := (run_sound hctx interrupt departure).1.store
  -- Without footpaths nobody walks, and nobody comes on foot to the destination.
  have hnoWalks : ∀ path ∈ ctx.network.schedule.footpaths, ∀ stop, path.destination ≠ stop := by
    rw [hpaths]
    intro path hpath
    cases hpath
  have hlast : ¬ (Iteration.run ctx interrupt departure).store.Hides x := by
    apply hstore.not_hides hctx.network
    · intro a ha
      rw [hstop]
      exact hends a ha c hc
    · intro path hpath
      exact hnoWalks path hpath x.stop
  have hdirect : ∀ change ∈ changes, change.walk.isSome = true →
      ¬ (Iteration.run ctx interrupt departure).store.Hides change.before := by
    intro change hchange hwalk
    obtain ⟨path, hpath⟩ := hchain.exists_footpath change hchange hwalk
    exact absurd rfl (hnoWalks path hpath path.destination)
  have hunruled : ∀ change ∈ changes,
      (Iteration.run ctx interrupt departure).store.Unruled ctx.network change := by
    intro change hchange hready
    by_contra hnone
    apply hkept change hchange
    refine ⟨hready, ?_⟩
    intro k hk e he hearly
    -- Were nobody kept from changing by a rule for another trip, no rule would apply.
    by_contra hfree
    apply hnone
    refine ⟨k, hk, e, he, hearly, ?_⟩
    intro feeder hfeeder
    apply Network.applicableRules_of_not_closes hcloses
    intro hclosed
    by_cases hsame : feeder = change.before.feeder
    · exact hleaves change hchange (hsame ▸ hclosed)
    · exact hfree ⟨feeder, hfeeder, hsame, hclosed⟩
  exact hchain.delivers hctx hrun hlimit hdirect hunruled hlast hc hstop

/-- On every timetable without footpaths all of whose rules forbid changing from
a trip to a pattern, and where no connector leads from the origin to a stop from
which one leads to the destination, an iteration that searches forward and was
not interrupted finds a destination label that is as early as any chain within
the limit, if no rule forbids a change of the chain, nor the same change to others
who could be there as early with no more rides. -/
theorem Iteration.delivers_of_openToRivals {f : Feed} {t : Timetable}
    (hcompile : f.compile = .ok t) (hpaths : f.footpaths = [])
    (hrules : ∀ q ∈ f.rules, q.kind = .notAllowed ∧ q.onwardTrip = none)
    {ctx : SearchContext} (hnetwork : ctx.network = t.forward)
    (haccess : ∀ c ∈ ctx.access, c.stop < t.stopCount)
    (hends : ∀ a ∈ ctx.access, ∀ c ∈ ctx.egress, a.stop ≠ c.stop) {interrupt : Interrupt}
    {departure : Time} (hrun : (Iteration.run ctx interrupt departure).cancelled = false)
    {changes : List Change} {x : Alighting} (hchain : ctx.Chain departure changes x)
    (hlimit : x.rides ≤ ctx.maxRounds) {c : Connector} (hc : c ∈ ctx.egress)
    (hstop : x.stop = c.stop) (hleaves : ctx.network.schedule.LeavesOpen changes)
    (hopen : ∀ change ∈ changes, ctx.OpenToRivals departure change) :
    (Iteration.run ctx interrupt departure).Delivers (x.time + c.duration) := by
  have hdirection : ctx.network = t.network .forward := hnetwork
  have hctx : ctx.Valid := Feed.context_valid hcompile hdirection haccess
  have hnoPaths : ctx.network.schedule.footpaths = [] :=
    hdirection ▸ Feed.compile_no_footpaths hcompile hpaths .forward
  have hcloses : ctx.network.schedule.OnlyCloses :=
    hnetwork ▸ Feed.compile_onlyCloses hcompile hrules
  obtain ⟨hsound, hdeparture⟩ := run_sound hctx interrupt departure
  have hstore := hsound.store
  rw [hdeparture] at hstore
  refine delivers_of_not_bars hctx hnoPaths hcloses hends hrun hchain hlimit hc hstop hleaves ?_
  intro change hchange
  exact (hopen change hchange).not_bars hctx.network hcloses hnoPaths hstore

/-- Two lines from the first stop to the second, and one from the last.  One may change
to the line onward from the slow one and from the coach, but not from the fast one. -/
def Feed.barred : Feed where
  stops := ["A", "B", "C", "D"]
  patterns :=
    [{ id := "slow"
       stops := [0, 1]
       noBoarding := []
       noAlighting := []
       minTransferTime := none
       trips := [⟨"s", [0, 110].map Time.saturate, [0, 110].map Time.saturate, 0, 1.0⟩] },
     { id := "fast"
       stops := [0, 1]
       noBoarding := []
       noAlighting := []
       minTransferTime := none
       trips := [⟨"f", [100, 105].map Time.saturate, [100, 105].map Time.saturate, 0, 1.0⟩] },
     { id := "onward"
       stops := [1, 2]
       noBoarding := []
       noAlighting := []
       minTransferTime := none
       trips := [⟨"o", [200, 300].map Time.saturate, [200, 300].map Time.saturate, 0, 1.0⟩] },
     { id := "coach"
       stops := [3, 1]
       noBoarding := []
       noAlighting := []
       minTransferTime := none
       trips := [⟨"c", [0, 104].map Time.saturate, [0, 104].map Time.saturate, 0, 1.0⟩] }]
  footpaths := []
  rules := [⟨"f", 1, none, some "onward", 0, .notAllowed, Duration.zero⟩]

/-- A search to where the line onward ends. -/
def SearchContext.onBarred (access : List Connector) : SearchContext where
  network := Feed.barred.timetable.forward
  access
  egress := [⟨2, Duration.zero, none⟩]
  pricing := Pricing.ofWeights CostWeights.standard
  merge := GroupMerge.union
  maxRounds := 6
  transferSlack := Duration.saturate 60
  tieBreak := .firstFound

/-- Going by the coach, or by the fast line if it can be reached. -/
def SearchContext.byCoach : SearchContext :=
  .onBarred [⟨0, Duration.saturate 50, none⟩, ⟨3, Duration.zero, none⟩]

/-- Going by the slow line or the fast one. -/
def SearchContext.bySlow : SearchContext := .onBarred [⟨0, Duration.zero, none⟩]

/-- The change from the coach to the line onward. -/
def Change.fromCoach : Change := ⟨Feed.barred.timetable.forward.alighting 1 3 0 1, none, 2, 0⟩

/-- The change from the slow line to the one onward. -/
def Change.fromSlow : Change := ⟨Feed.barred.timetable.forward.alighting 1 0 0 1, none, 2, 0⟩

/-- Whoever is at the second stop as early as the coach may change there. -/
theorem SearchContext.openToRivals_fromCoach (departure : Time) :
    SearchContext.byCoach.OpenToRivals departure .fromCoach := by
  have hall : ∀ p < Feed.barred.timetable.forward.schedule.patterns.size,
      ∀ i < (Feed.barred.timetable.forward.pattern p).trips.length,
        ∀ a < (Feed.barred.timetable.forward.pattern p).length,
          (Feed.barred.timetable.forward.alighting 1 p i a).time ≤ Change.fromCoach.time →
            ¬ Feed.barred.timetable.forward.schedule.Closes
              (Feed.barred.timetable.forward.alighting 1 p i a).feeder 2 0 := by decide +kernel
  intro others y hchain _ _ hrides htime
  cases hchain with
  | start _ hride _ _ =>
      exact hall _ (Schedule.lt_size_of_lt_length hride.alight_lt) _ hride.trip_lt _ hride.alight_lt
        htime
  | change h _ _ _ _ _ =>
      -- A second ride is one too many.
      have hpos := h.rides_pos
      exact absurd (Nat.le_of_succ_le_succ hrides) (Nat.not_le_of_gt hpos)

/-- By the coach one gets to the destination, although the fast line could be reached
and one may not change from it. -/
theorem Iteration.delivers_byCoach :
    (Iteration.run .byCoach Interrupt.never Time.midnight).Delivers (Time.saturate 300) := by
  have hcompile : Feed.barred.compile = .ok Feed.barred.timetable :=
    Feed.compile_eq_timetable (by decide +kernel)
  have hnetwork : SearchContext.byCoach.network = Feed.barred.timetable.forward := rfl
  have haccess : ∀ c ∈ SearchContext.byCoach.access, c.stop < Feed.barred.timetable.stopCount := by
    decide +kernel
  have hrun : (Iteration.run .byCoach Interrupt.never Time.midnight).cancelled = false := by
    decide +kernel
  have hcoach : Feed.barred.timetable.forward.Offers 3 0 0 1 := by decide +kernel
  have hfirst : SearchContext.byCoach.Chain Time.midnight []
      (Feed.barred.timetable.forward.alighting 1 3 0 1) :=
    .start (List.mem_cons_of_mem _ List.mem_cons_self) hcoach (by decide +kernel)
      (by decide +kernel)
  have hchain : SearchContext.byCoach.Chain Time.midnight [.fromCoach]
      (Feed.barred.timetable.forward.alighting 2 2 0 1) :=
    .change hfirst rfl (by decide +kernel) (by decide +kernel) (by decide +kernel)
      (by decide +kernel)
  have hopen : ∀ change ∈ [Change.fromCoach],
      SearchContext.byCoach.OpenToRivals Time.midnight change := by
    intro change hchange
    obtain rfl := List.mem_singleton.mp hchange
    exact SearchContext.openToRivals_fromCoach Time.midnight
  have hegress : (⟨2, Duration.zero, none⟩ : Connector) ∈ SearchContext.byCoach.egress :=
    List.mem_cons_self
  have hdelivers := Iteration.delivers_of_openToRivals hcompile rfl (by decide +kernel) hnetwork
    haccess (by decide +kernel) hrun hchain (by decide +kernel) hegress (by decide +kernel)
    (by decide +kernel) hopen
  have htime : (Feed.barred.timetable.forward.alighting 2 2 0 1).time + Duration.zero =
      Time.saturate 300 := by decide +kernel
  rw [htime] at hdelivers
  exact hdelivers

/-- From the slow line one may change as well, but one who comes by the fast line is
earlier, and the destination is not reached. -/
theorem Iteration.not_delivers_bySlow :
    Feed.barred.compile = .ok Feed.barred.timetable ∧ Feed.barred.footpaths = [] ∧
      (∀ q ∈ Feed.barred.rules, q.kind = .notAllowed ∧ q.onwardTrip = none) ∧
      (∀ a ∈ SearchContext.bySlow.access, ∀ c ∈ SearchContext.bySlow.egress, a.stop ≠ c.stop) ∧
      (Iteration.run .bySlow Interrupt.never Time.midnight).cancelled = false ∧
      ∃ changes x, SearchContext.bySlow.Chain Time.midnight changes x ∧
        x.rides ≤ SearchContext.bySlow.maxRounds ∧
        SearchContext.bySlow.network.schedule.LeavesOpen changes ∧
        ∃ c ∈ SearchContext.bySlow.egress, x.stop = c.stop ∧
          ¬ (Iteration.run .bySlow Interrupt.never Time.midnight).Delivers
            (x.time + c.duration) := by
  have hslow : Feed.barred.timetable.forward.Offers 0 0 0 1 := by decide +kernel
  have hfirst : SearchContext.bySlow.Chain Time.midnight []
      (Feed.barred.timetable.forward.alighting 1 0 0 1) :=
    .start List.mem_cons_self hslow (by decide +kernel) (by decide +kernel)
  have hchain : SearchContext.bySlow.Chain Time.midnight [.fromSlow]
      (Feed.barred.timetable.forward.alighting 2 2 0 1) :=
    .change hfirst rfl (by decide +kernel) (by decide +kernel) (by decide +kernel)
      (by decide +kernel)
  exact ⟨Feed.compile_eq_timetable (by decide +kernel), rfl, by decide +kernel, by decide +kernel,
    by decide +kernel, _, _, hchain, by decide +kernel, by decide +kernel, _, List.mem_cons_self,
    by decide +kernel, by decide +kernel⟩

end TransitRouting
