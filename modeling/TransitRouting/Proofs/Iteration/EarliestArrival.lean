/-
  TransitRouting.Proofs.Iteration.EarliestArrival
  ───────────────────────────────────────────────
  Without footpaths and rules, an iteration finds the earliest arrivals.

  For every stop and every number of rounds the store answers with the earliest
  time at which the stop can be reached by that many rides: nothing is lost to
  dominance, to riders that cover each other, to halving among the trips, to
  the one scan that serves several positions, or to the early end of the
  rounds.

  Main statements:

    • `SearchContext.Way.reaches` — every label is a chain of rides;
    • `SearchContext.Reaches.reachedBy` — every chain of rides is matched;
    • `Iteration.isEarliest_bestArrival?_run` — the store answers with the
      earliest arrival.
-/
import TransitRouting.Proofs.Iteration.Invariant

namespace TransitRouting

/-! ## §1. Chains of rides. -/

namespace SearchContext

/-- A stop can be reached by a time with a number of rides.  The first trip may
be boarded at once, and every later one after the usual time for changing. -/
inductive Reaches (ctx : SearchContext) (departure : Time) : Nat → Nat → Time → Prop
  /-- By a connector from the origin. -/
  | access {c : Connector} (hc : c ∈ ctx.access) :
      Reaches ctx departure 0 c.stop (departure + c.duration)
  /-- By one more ride, between halts where passengers may board and alight. -/
  | ride {rides stop : Nat} {t : Time} {pattern trip board alight : Nat}
      (h : Reaches ctx departure rides stop t)
      (hstop : (ctx.network.pattern pattern).stopAt board = stop)
      (hboard : (ctx.network.pattern pattern).canBoard board = true) (hlt : board < alight)
      (hlength : alight < (ctx.network.pattern pattern).length)
      (halight : (ctx.network.pattern pattern).canAlight alight = true)
      (htrip : trip < (ctx.network.pattern pattern).trips.length)
      (hcatch : (if rides = 0 then t else t + ctx.slackFor (ctx.network.pattern pattern)) ≤
        ((ctx.network.pattern pattern).trip trip).departureAt board) :
      Reaches ctx departure (rides + 1) ((ctx.network.pattern pattern).stopAt alight)
        (((ctx.network.pattern pattern).trip trip).arrivalAt alight)

variable {ctx : SearchContext} {departure : Time} {s : LabelStore}

/-- Without rules and footpaths, every label stands for a chain of rides. -/
theorem Way.reaches (hn : ctx.network.Valid) (hrules : ctx.network.schedule.rules = [])
    (hpaths : ctx.network.schedule.footpaths = []) {round : Nat} {way : List Label}
    (h : ctx.Way departure s round way) :
    ∀ {l rest}, way = l :: rest → ctx.Reaches departure round l.stop l.arrival := by
  induction h with
  | access hl =>
      intro l rest heq
      cases heq
      obtain ⟨c, index, hc, hstop, harrival, -⟩ := mem_seeds hl
      rw [hstop, harrival]
      exact .access (List.mem_of_getElem? (List.mem_zipIdx_iff_getElem?.mp hc))
  | @ride round p before place pattern board alight r hway _ _ hstop hrider hlt hlength hcan ih =>
      intro l rest heq
      cases heq
      obtain ⟨-, hfound⟩ := of_riderFrom? hrider
      obtain ⟨hboard, ⟨htrip, hboarding, hinTime⟩, -⟩ :=
        Network.Boardable.of_earliestBoarding hn hfound
      refine .ride (ih rfl) hstop hboard hlt hlength hcan htrip ?_
      have htime : r.boarding.time =
          ((ctx.network.pattern pattern).trip r.boarding.trip).departureAt board :=
        congrArg Boarding.time hboarding
      rw [← htime]
      unfold Network.InTime at hinTime
      split at hinTime
      · simpa using hinTime
      · -- No rule could have opened the trip up.
        obtain ⟨f, -, hopens⟩ := hinTime
        obtain ⟨q, hq, -⟩ := hopens.exists_rule
        rw [Network.applicableRules_of_no_rules hrules] at hq
        cases hq
  | @walk round p before place path _ _ _ _ hpath _ =>
      -- There is no footpath to walk.
      have hmem := (hn.mem_footpathsFrom hpath).1
      rw [hpaths] at hmem
      cases hmem

/-! ## §2. Every chain of rides is matched. -/

/-- Every chain of rides within the limit is matched by a best label. -/
theorem Reaches.reachedBy (hn : ctx.network.Valid) (hrules : ctx.network.schedule.rules = [])
    (hstarted : ∀ l ∈ ctx.seeds departure, s.ReachedBy l.stop 0 l.arrival) {limit : Nat}
    (hclosed : ∀ round < limit, ctx.Closed s round) {rides stop : Nat} {t : Time}
    (h : ctx.Reaches departure rides stop t) (hlimit : rides ≤ limit) :
    s.ReachedBy stop rides t := by
  induction h with
  | @access c hc =>
      obtain ⟨l, hl, hlstop, harrival⟩ := exists_seed hc
      rw [← hlstop, ← harrival]
      exact hstarted l hl
  | @ride rides stop t pattern trip board alight h hstop hboard hlt hlength halight htrip hcatch
      ih =>
      obtain ⟨k, hk, e, he, hearly⟩ := ih (Nat.le_of_succ_le hlimit)
      refine reachedBy_of_catch hn hclosed ⟨k, hk, e, he, hearly, ?_⟩ hlimit hstop hboard hlt
        hlength halight htrip hcatch
      intro feeder _
      exact Network.applicableRules_of_no_rules hrules

end SearchContext

/-! ## §3. The earliest arrival. -/

theorem Feed.compile_no_rules {f : Feed} {t : Timetable} (h : f.compile = .ok t)
    (hrules : f.rules = []) (d : Direction) : (t.network d).schedule.rules = [] := by
  obtain ⟨draft, rules, -, -, hmap, rfl⟩ := Feed.compile_eq_ok h
  rw [hrules, List.mapM_nil, Checks.pure_eq_ok] at hmap
  subst hmap
  cases d <;> rfl

theorem Feed.compile_no_footpaths {f : Feed} {t : Timetable} (h : f.compile = .ok t)
    (hpaths : f.footpaths = []) (d : Direction) : (t.network d).schedule.footpaths = [] := by
  obtain ⟨draft, rules, -, -, -, rfl⟩ := Feed.compile_eq_ok h
  cases d
  · exact hpaths
  · show f.footpaths.map Footpath.reversed = []
    rw [hpaths]
    rfl

/-- On every timetable without footpaths and rules, in either direction and for
every number of rounds within the limit, the store of an iteration that was not
interrupted answers with the earliest time at which a stop can be reached by
that many rides; with none if it cannot. -/
theorem Iteration.isEarliest_bestArrival?_run {f : Feed} {t : Timetable}
    (hcompile : f.compile = .ok t) (hpaths : f.footpaths = []) (hrules : f.rules = [])
    {ctx : SearchContext} {direction : Direction} (hnetwork : ctx.network = t.network direction)
    (haccess : ∀ c ∈ ctx.access, c.stop < t.stopCount) {interrupt : Interrupt}
    {departure : Time} (hrun : (Iteration.run ctx interrupt departure).cancelled = false)
    (stop : Nat) {rounds : Nat} (hrounds : rounds ≤ ctx.maxRounds) :
    Time.IsEarliest (fun time => ∃ rides ≤ rounds, ctx.Reaches departure rides stop time)
      ((Iteration.run ctx interrupt departure).store.bestArrival? stop rounds) := by
  have hn : ctx.network.Valid := hnetwork ▸ Feed.compile_network_valid hcompile direction
  have hrules' : ctx.network.schedule.rules = [] :=
    hnetwork ▸ Feed.compile_no_rules hcompile hrules direction
  have hpaths' : ctx.network.schedule.footpaths = [] :=
    hnetwork ▸ Feed.compile_no_footpaths hcompile hpaths direction
  have hctx : ctx.Valid := by
    refine ⟨hn, fun c hc => ?_⟩
    rw [hnetwork, Feed.compile_stopCount hcompile]
    exact haccess c hc
  obtain ⟨hsound, hdeparture⟩ := run_sound hctx interrupt departure
  have hstore := hsound.store
  have hstarted := hsound.started
  rw [hdeparture] at hstore hstarted
  -- What the store holds is attained, and whatever is attained is matched.
  refine LabelStore.isEarliest_bestArrival? ?_ ?_
  · intro k hk hgiven he
    obtain ⟨place, e⟩ := hgiven
    have hround : place.round = k := (LabelStore.mem_bestLabels.mp he).1
    obtain ⟨rest, hway⟩ :=
      hstore.realised (hstore.soundTo.valid.label?_of_mem_bestLabels he)
    rw [hround] at hway
    have hstop := hstore.soundTo.valid.stop_of_mem_bestLabels he
    exact ⟨k, hk, hstop ▸ hway.reaches hn hrules' hpaths' rfl⟩
  · intro time hgiven
    obtain ⟨rides, hle, hreaches⟩ := hgiven
    have hreached := hreaches.reachedBy hn hrules' hstarted (run_closed hctx hrun)
      (Nat.le_trans hle hrounds)
    exact hreached.mono hle (Time.le_refl time)

/-- A line that comes back to where it started, and another one from the stop
where it turned. -/
def Feed.detour : Feed where
  stops := ["A", "B", "C"]
  patterns :=
    [{ id := "loop"
       stops := [0, 1, 0, 2]
       noBoarding := []
       noAlighting := []
       minTransferTime := none
       trips := [⟨"l", [0, 300, 600, 1200].map Time.saturate,
         [0, 300, 600, 1200].map Time.saturate, 0, 1.0⟩] },
     { id := "express"
       stops := [1, 2]
       noBoarding := []
       noAlighting := []
       minTransferTime := some (Duration.saturate 60)
       trips := [⟨"x", [360, 700].map Time.saturate, [360, 700].map Time.saturate, 0, 1.0⟩] }]
  footpaths := []
  rules := []

theorem Feed.compile_detour : Feed.detour.compile = .ok Feed.detour.timetable :=
  Feed.compile_eq_timetable (by decide +kernel)

/-- A search from the first stop, with at most two rides. -/
def SearchContext.onDetour : SearchContext where
  network := Feed.detour.timetable.forward
  access := [⟨0, Duration.zero, none⟩]
  egress := []
  pricing := Pricing.ofWeights CostWeights.standard
  merge := GroupMerge.union
  maxRounds := 2
  transferSlack := Duration.saturate 120
  tieBreak := .keepAll

/-- Changing to the express is faster than staying on board. -/
theorem Iteration.isEarliest_bestArrival?_onDetour :
    Time.IsEarliest
      (fun time => ∃ rides ≤ 2, SearchContext.onDetour.Reaches Time.midnight rides 2 time)
      (some (Time.saturate 700)) := by
  have hanswer : (Iteration.run .onDetour Interrupt.never Time.midnight).store.bestArrival? 2 2 =
      some (Time.saturate 700) := by decide +kernel
  have hnetwork : SearchContext.onDetour.network = Feed.detour.timetable.network .forward := rfl
  have haccess : ∀ c ∈ SearchContext.onDetour.access, c.stop < Feed.detour.timetable.stopCount := by
    decide +kernel
  have hrun : (Iteration.run .onDetour Interrupt.never Time.midnight).cancelled = false := by
    decide +kernel
  rw [← hanswer]
  exact Iteration.isEarliest_bestArrival?_run Feed.compile_detour rfl rfl hnetwork haccess hrun 2
    (Nat.le_refl 2)

end TransitRouting
