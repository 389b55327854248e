/-
  TransitRouting.Proofs.Iteration.Stages
  ─────────────────────────────────────
  A line that is cut into stages, each of which is run by a pattern of its own.

  The line compiles whatever its length.  To get to one of its stops one has to
  ride as many trips as there are stages before it, and no fewer, and an iteration
  finds just that.

  Main statements:

    • `SearchContext.reaches_stages`, `SearchContext.Reaches.le_of_stages` — the stops
      of the line can be reached, and how many rides it takes;
    • `Iteration.exists_ride_stages`, `Iteration.stop_le_round_of_stages` — the labels of
      an iteration along the line.
-/
import TransitRouting.Proofs.Iteration.EarliestArrival
import TransitRouting.Proofs.Journey.Legs
import TransitRouting.Proofs.Schedule.Acceptance

namespace TransitRouting

open Checks

/-! ## §1. The line. -/

/-- When a stage starts.  Each takes a minute. -/
def stageTime (i : Nat) : Time := Time.saturate (60 * i)

/-- The trip on a stage, named by its number. -/
def TripFeed.stage (i : Nat) : TripFeed :=
  ⟨Nat.repr i, [stageTime i, stageTime (i + 1)], [stageTime i, stageTime (i + 1)], 0, 1.0⟩

/-- A stage, to which one changes without delay. -/
def PatternFeed.stage (i : Nat) : PatternFeed :=
  { id := Nat.repr i
    stops := [i, i + 1]
    noBoarding := []
    noAlighting := []
    minTransferTime := some Duration.zero
    trips := [.stage i] }

/-- A line in a number of stages. -/
def Feed.stages (n : Nat) : Feed :=
  { stops := (List.range (n + 1)).map Nat.repr
    patterns := (List.range n).map .stage
    footpaths := []
    rules := [] }

/-- Different numbers are written differently. -/
theorem eq_of_repr_eq {i j : Nat} (h : Nat.repr i = Nat.repr j) : i = j := by
  rw [Nat.repr_eq_ofList_toDigits, Nat.repr_eq_ofList_toDigits] at h
  have hdigits := congrArg (Nat.ofDigitChars 10 · 0) (String.ofList_injective h)
  simpa only [Nat.ofDigitChars_ten_toDigits] using hdigits

theorem stageTime_le_succ (i : Nat) : stageTime i ≤ stageTime (i + 1) := by
  unfold stageTime
  rw [Time.le_def, Time.saturate_seconds, Time.saturate_seconds]
  omega

theorem TripFeed.check_stage (i : Nat) : (TripFeed.stage i).check 2 = .ok () := by
  have hreluctance : isReluctance (TripFeed.stage i).reluctance = true := by
    show isReluctance 1.0 = true
    decide +kernel
  have hnow : ∀ k, ¬ stageTime k < stageTime k := fun k => Time.not_lt.mpr (Time.le_refl _)
  have hcalls : checkCalls (Nat.repr i) 0 (TripFeed.stage i).calls = .ok () := by
    show checkCalls _ 0 [⟨stageTime i, stageTime i⟩, ⟨stageTime (i + 1), stageTime (i + 1)⟩] = _
    unfold checkCalls
    rw [guard_eq_ok]
    refine ⟨hnow i, ?_⟩
    simp only
    rw [guard_eq_ok]
    refine ⟨Time.not_lt.mpr (stageTime_le_succ i), ?_⟩
    unfold checkCalls
    rw [guard_eq_ok]
    exact ⟨hnow (i + 1), rfl⟩
  unfold TripFeed.check
  rw [guard_eq_ok, guard_eq_ok, guard_eq_ok, guard_eq_ok]
  exact ⟨not_not.mpr rfl, not_not.mpr rfl, Nat.not_lt_zero _, by simp [hreluctance], hcalls⟩

theorem PatternFeed.fits_stage {i n : Nat} (hi : i < n) :
    (PatternFeed.stage i).Fits (n + 1) where
  two_le_length := Nat.le_refl 2
  stop_lt := by
    intro s hs
    rcases List.mem_cons.mp hs with rfl | hs
    · omega
    · obtain rfl := List.mem_singleton.mp hs
      omega
  noBoarding_lt := fun q hq => absurd hq List.not_mem_nil
  noAlighting_lt := fun q hq => absurd hq List.not_mem_nil
  check := by
    intro t ht
    obtain rfl := List.mem_singleton.mp ht
    exact TripFeed.check_stage i
  runningOrder := ⟨_, List.Perm.refl _, List.pairwise_singleton _ _⟩
  tiesInOrder := List.pairwise_singleton _ _

theorem Feed.exists_compile_stages (n : Nat) : ∃ t, (Feed.stages n).compile = .ok t := by
  have hnodup : ((List.range n).map Nat.repr).Nodup :=
    List.nodup_range.map fun i j => eq_of_repr_eq
  refine (exists_compile_iff_of_no_rules rfl).mpr ⟨rfl, ?_, ?_, ?_⟩
  · intro p hp
    obtain ⟨i, hi, rfl⟩ := List.mem_map.mp hp
    have hcount : (Feed.stages n).stops.length = n + 1 := by simp [Feed.stages]
    rw [hcount]
    exact PatternFeed.fits_stage (List.mem_range.mp hi)
  · show (((List.range n).map PatternFeed.stage).map (·.id)).Nodup
    rw [List.map_map]
    exact hnodup
  · show (((List.range n).map PatternFeed.stage).flatMap fun p => p.trips.map (·.id)).Nodup
    rw [List.flatMap_map]
    show ((List.range n).flatMap fun i => [Nat.repr i]).Nodup
    rw [← List.map_eq_flatMap]
    exact hnodup

/-! ## §2. Riding along the line. -/

/-- The pattern runs one trip, from a stop to the next one. -/
structure Pattern.IsStage (i : Nat) (p : Pattern) : Prop where
  length_eq : p.length = 2
  origin_eq : p.stopAt 0 = i
  destination_eq : p.stopAt 1 = i + 1
  canBoard : p.canBoard 0 = true
  canAlight : p.canAlight 1 = true
  minTransferTime_eq : p.minTransferTime = some Duration.zero
  trips_length : p.trips.length = 1
  departure_eq : (p.trip 0).departureAt 0 = stageTime i
  arrival_eq : (p.trip 0).arrivalAt 1 = stageTime (i + 1)

theorem PatternFeed.Transcribed.isStage {name : Nat → String} {i : Nat} {q : Pattern}
    (h : (PatternFeed.stage i).Transcribed name q) : q.IsStage i := by
  have hstops : q.halts.map (·.stop) = [i, i + 1] := h.stops_eq
  have hlength : q.length = 2 := by
    have hlengths := congrArg List.length hstops
    rw [List.length_map] at hlengths
    exact hlengths
  have hstop : ∀ position, q.stopAt position = [i, i + 1].getD position default := by
    intro position
    rw [← hstops]
    exact (List.getD_map q.halts default Halt.stop).symm
  obtain ⟨trip, htrips, htrip⟩ := List.map_eq_singleton_iff.mp (List.perm_singleton.mp h.trips_perm)
  have hfirst : q.trip 0 = trip := by
    unfold Pattern.trip
    rw [htrips]
    rfl
  refine ⟨hlength, hstop 0, hstop 1, ?_, ?_, h.minTransferTime_eq, by rw [htrips]; rfl, ?_, ?_⟩
  · unfold Pattern.canBoard
    rw [(h.boarding_iff 0 (by omega)).mpr List.not_mem_nil, hlength]
    rfl
  · unfold Pattern.canAlight
    rw [(h.alighting_iff 1 (by omega)).mpr List.not_mem_nil]
    rfl
  · have hdeparture : (trip.toFeed name).departures.getD 0 default = stageTime i := by
      rw [htrip]
      rfl
    rw [hfirst, ← hdeparture, Trip.toFeed_departures_getD]
  · have harrival : (trip.toFeed name).arrivals.getD 1 default = stageTime (i + 1) := by
      rw [htrip]
      rfl
    rw [hfirst, ← harrival, Trip.toFeed_arrivals_getD]

namespace Feed

variable {n i : Nat} {t : Timetable}

theorem patterns_size_stages (h : (Feed.stages n).compile = .ok t) :
    t.forward.schedule.patterns.size = n := by
  have hpatterns := (Feed.transcribed_of_compile h).1.patterns.length_eq
  rw [Array.length_toList] at hpatterns
  rw [← hpatterns]
  simp [stages]

theorem stopCount_stages (h : (Feed.stages n).compile = .ok t) : t.stopCount = n + 1 := by
  have hnames := (Feed.transcribed_of_compile h).1.stopNames_eq
  show t.stopNames.size = n + 1
  rw [← Array.length_toList, hnames]
  simp [stages]

theorem isStage_of_compile (h : (Feed.stages n).compile = .ok t) (hi : i < n) :
    (t.forward.pattern i).IsStage i := by
  have hpatterns := (Feed.transcribed_of_compile h).1.patterns
  have hsize := patterns_size_stages h
  have hfeed : i < (stages n).patterns.length := by simpa [stages] using hi
  have hbuilt : i < t.forward.schedule.patterns.toList.length := by simpa [hsize] using hi
  have hstage := hpatterns.get hfeed hbuilt
  have hsource : (stages n).patterns.get ⟨i, hfeed⟩ = .stage i := by simp [stages]
  have hpattern : t.forward.schedule.patterns.toList.get ⟨i, hbuilt⟩ = t.forward.pattern i := by
    show _ = t.forward.schedule.patterns.getD i default
    simp [hsize, hi]
  rw [hsource, hpattern] at hstage
  exact hstage.isStage

/-- There are no other patterns. -/
theorem lt_of_compile_stages (h : (Feed.stages n).compile = .ok t)
    (hi : 0 < (t.forward.pattern i).length) : i < n := by
  by_contra hlt
  have hnone : t.forward.pattern i = default := by
    show t.forward.schedule.patterns.getD i default = default
    simp [patterns_size_stages h, hlt]
  rw [hnone] at hi
  exact Nat.lt_irrefl 0 hi

end Feed

namespace SearchContext

variable {ctx : SearchContext} {n : Nat} {t : Timetable} {departure : Time}

/-- Every stop of the line can be reached, by one ride for every stage. -/
theorem reaches_stages (h : (Feed.stages n).compile = .ok t) (hnetwork : ctx.network = t.forward)
    {c : Connector} (hc : c ∈ ctx.access) (hstop : c.stop = 0)
    (hready : departure + c.duration ≤ stageTime 0) {k : Nat} (hk : k ≤ n) :
    ∃ time, time ≤ stageTime k ∧ ctx.Reaches departure k k time := by
  induction k with
  | zero =>
      have hreaches : ctx.Reaches departure 0 c.stop (departure + c.duration) := Reaches.access hc
      rw [hstop] at hreaches
      exact ⟨_, hready, hreaches⟩
  | succ k ih =>
      obtain ⟨time, hle, hreaches⟩ := ih (Nat.le_of_succ_le hk)
      have hstage := Feed.isStage_of_compile h (Nat.lt_of_succ_le hk)
      rw [← hnetwork] at hstage
      have hslack : ctx.slackFor (ctx.network.pattern k) = Duration.zero := by
        unfold slackFor
        rw [hstage.minTransferTime_eq]
        rfl
      have hcatch : (if k = 0 then time else time + ctx.slackFor (ctx.network.pattern k)) ≤
          ((ctx.network.pattern k).trip 0).departureAt 0 := by
        rw [hstage.departure_eq, hslack]
        rw [Time.add_zero, ite_self]
        exact hle
      have hride := Reaches.ride hreaches hstage.origin_eq hstage.canBoard Nat.zero_lt_one
        (by rw [hstage.length_eq]; decide) hstage.canAlight (by rw [hstage.trips_length]; decide)
        hcatch
      rw [hstage.destination_eq, hstage.arrival_eq] at hride
      exact ⟨_, Time.le_refl _, hride⟩

/-- It takes no fewer rides. -/
theorem Reaches.le_of_stages (h : (Feed.stages n).compile = .ok t)
    (hnetwork : ctx.network = t.forward) (haccess : ∀ c ∈ ctx.access, c.stop = 0)
    {rides stop : Nat} {time : Time} (hreaches : ctx.Reaches departure rides stop time) :
    stop ≤ rides := by
  induction hreaches with
  | access hc => exact Nat.le_of_eq (haccess _ hc)
  | @ride rides stop time pattern trip board alight _ hstop _ hlt hlength _ _ _ ih =>
      have hstage := Feed.isStage_of_compile h (Feed.lt_of_compile_stages h (i := pattern) (by
        rw [← hnetwork]
        omega))
      rw [← hnetwork] at hstage
      rw [hstage.length_eq] at hlength
      obtain rfl : board = 0 := by omega
      obtain rfl : alight = 1 := by omega
      rw [hstage.origin_eq] at hstop
      rw [hstage.destination_eq]
      omega

end SearchContext

/-! ## §3. An iteration along the line. -/

/-- A ride leaves when its stage starts. -/
theorem Feed.boardTime_eq_of_runs {n : Nat} {t : Timetable} (h : (Feed.stages n).compile = .ok t)
    {l : RideLeg} (hl : t.forward.schedule.Runs l) : l.boardTime = stageTime l.boardStop := by
  have hlength : l.alightPosition < (t.forward.pattern l.pattern).length := hl.alight_lt
  have hstage := isStage_of_compile h (lt_of_compile_stages h (Nat.zero_lt_of_lt hlength))
  have htrip : l.trip < (t.forward.pattern l.pattern).trips.length := hl.trip_lt
  rw [hstage.trips_length] at htrip
  rw [hstage.length_eq] at hlength
  have hearlier := hl.board_lt_alight
  obtain hfirst : l.boardPosition = 0 := by omega
  obtain honly : l.trip = 0 := by omega
  have hstop : l.boardStop = l.pattern := by
    rw [hl.boardStop_eq, hfirst]
    exact hstage.origin_eq
  rw [hstop, hl.boardTime_eq, hfirst, honly]
  exact hstage.departure_eq

namespace Iteration

variable {n : Nat} {t : Timetable} {ctx : SearchContext} {interrupt : Interrupt} {departure : Time}

/-- Who starts at the beginning of the line may start. -/
theorem context_valid_stages (h : (Feed.stages n).compile = .ok t)
    (hnetwork : ctx.network = t.forward) (haccess : ∀ c ∈ ctx.access, c.stop = 0) : ctx.Valid := by
  have hforward : ctx.network = t.network .forward := hnetwork
  refine Feed.context_valid h hforward fun c hc => ?_
  rw [haccess c hc, Feed.stopCount_stages h]
  exact Nat.succ_pos n

/-- There are no rules and no footpaths along the line. -/
theorem plain_of_stages (h : (Feed.stages n).compile = .ok t) (hnetwork : ctx.network = t.forward) :
    ctx.network.schedule.rules = [] ∧ ctx.network.schedule.footpaths = [] := by
  rw [hnetwork]
  exact ⟨Feed.compile_no_rules h rfl .forward, Feed.compile_no_footpaths h rfl .forward⟩

/-- No label gets further along the line than its round says. -/
theorem stop_le_round_of_stages (h : (Feed.stages n).compile = .ok t)
    (hnetwork : ctx.network = t.forward) (haccess : ∀ c ∈ ctx.access, c.stop = 0)
    {place : LabelPlace} {l : Label}
    (hl : (run ctx interrupt departure).store.label? place = some l) : l.stop ≤ place.round := by
  have hctx := context_valid_stages h hnetwork haccess
  obtain ⟨hsound, -⟩ := run_sound hctx interrupt departure
  obtain ⟨rest, hway⟩ := hsound.store.realised hl
  obtain ⟨hrules, hpaths⟩ := plain_of_stages h hnetwork
  exact (hway.reaches hctx.network hrules hpaths rfl).le_of_stages h hnetwork haccess

/-- The last round gets to the end of the line, on board a trip. -/
theorem exists_ride_stages (h : (Feed.stages n).compile = .ok t) (hn : 0 < n)
    (hnetwork : ctx.network = t.forward) (haccess : ∀ c ∈ ctx.access, c.stop = 0)
    {c : Connector} (hc : c ∈ ctx.access) (hready : departure + c.duration ≤ stageTime 0)
    (hrounds : n ≤ ctx.maxRounds) (hrun : (run ctx interrupt departure).cancelled = false) :
    ∃ e ∈ (run ctx interrupt departure).store.bestLabels n n, e.2.isRide = true := by
  have hctx := context_valid_stages h hnetwork haccess
  obtain ⟨hrules, hpaths⟩ := plain_of_stages h hnetwork
  obtain ⟨hsound, hdeparture⟩ := run_sound hctx interrupt departure
  have hstarted := hsound.started
  rw [hdeparture] at hstarted
  obtain ⟨time, -, hreaches⟩ := SearchContext.reaches_stages h hnetwork hc (haccess c hc) hready
    (Nat.le_refl n)
  obtain ⟨k, hk, ⟨place, e⟩, he, -⟩ := hreaches.reachedBy hctx.network hrules hstarted
    (run_closed hctx hrun) hrounds
  have hstored := hsound.store.soundTo.valid.label?_of_mem_bestLabels he
  have hround : place.round = k := (LabelStore.mem_bestLabels.mp he).1
  have hstop : e.stop = n := hsound.store.soundTo.valid.stop_of_mem_bestLabels he
  have hfar := stop_le_round_of_stages h hnetwork haccess hstored
  obtain rfl : k = n := by omega
  refine ⟨(place, e), he, ?_⟩
  -- Nobody is there on foot.
  obtain ⟨rest, hway⟩ := hsound.store.realised hstored
  rw [hround] at hway
  generalize hlast : k = round at hway
  cases hway with
  | access => omega
  | ride => rfl
  | walk _ _ _ _ hpath =>
      have hmem := (hctx.network.mem_footpathsFrom hpath).1
      rw [hpaths] at hmem
      cases hmem

end Iteration

end TransitRouting
