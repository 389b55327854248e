/-
  TransitRouting.Proofs.Search.Samples
  ────────────────────────────────────
  Which times of departure a search tries, and that the others are of no use.

  Times are tried one step apart until the window ends, until nothing could be boarded
  any more, or until there have been enough of them.  Adding steps stops at the end of
  the range of times; a window ends there at the latest, so a sum that was cut off is
  never tried.

  One who departs after the latest useful time misses every trip at the stops of the
  connectors.  So nobody boards in the first round, and from then on each round has no
  labels from which anybody could ride, walk or leave.

  Main statements:

    • `SearchContext.Valid.isLatest_latestUseful?` — the latest time of departure from
      which some trip can still be boarded;
    • `sampling_iff` — the loop over the times ends, and with which times;
    • `SearchContext.Valid.idle_run` — an iteration that departs later finds nothing;
    • `Feed.sampleTimes_and_idle` — all of this for either direction of a compiled feed.
-/
import TransitRouting.Proofs.Schedule.Reliability
import TransitRouting.Proofs.Search.Windows

namespace TransitRouting

/-! ## §1. The latest useful departure. -/

/-- There is only one latest time with a property. -/
theorem Time.IsLatest.unique {holds : Time → Prop} {a b : Option Time}
    (ha : Time.IsLatest holds a) (hb : Time.IsLatest holds b) : a = b := by
  cases a with
  | none =>
      cases b with
      | none => rfl
      | some y => exact absurd hb.1 (ha y)
  | some x =>
      cases b with
      | none => exact absurd ha.1 (hb x)
      | some y => exact congrArg some (Time.le_antisymm (hb.2 x ha.1) (ha.2 y hb.1))

namespace SearchContext

/-- At the time one has to leave for the last trip that can be boarded at the stop of some
connector. -/
def Useful (ctx : SearchContext) (time : Time) : Prop :=
  ∃ c ∈ ctx.access, ∃ last, Time.IsLatest (ctx.network.Leaves c.stop) (some last) ∧
    time = last - c.duration

variable {ctx : SearchContext} {departure : Time}

/-- The latest useful time of departure is the one that is looked up. -/
theorem Valid.isLatest_latestUseful? (h : ctx.Valid) :
    Time.IsLatest ctx.Useful ctx.latestUseful? := by
  have huseful : (· ∈ ctx.access.filterMap fun c =>
      (ctx.network.lastDeparture? c.stop).map (· - c.duration)) = ctx.Useful := by
    funext time
    rw [List.mem_filterMap, eq_iff_iff]
    constructor
    · rintro ⟨c, hc, hleave⟩
      obtain ⟨last, hlast, rfl⟩ := Option.map_eq_some_iff.mp hleave
      have hlatest := h.network.isLatest_lastDeparture? (h.access c hc)
      rw [hlast] at hlatest
      exact ⟨c, hc, last, hlatest, rfl⟩
    · rintro ⟨c, hc, last, hlatest, rfl⟩
      have hlast := (h.network.isLatest_lastDeparture? (h.access c hc)).unique hlatest
      exact ⟨c, hc, by rw [hlast]; rfl⟩
  rw [← huseful]
  exact Time.isLatest_max? _

end SearchContext

/-! ## §2. The loop over times of departure. -/

/-- The loop over times of departure, step by step: from the time that is next and those
that were taken so far to all that are taken in the end.  A loop that does not end leads
to none. -/
inductive Sampling (step : Duration) (finish latest : Time) (budget : Nat) :
    Time → List Time → List Time → Prop where
  /-- The window is over, or nothing could be boarded any more. -/
  | ended {time : Time} {taken : List Time} (hout : ¬ (time < finish ∧ time ≤ latest)) :
      Sampling step finish latest budget time taken taken
  /-- There have been enough times. -/
  | spent {time : Time} {taken : List Time} (hin : time < finish ∧ time ≤ latest)
      (hspent : taken.length = budget) : Sampling step finish latest budget time taken taken
  /-- The time is taken, and the next one is a step later. -/
  | next {time : Time} {taken result : List Time} (hin : time < finish ∧ time ≤ latest)
      (hleft : taken.length ≠ budget)
      (hrest : Sampling step finish latest budget (time + step) (taken ++ [time]) result) :
      Sampling step finish latest budget time taken result

section Sampling

variable {step : Duration} {finish latest : Time}

theorem departureTimes_of_out {budget : Nat} {time : Time}
    (hout : ¬ (time < finish ∧ time ≤ latest)) :
    departureTimes step finish latest budget time = [] := by
  cases budget with
  | zero => rfl
  | succ budget => exact if_neg hout

theorem departureTimes_succ_of_in {budget : Nat} {time : Time}
    (hin : time < finish ∧ time ≤ latest) :
    departureTimes step finish latest (budget + 1) time =
      time :: departureTimes step finish latest budget (time + step) := if_pos hin

/-- The loop takes the times that are left to take, if it ends. -/
theorem Sampling.eq_departureTimes {budget : Nat} {time : Time} {taken result : List Time}
    (h : Sampling step finish latest budget time taken result) (hle : taken.length ≤ budget) :
    result = taken ++ departureTimes step finish latest (budget - taken.length) time := by
  induction h with
  | ended hout => rw [departureTimes_of_out hout, List.append_nil]
  | spent _ hspent => rw [hspent, Nat.sub_self, departureTimes, List.append_nil]
  | @next time taken result hin hleft _ ih =>
      have hlength : (taken ++ [time]).length = taken.length + 1 := by simp
      obtain ⟨left, hbudget⟩ : ∃ left, budget - taken.length = left + 1 :=
        ⟨budget - taken.length - 1, by omega⟩
      rw [ih (by omega), hlength, Nat.sub_succ, hbudget, departureTimes_succ_of_in hin,
        List.append_assoc]
      rfl

/-- The loop ends. -/
theorem sampling_departureTimes {budget left : Nat} {time : Time} {taken : List Time}
    (hbudget : taken.length + left = budget) :
    Sampling step finish latest budget time taken
      (taken ++ departureTimes step finish latest left time) := by
  -- Every time that is taken leaves fewer to take.
  induction left generalizing time taken with
  | zero =>
      rw [departureTimes, List.append_nil]
      by_cases hin : time < finish ∧ time ≤ latest
      · exact .spent hin hbudget
      · exact .ended hin
  | succ left ih =>
      by_cases hin : time < finish ∧ time ≤ latest
      · have hrest : Sampling step finish latest budget (time + step) (taken ++ [time])
            (taken ++ [time] ++ departureTimes step finish latest left (time + step)) :=
          ih (by simp; omega)
        rw [List.append_assoc] at hrest
        rw [departureTimes_succ_of_in hin]
        exact .next hin (by omega) hrest
      · rw [departureTimes_of_out hin, List.append_nil]
        exact .ended hin

/-- The loop over times of departure ends with the times to try, and with no others. -/
theorem sampling_iff {budget : Nat} {first : Time} {result : List Time} :
    Sampling step finish latest budget first [] result ↔
      result = departureTimes step finish latest budget first := by
  constructor
  · intro h
    exact h.eq_departureTimes (Nat.zero_le _)
  · rintro rfl
    have hends : Sampling step finish latest budget first []
        ([] ++ departureTimes step finish latest budget first) :=
      sampling_departureTimes (Nat.zero_add _)
    exact hends

/-- Nothing is cut off a time that fits. -/
theorem Time.saturate_of_seconds (t : Time) : Time.saturate t.seconds = t := by
  have hleast := t.least_le
  have hgreatest := t.le_greatest
  refine Time.ext ?_
  rw [Time.saturate_seconds]
  omega

/-- Stepping on from a time that was cut off is cut off in the same way. -/
theorem Time.saturate_add {x : Int} (hx : -2147483648 ≤ x) (d : Duration) :
    Time.saturate x + d = Time.saturate (x + d.seconds) := by
  refine Time.ext ?_
  simp only [Time.add_seconds, Time.saturate_seconds]
  omega

/-- A time that was cut off is not before any end of a window. -/
theorem Time.saturate_in_iff {x : Int} (hx : -2147483648 ≤ x) :
    Time.saturate x < finish ∧ Time.saturate x ≤ latest ↔
      x < finish.seconds ∧ x ≤ latest.seconds := by
  have hfinish := finish.le_greatest
  have hlatest := latest.least_le
  simp only [Time.lt_def, Time.le_def, Time.saturate_seconds]
  omega

/-- The times to try are those that many whole steps from the first one on, as exact sums,
that are before the end of the window and not too late. -/
theorem map_seconds_departureTimes {x : Int} (hx : -2147483648 ≤ x) (budget : Nat) :
    (departureTimes step finish latest budget (Time.saturate x)).map (·.seconds) =
      ((List.range budget).map fun k : Nat => x + k * step.seconds).filter fun s =>
        decide (s < finish.seconds ∧ s ≤ latest.seconds) := by
  induction budget generalizing x with
  | zero => rfl
  | succ budget ih =>
      have hshift : (List.range (budget + 1)).map (fun k : Nat => x + k * step.seconds) =
          x :: (List.range budget).map fun k : Nat => x + step.seconds + k * step.seconds := by
        rw [List.range_succ_eq_map, List.map_cons, List.map_map]
        congr 1
        · simp
        · refine List.map_congr_left fun k _ => ?_
          rw [Function.comp_apply, Int.natCast_succ, Int.add_mul, Int.one_mul]
          omega
      rw [hshift]
      by_cases hin : x < finish.seconds ∧ x ≤ latest.seconds
      · rw [departureTimes_succ_of_in ((Time.saturate_in_iff hx).mpr hin),
          Time.saturate_add hx, List.filter_cons, if_pos (decide_eq_true hin), List.map_cons,
          ih (by omega)]
        congr 1
        have hfinish := finish.le_greatest
        rw [Time.saturate_seconds]
        omega
      · -- All later times are out as well.
        rw [departureTimes_of_out (mt (Time.saturate_in_iff hx).mp hin), List.map_nil, eq_comm,
          List.filter_eq_nil_iff]
        intro s hs
        have hle : x ≤ s := by
          rcases List.mem_cons.mp hs with rfl | hs
          · exact Int.le_refl _
          · obtain ⟨k, -, rfl⟩ := List.mem_map.mp hs
            have hsteps : (0 : Int) ≤ k * step.seconds :=
              Int.mul_nonneg (Int.natCast_nonneg k) (Int.natCast_nonneg step.seconds)
            omega
        rw [decide_eq_true_eq]
        omega

end Sampling

/-! ## §3. Iterations that depart too late. -/

namespace Iteration

variable {ctx : SearchContext} {departure : Time}

/-- Every label that an iteration starts with is one that a connector leads to. -/
theorem mem_seeds_of_label?_start {place : LabelPlace} {l : Label}
    (h : (start ctx departure).store.label? place = some l) :
    place.round = 0 ∧ l ∈ ctx.seeds departure := by
  revert place l
  refine LabelStore.offerAll_induction (motive := fun s => ∀ {place l},
    s.label? place = some l → place.round = 0 ∧ l ∈ ctx.seeds departure) ?_ ?_
  · intro s e s' newcomer he hs hadd place l hl
    rw [LabelStore.label?_add? hadd] at hl
    split at hl
    · next hplace =>
        obtain ⟨-, hround, -⟩ := LabelStore.add?_eq_some hadd
        obtain rfl := Option.some.inj hl
        exact ⟨by rw [hplace, hround], he⟩
    · exact hs hl
  · intro place l hl
    rw [LabelStore.label?_eq] at hl
    simp at hl

/-- Nothing has been found beyond the stops that connectors lead to. -/
structure Idle (ctx : SearchContext) (departure : Time) (it : Iteration) : Prop where
  store_eq : it.store = (start ctx departure).store
  destinations_eq : it.destinations = []

end Iteration

namespace SearchContext

variable {ctx : SearchContext} {departure : Time}

/-- Nobody who departs after the latest useful time boards a trip in the first round. -/
theorem Valid.not_boards_start (h : ctx.Valid)
    (hlate : ∀ latest ∈ ctx.latestUseful?, latest < departure)
    (hrange : ∀ c ∈ ctx.access, departure.CanAdd c.duration) {pattern position : Nat}
    {r : Rider} :
    ¬ ctx.Boards (Iteration.start ctx departure).store 1 pattern position r := by
  rintro ⟨hcan, place, l, hl, hrider⟩
  have hvalid := (Iteration.start_sound h departure).store.soundTo.valid
  obtain ⟨-, hseed⟩ :=
    Iteration.mem_seeds_of_label?_start (hvalid.label?_of_mem_bestLabels hl)
  obtain ⟨c, index, hzip, hstop, harrival, -⟩ := mem_seeds hseed
  have hc : c ∈ ctx.access := List.mem_of_getElem? (List.mem_zipIdx_iff_getElem?.mp hzip)
  -- The trip leaves the stop of the connector no earlier than one gets there.
  obtain ⟨-, hfound⟩ := of_riderFrom? hrider
  rw [if_pos rfl] at hfound
  obtain ⟨-, hboardable, -⟩ := Network.Boardable.of_earliestBoarding h.network hfound
  have hready : departure + c.duration ≤ r.boarding.time :=
    harrival ▸ hboardable.inTime.ready_le (Time.le_refl _)
  have hleaves : ctx.network.Leaves c.stop r.boarding.time := by
    refine ⟨pattern, position, ?_, hcan, _, Pattern.trip_mem hboardable.trip_lt, ?_⟩
    · rw [← hstop, hvalid.stop_of_mem_bestLabels hl]
    · rw [hboardable.eq_boarding]
      rfl
  -- So it is no later than the last one, for which one would have had to leave earlier.
  have hlatest := h.network.isLatest_lastDeparture? (h.access c hc)
  obtain ⟨last, hlast, hle⟩ := hlatest.exists_le hleaves
  rw [hlast] at hlatest
  obtain ⟨latest, hfound, huseful⟩ :=
    h.isLatest_latestUseful?.exists_le ⟨c, hc, last, hlatest, rfl⟩
  have hearly : departure ≤ last - c.duration :=
    Time.le_sub_of_add_le (hrange c hc) (Time.le_trans hready hle)
  exact Time.not_lt.mpr (Time.le_trans hearly huseful) (hlate latest hfound)

/-- Later rounds than the first labels' have none. -/
theorem Valid.bestLabels_of_idle (h : ctx.Valid) {it : Iteration} (hidle : it.Idle ctx departure) :
    ∀ k > 0, ∀ stop, it.store.bestLabels k stop = [] := by
  rw [hidle.store_eq]
  exact (Iteration.start_sound h departure).store.soundTo.emptyAfter

/-- Nobody walks, neither from connectors nor from later rounds. -/
theorem Valid.walkOn_store_of_idle (h : ctx.Valid) {it : Iteration}
    (hidle : it.Idle ctx departure) : (it.walkOn ctx).store = it.store := by
  rcases Nat.eq_zero_or_pos it.rounds with hzero | hpositive
  · unfold Iteration.walkOn
    rw [if_pos hzero]
  · exact Iteration.walkOn_store_of_bestLabels_eq_nil
      (h.bestLabels_of_idle hidle it.rounds hpositive)

/-- If nobody boards in the first round, no round finds anything. -/
theorem Valid.idle_playRound (h : ctx.Valid)
    (hnone : ∀ {pattern position r},
      ¬ ctx.Boards (Iteration.start ctx departure).store 1 pattern position r)
    {it : Iteration} (hsound : it.Sound ctx) (hidle : it.Idle ctx departure) :
    (it.playRound ctx).1.Idle ctx departure := by
  have hempty := h.bestLabels_of_idle hidle
  have hrides : ctx.rides it.store (it.rounds + 1) = [] := by
    rw [List.eq_nil_iff_forall_not_mem]
    intro l hl
    obtain ⟨pattern, board, alight, r, hboards, -⟩ := mem_rides hl
    rcases Nat.eq_zero_or_pos it.rounds with hzero | hpositive
    · rw [hzero, hidle.store_eq] at hboards
      exact hnone hboards
    · obtain ⟨-, place, e, he, -⟩ := hboards
      rw [Nat.add_sub_cancel, hempty it.rounds hpositive] at he
      cases he
  have hstore : (it.playRound ctx).1.store = it.store := by
    rw [hsound.playRound_store h, h.walkOn_store_of_idle hidle, hrides]
    rfl
  refine ⟨hstore.trans hidle.store_eq, ?_⟩
  have hexits : ctx.exits it.store (it.rounds + 1) = [] := by
    rw [List.eq_nil_iff_forall_not_mem]
    intro l hl
    obtain ⟨⟨c, index⟩, -, hl⟩ := List.mem_flatMap.mp hl
    obtain ⟨⟨place, e⟩, he, -⟩ := List.mem_map.mp hl
    obtain ⟨hbest, -⟩ := List.mem_filter.mp he
    rw [hempty _ (Nat.succ_pos _)] at hbest
    cases hbest
  rw [Iteration.playRound_destinations, hstore, hexits]
  exact hidle.destinations_eq

/-- An iteration that departs after the latest useful time finds nothing. -/
theorem Valid.idle_run (h : ctx.Valid) (interrupt : Interrupt)
    (hlate : ∀ latest ∈ ctx.latestUseful?, latest < departure)
    (hrange : ∀ c ∈ ctx.access, departure.CanAdd c.duration) :
    (Iteration.run ctx interrupt departure).Idle ctx departure := by
  have hstart := Iteration.start_sound h departure
  have hplayed : (Iteration.playRounds ctx interrupt ctx.maxRounds
      (Iteration.start ctx departure)).Idle ctx departure := by
    refine Iteration.playRounds_induction (motive := Iteration.Idle ctx departure) h ?_ ?_
      interrupt ctx.maxRounds hstart ⟨rfl, rfl⟩
    · intro it hidle
      exact ⟨hidle.store_eq, hidle.destinations_eq⟩
    · intro it hsound hidle
      exact h.idle_playRound (h.not_boards_start hlate hrange) hsound hidle
  rcases Iteration.run_cases ctx interrupt departure with ⟨-, heq⟩ | ⟨-, heq⟩
  · rw [heq]
    exact hplayed
  · rw [heq]
    exact ⟨(h.walkOn_store_of_idle hplayed).trans hplayed.store_eq,
      Iteration.walkOn_destinations.trans hplayed.destinations_eq⟩

end SearchContext

/-! ## §4. The times that a search tries. -/

/-- On every timetable and in either direction, the times that a search tries are those
that many whole steps from its start on, in this order and no more than allowed, that are
before the end of the window and not after the latest useful time; if there is none, no
time is tried.  The loop that takes them ends.  An iteration for any later time stores the
labels that connectors lead to and no others, and finds no destination, as long as the
ways to the first stops stay in range. -/
theorem Feed.sampleTimes_and_idle {f : Feed} {t : Timetable} (hf : f.compile = .ok t)
    {ctx : SearchContext} {direction : Direction} (hnetwork : ctx.network = t.network direction)
    (haccess : ∀ c ∈ ctx.access, c.stop < t.stopCount) (settings : SearchSettings)
    (start : Time) (window : Duration) :
    Time.IsLatest ctx.Useful ctx.latestUseful? ∧
      (ctx.latestUseful? = none → ctx.sampleTimes settings start window = []) ∧
      (∀ latest ∈ ctx.latestUseful?,
        (∀ result, Sampling settings.stepDuration (start + window) latest settings.maxIterations
            start [] result ↔ result = ctx.sampleTimes settings start window) ∧
        (ctx.sampleTimes settings start window).map (·.seconds) =
          ((List.range settings.maxIterations).map fun k : Nat =>
            start.seconds + k * settings.stepDuration.seconds).filter fun s =>
              decide (s < (start + window).seconds ∧ s ≤ latest.seconds)) ∧
      ∀ interrupt departure, (∀ latest ∈ ctx.latestUseful?, latest < departure) →
        (∀ c ∈ ctx.access, departure.CanAdd c.duration) →
        (Iteration.run ctx interrupt departure).Idle ctx departure ∧
          ∀ place l, (Iteration.run ctx interrupt departure).store.label? place = some l →
            place.round = 0 ∧ l ∈ ctx.seeds departure := by
  have hctx : ctx.Valid := Feed.context_valid hf hnetwork haccess
  refine ⟨hctx.isLatest_latestUseful?, ?_, ?_, ?_⟩
  · intro hnone
    unfold SearchContext.sampleTimes
    rw [hnone]
  · intro latest hlatest
    have htimes : ctx.sampleTimes settings start window =
        departureTimes settings.stepDuration (start + window) latest settings.maxIterations
          start := by
      unfold SearchContext.sampleTimes
      rw [Option.mem_def.mp hlatest]
    have hexact := @map_seconds_departureTimes settings.stepDuration (start + window) latest _
      start.least_le settings.maxIterations
    rw [start.saturate_of_seconds] at hexact
    rw [htimes]
    exact ⟨fun _ => sampling_iff, hexact⟩
  · intro interrupt departure hlate hrange
    have hidle := hctx.idle_run interrupt hlate hrange
    refine ⟨hidle, fun place l hl => ?_⟩
    rw [hidle.store_eq] at hl
    exact Iteration.mem_seeds_of_label?_start hl

/-- Half a minute away from where the train leaves after ten minutes, ten times of
departure are tried of the sixty in an hour.  One who leaves a second after the latest
useful time finds nothing. -/
theorem Feed.sampleTimes_and_idle_busAndTrain :
    let ctx := Request.busAndTrain.context Feed.busAndTrain.timetable .standard
    Time.IsLatest ctx.Useful (some (Time.saturate 570)) ∧
      (ctx.sampleTimes .standard Time.midnight (Duration.saturate 3600)).map (·.seconds) =
        [0, 60, 120, 180, 240, 300, 360, 420, 480, 540] ∧
      (Iteration.run ctx Interrupt.never (Time.saturate 571)).Idle ctx (Time.saturate 571) := by
  intro ctx
  have hlatest : ctx.latestUseful? = some (Time.saturate 570) := by decide +kernel
  have hnetwork : ctx.network = Feed.busAndTrain.timetable.network .forward := rfl
  obtain ⟨huseful, -, htimes, hidle⟩ := Feed.sampleTimes_and_idle Feed.compile_busAndTrain hnetwork
    (by decide +kernel) .standard Time.midnight (Duration.saturate 3600)
  refine ⟨hlatest ▸ huseful, ?_, ?_⟩
  · rw [(htimes _ hlatest).2]
    decide +kernel
  · refine (hidle Interrupt.never (Time.saturate 571) ?_ (by decide +kernel)).1
    rw [hlatest]
    decide

end TransitRouting
