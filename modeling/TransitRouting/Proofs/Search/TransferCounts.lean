/-
  TransitRouting.Proofs.Search.TransferCounts
  ───────────────────────────────────────────
  How transfers are counted, and how far.

  Every round boards one more trip, and a journey rides as many trips as the
  round of its label says.  The transfers between them are counted in one byte,
  once by the round and once by the rides.  Nothing keeps a request from allowing
  more than a byte can hold: with 257 rides the count starts again from zero.

  Main statements:

    • `Assembly.Leads.rideCount_eq` — how many trips a journey rides;
    • `Request.countsTransfers_of_validate` — the counts of labels and journeys,
      and when they are right;
    • `Request.not_countsTransfers_stages` — a line of 257 stages, at the end of
      which no transfer is counted.
-/
import TransitRouting.Proofs.Iteration.Derivations
import TransitRouting.Proofs.Iteration.Onward
import TransitRouting.Proofs.Iteration.Stages
import TransitRouting.Proofs.Search.TransferLimits

namespace TransitRouting

/-! ## §1. Rides of a journey. -/

/-- The step is on board a trip. -/
def Step.isRide : Step → Bool
  | .ride _ => true
  | _ => false

theorem Label.isRide_toStep (l : Label) (direction : Direction) (forward : Network) :
    (l.toStep direction forward).isRide = l.approach.isRide := by
  unfold Label.toStep
  cases l.approach <;> cases direction <;> rfl

namespace Assembly

variable {a : Assembly} {ctx : SearchContext} {t : Timetable} {s : LabelStore} {departure : Time}
  {rounds : Nat} {d : Label} {access egress : Connector} {first last : Label × Ride}
  {middle : List Step}

theorem rideCount_segments (steps : List Step) (ready : Option Time) :
    rideCount (a.segments ready steps) = steps.countP Step.isRide := by
  induction steps generalizing ready with
  | nil => rfl
  | cons step steps ih =>
      cases step with
      | ride r =>
          rw [List.countP_cons_of_pos rfl]
          exact congrArg (· + 1) (ih _)
      | walk origin destination d =>
          rw [List.countP_cons_of_neg (by simp [Step.isRide])]
          exact ih _
      | access i =>
          rw [List.countP_cons_of_neg (by simp [Step.isRide])]
          exact ih ready
      | egress i =>
          rw [List.countP_cons_of_neg (by simp [Step.isRide])]
          exact ih ready

/-- The steps ride as many trips as the chain of labels they stand for. -/
theorem countP_isRide_of_steps? {chain : List Label} {steps : List Step}
    (hchain : s.trail? d = some chain) (h : a.steps? s d = some steps) :
    steps.countP Step.isRide = (chain.map Label.approach).countP Approach.isRide := by
  have hcount : (chain.map (·.toStep a.direction a.network)).countP Step.isRide =
      (chain.map Label.approach).countP Approach.isRide := by
    rw [List.countP_map, List.countP_map]
    exact List.countP_congr fun l _ => by
      simp only [Function.comp_apply, Label.isRide_toStep]
  unfold steps? at h
  simp only [hchain, Option.bind_eq_bind, Option.bind_some] at h
  obtain ⟨origin, -, h⟩ := Option.bind_eq_some_iff.mp h
  split at h
  · obtain rfl := Option.some.inj h
    split
    · rw [List.countP_reverse, hcount]
    · exact hcount
  · cases h

/-- The segments between the connectors ride as many trips as the round of the
label says that was left for the destination. -/
theorem Leads.rideCount_eq (hs : ctx.StoreSound departure s rounds)
    (h : a.Leads ctx departure s d access first middle last egress) :
    ∃ place q, d.parent = some place ∧ s.label? place = some q ∧
      rideCount (a.segments none middle) = place.round := by
  have hends : ∃ x c, ctx.Ends s d x c := by
    have hframed := h.framed
    cases hd : a.direction with
    | forward =>
        rw [hd] at hframed
        exact ⟨_, _, hframed.2⟩
    | reverse =>
        rw [hd] at hframed
        exact ⟨_, _, hframed.2⟩
  obtain ⟨x, c, place, index, hplace, -, rfl⟩ := hends
  obtain ⟨rest, hway⟩ := hs.realised hplace
  obtain ⟨i, j, hsteps, -, -⟩ := h.steps_eq
  refine ⟨place, x.1, rfl, hplace, ?_⟩
  have hcount := countP_isRide_of_steps? (hway.trail?_leave hplace c index) hsteps
  rw [← rideCount_segments (a := a) _ none, List.map_cons,
    List.countP_cons_of_neg (by simp [SearchContext.leave, Approach.isRide]),
    hway.countP_isRide] at hcount
  rw [← hcount]
  exact congrArg rideCount (segments_concat_egress middle j none).symm

/-- A journey rides as many trips as the round of the label says that was left for
the destination. -/
theorem Leads.rides_length (hs : ctx.StoreSound departure s rounds)
    (h : a.Leads ctx departure s d access first middle last egress) {j : Journey}
    (hj : a.build? s d = some j) :
    j.merit.transfers = (j.rides.length - 1) % 256 ∧ 0 < j.rides.length ∧
      ∃ place q, d.parent = some place ∧ s.label? place = some q ∧
        j.rides.length = place.round := by
  obtain ⟨place, q, hparent, hplace, hcount⟩ := h.rideCount_eq hs
  obtain ⟨-, hpos⟩ := h.travels.rideCount_segments none
  rw [h.build?_eq] at hj
  obtain rfl := Option.some.inj hj
  rw [rides_finish]
  have hlength : rideCount (if a.slide then a.slideChanges (a.segments none middle)
      else a.segments none middle) = rideCount (a.segments none middle) := by
    split
    · exact rideCount_slideChanges _
    · rfl
  rw [← hlength] at hpos
  exact ⟨rfl, hpos, place, q, hparent, hplace, hlength.trans hcount⟩

end Assembly

/-! ## §2. Counts. -/

/-- The transfers between a number of rides, counted in one byte: right as long as
there are no more than 256 rides. -/
def CountsTransfers (rides transfers : Nat) : Prop :=
  transfers = (rides - 1) % 256 ∧ (transfers + 1 = rides ↔ rides ≤ 256)

theorem countsTransfers_of_eq {rides transfers : Nat} (hrides : 0 < rides)
    (h : transfers = (rides - 1) % 256) : CountsTransfers rides transfers := by
  refine ⟨h, ?_⟩
  omega

/-- Every label that an iteration leaves behind counts the transfers of its round, if
a trip has been boarded. -/
theorem Iteration.countsTransfers_of_run {ctx : SearchContext} (hctx : ctx.Valid)
    {interrupt : Interrupt} {departure : Time} {place : LabelPlace} {l : Label}
    (h : (run ctx interrupt departure).store.label? place = some l) (hround : 0 < place.round) :
    place.round ≤ ctx.maxRounds ∧ CountsTransfers place.round l.criteria.transfers := by
  obtain ⟨hsound, -⟩ := run_sound hctx interrupt departure
  obtain ⟨rest, hway⟩ := hsound.store.realised h
  exact ⟨round_le_of_run hctx h, countsTransfers_of_eq hround (hway.transfers_eq rfl)⟩

/-- Every destination label counts the transfers of the round in which it was left
for the destination. -/
theorem Iteration.countsTransfers_of_mem_destinations {ctx : SearchContext} (hctx : ctx.Valid)
    {interrupt : Interrupt} {departure : Time} {d : Label}
    (hd : d ∈ (run ctx interrupt departure).destinations) :
    ∃ place ∈ d.parent, 0 < place.round ∧ place.round ≤ ctx.maxRounds ∧
      CountsTransfers place.round d.criteria.transfers := by
  obtain ⟨hsound, -⟩ := run_sound hctx interrupt departure
  obtain ⟨place, q, c, index, hq, hride, -, -, rfl⟩ := hsound.destinations d hd
  obtain ⟨rest, hway⟩ := hsound.store.realised hq
  have hround := Nat.pos_of_ne_zero (hway.round_ne_zero hride)
  obtain ⟨hle, hcounts⟩ := countsTransfers_of_run hctx hq hround
  exact ⟨place, rfl, hround, hle, hcounts⟩

/-- Every journey of a response counts the transfers between its rides, of which the
request allows as many. -/
theorem Journey.countsTransfers_of_mem_journeys {f : Feed} {t : Timetable}
    (hf : f.compile = .ok t) {settings : SearchSettings} {interrupt : SearchInterrupt}
    {r : Request} {response : Response} (h : t.searchWith settings interrupt r = .ok response)
    {j : Journey} (hj : j ∈ response.journeys) :
    0 < j.rides.length ∧ j.rides.length ≤ r.maxTransfers + 1 ∧
      CountsTransfers j.rides.length j.merit.transfers := by
  obtain ⟨departure, i, -, d, access, first, middle, last, egress, hleads, hbuild⟩ :=
    Feed.exists_leads_of_mem_journeys hf h hj
  have hctx := Request.context_valid hf (Timetable.searchWith_eq_ok h).1
  obtain ⟨hsound, hdeparture⟩ := Iteration.run_sound hctx (interrupt (i + 1)) departure
  have hstore := hsound.store
  rw [hdeparture] at hstore
  obtain ⟨htransfers, hpos, place, q, -, hplace, hlength⟩ := hleads.rides_length hstore hbuild
  have hle : place.round ≤ r.maxTransfers + 1 := Iteration.round_le_of_run hctx hplace
  exact ⟨hpos, hlength ▸ hle, countsTransfers_of_eq hpos htransfers⟩

/-- On every timetable, with all settings and for every request that is accepted, the
labels of an iteration count the transfers of their rounds, and the journeys of a
response those between their rides.  The counts are right up to 256 rides, and
start again from zero after that.  No journey has more transfers than the request
allows. -/
theorem Request.countsTransfers_of_validate {f : Feed} {t : Timetable} (hf : f.compile = .ok t)
    {settings : SearchSettings} {r : Request}
    (haccepted : r.validate t.stopCount settings = .ok ()) :
    (∀ interrupt departure,
      (∀ place l,
        (Iteration.run (r.context t settings) interrupt departure).store.label? place = some l →
          0 < place.round →
            place.round ≤ r.maxTransfers + 1 ∧ CountsTransfers place.round l.criteria.transfers) ∧
        ∀ d ∈ (Iteration.run (r.context t settings) interrupt departure).destinations,
          ∃ place ∈ d.parent, 0 < place.round ∧ place.round ≤ r.maxTransfers + 1 ∧
            CountsTransfers place.round d.criteria.transfers) ∧
      ∀ interrupt response, t.searchWith settings interrupt r = .ok response →
        ∀ j ∈ response.journeys, 0 < j.rides.length ∧ j.rides.length ≤ r.maxTransfers + 1 ∧
          j.merit.transfers ≤ r.maxTransfers ∧
            CountsTransfers j.rides.length j.merit.transfers := by
  have hctx := Request.context_valid hf haccepted
  refine ⟨fun interrupt departure => ⟨fun place l hl hround => ?_, fun d hd => ?_⟩,
    fun interrupt response h j hj => ?_⟩
  · exact Iteration.countsTransfers_of_run hctx hl hround
  · exact Iteration.countsTransfers_of_mem_destinations hctx hd
  · obtain ⟨hpos, hle, hcounts⟩ := Journey.countsTransfers_of_mem_journeys hf h hj
    refine ⟨hpos, hle, ?_, hcounts⟩
    rw [hcounts.1]
    have hmod := Nat.mod_le (j.rides.length - 1) 256
    omega

/-- The way across town has two rides, with one transfer between them. -/
theorem Request.countsTransfers_acrossTown :
    Feed.acrossTown.compile = .ok Feed.acrossTown.timetable ∧
      Request.acrossTown.validate Feed.acrossTown.timetable.stopCount .standard = .ok () ∧
      ∃ response, Feed.acrossTown.timetable.search .standard .acrossTown = .ok response ∧
        ∃ j ∈ response.journeys, j.rides.length = 2 ∧ j.merit.transfers ≤ 5 ∧
          CountsTransfers 2 j.merit.transfers := by
  obtain ⟨response, hsearch, htrips, -⟩ := Timetable.search_acrossTown
  obtain ⟨haccepted, -⟩ := Timetable.searchWith_eq_ok hsearch
  obtain ⟨j, hj, hids⟩ := List.mem_map.mp (htrips ▸ List.mem_singleton_self [0, 1])
  have hrides : j.rides.length = 2 := by
    rw [← List.length_map (f := (·.tripId))]
    exact congrArg List.length hids
  obtain ⟨-, -, hlimit, hcounts⟩ :=
    (Request.countsTransfers_of_validate Feed.compile_acrossTown haccepted).2 _ response hsearch
      j hj
  rw [hrides] at hcounts
  exact ⟨Feed.compile_acrossTown, haccepted, response, hsearch, j, hj, hrides, hlimit, hcounts⟩

/-! ## §3. A line of 257 stages. -/

/-- A request to ride along the whole line. -/
def Request.stages (n : Nat) : Request where
  access := [⟨0, Duration.zero, none⟩]
  egress := [⟨n, Duration.zero, none⟩]
  time := Time.midnight
  arriveBy := false
  window := some (Duration.saturate 60)
  maxTransfers := n - 1
  costs := CostWeights.standard
  merge := GroupMerge.union

/-- Settings that allow for it. -/
def SearchSettings.stages (n : Nat) : SearchSettings :=
  { SearchSettings.standard with maxRounds := n }

namespace Request

variable {n : Nat} {t : Timetable} {settings : SearchSettings}

theorem access_stages {c : Connector} (hc : c ∈ ((Request.stages n).context t settings).access) :
    c = ⟨0, Duration.zero, none⟩ := List.mem_singleton.mp hc

/-- Every journey along the line rides all its stages. -/
theorem rides_length_stages (h : (Feed.stages n).compile = .ok t) (hn : 0 < n)
    {interrupt : SearchInterrupt} {response : Response}
    (hsearch : t.searchWith settings interrupt (.stages n) = .ok response) {j : Journey}
    (hj : j ∈ response.journeys) : j.rides.length = n := by
  obtain ⟨departure, i, -, d, hd, hbuild⟩ := Timetable.exists_build_of_mem_journeys hsearch hj
  have hctx := context_valid h (Timetable.searchWith_eq_ok hsearch).1
  obtain ⟨hsound, -⟩ := Iteration.run_sound hctx (interrupt (i + 1)) departure
  have hleadsOut := hsound.destinations d hd
  obtain ⟨access, first, middle, last, egress, hleads⟩ :=
    (suits h (.stages n) settings).exists_leads hsound.store hleadsOut
  obtain ⟨-, -, place, q, hparent, hplace, hlength⟩ := hleads.rides_length hsound.store hbuild
  obtain ⟨place', q', c, index, hplace', -, hstop, hc, rfl⟩ := hleadsOut
  obtain rfl : place' = place := Option.some.inj hparent
  obtain rfl : q' = q := Option.some.inj (hplace'.symm.trans hplace)
  -- The last stop of the line is that many rounds away, and no more are allowed.
  have hfar : q'.stop ≤ place'.round :=
    Iteration.stop_le_round_of_stages h rfl (fun c hc => by rw [access_stages hc]) hplace
  have hlimit : place'.round ≤ n - 1 + 1 := Iteration.round_le_of_run hctx hplace
  have hegress : c = ⟨n, Duration.zero, none⟩ :=
    List.mem_singleton.mp (List.mem_of_getElem? (List.mem_zipIdx_iff_getElem?.mp hc))
  rw [hstop, hegress] at hfar
  have hfar : n ≤ place'.round := hfar
  omega

/-- The iteration of the request's time is one of those of the search. -/
theorem mem_sampleTimes_stages (h : (Feed.stages n).compile = .ok t) (hn : 0 < n) :
    (Time.midnight, 0) ∈ (((Request.stages n).context t (.stages n)).sampleTimes (.stages n)
      (Request.stages n).start (Duration.saturate 60)).zipIdx := by
  have hvalid := Feed.compile_network_valid h .forward
  have hcount : 0 < (t.network .forward).stopCount := by
    rw [Feed.compile_stopCount h, Feed.stopCount_stages h]
    exact Nat.succ_pos n
  have hstage := Feed.isStage_of_compile h hn
  have hleaves : t.forward.Leaves 0 Time.midnight :=
    ⟨0, 0, hstage.origin_eq, hstage.canBoard, _,
      Pattern.trip_mem (by rw [hstage.trips_length]; decide), hstage.departure_eq⟩
  obtain ⟨last, hlast, hle⟩ := (hvalid.isLatest_lastDeparture? hcount).exists_le hleaves
  have hlast : t.forward.lastDeparture? 0 = some last := hlast
  have huseful : ((Request.stages n).context t (.stages n)).latestUseful? =
      some (last - Duration.zero) := by
    show ([(⟨0, Duration.zero, none⟩ : Connector)].filterMap fun c =>
      (t.forward.lastDeparture? c.stop).map (· - c.duration)).max? = _
    simp [hlast]
  unfold SearchContext.sampleTimes
  rw [huseful, Time.sub_zero]
  show (Time.midnight, 0) ∈ (departureTimes _ _ _ (239 + 1) Time.midnight).zipIdx
  have hopen : Time.midnight < Time.midnight + Duration.saturate 60 := by decide
  unfold departureTimes
  rw [if_pos ⟨hopen, hle⟩]
  exact List.mem_cons_self

/-- The first iteration gets to the end of the line, on board a trip. -/
theorem exists_ride_stages (h : (Feed.stages n).compile = .ok t) (hn : 0 < n) :
    ∃ e ∈ (Iteration.run ((Request.stages n).context t (.stages n)) Interrupt.never
      Time.midnight).store.bestLabels n n, e.2.isRide = true := by
  have hrun := Iteration.cancelled_run_never ((Request.stages n).context t (.stages n))
    Time.midnight
  have hrounds : n ≤ ((Request.stages n).context t (.stages n)).maxRounds := by
    show n ≤ n - 1 + 1
    omega
  exact Iteration.exists_ride_stages h hn rfl (fun c hc => by rw [access_stages hc])
    (List.mem_singleton_self _) (by decide) hrounds hrun

/-- Somebody goes along the line. -/
theorem exists_mem_candidates_stages (h : (Feed.stages n).compile = .ok t) (hn : 0 < n)
    (haccepted : (Request.stages n).validate t.stopCount (.stages n) = .ok ()) :
    ∃ j, j ∈ (Request.stages n).candidates t (.stages n) (fun _ => Interrupt.never)
      (Duration.saturate 60) := by
  have hctx := context_valid h haccepted
  have hsuits := suits h (.stages n) (.stages n)
  obtain ⟨hsound, -⟩ := Iteration.run_sound hctx Interrupt.never Time.midnight
  obtain ⟨e, he, hride⟩ := exists_ride_stages h hn
  obtain ⟨d, hd, -⟩ := Iteration.run_delivered hctx Interrupt.never Time.midnight n
    (c := ⟨n, Duration.zero, none⟩) (List.mem_singleton_self _) he hride
  obtain ⟨access, first, middle, last, egress, hleads⟩ :=
    hsuits.exists_leads hsound.store (hsound.destinations d hd)
  obtain ⟨j, hbuild⟩ : ∃ j, Assembly.build? _ _ d = some j := ⟨_, hleads.build?_eq⟩
  refine ⟨j, mem_candidates_iff.mpr ⟨?_, (Time.midnight, 0), mem_sampleTimes_stages h hn,
    Bool.false_ne_true, List.mem_filterMap.mpr ⟨d, hd, hbuild⟩⟩⟩
  -- The first ride leaves right away.
  obtain ⟨i, k, -, haccess, -⟩ := hleads.steps_eq
  obtain rfl : access = ⟨0, Duration.zero, none⟩ :=
    List.mem_singleton.mp (List.mem_of_getElem? haccess)
  obtain ⟨hdeparture, -⟩ := hleads.ends hsuits hbuild
  rw [Feed.boardTime_eq_of_runs h (hsuits.runs hleads.travels.runs_first none),
    ← hleads.boardStop] at hdeparture
  have hinWindow : (decide (Time.midnight ≤ stageTime 0 - Duration.zero) &&
      decide (stageTime 0 - Duration.zero < Time.midnight + Duration.saturate 60)) = true := by
    decide
  rw [← hdeparture] at hinWindow
  exact hinWindow

end Request

/-- A line of 257 stages can be searched for a way along it.  The labels at its end,
and the journey there, have made 256 transfers and count none. -/
theorem Request.not_countsTransfers_stages :
    ∃ t, (Feed.stages 257).compile = .ok t ∧
      (Request.stages 257).validate t.stopCount (.stages 257) = .ok () ∧
      (∃ place l, (Iteration.run ((Request.stages 257).context t (.stages 257)) Interrupt.never
          Time.midnight).store.label? place = some l ∧
        place.round = 257 ∧ l.criteria.transfers = 0) ∧
      ∃ response, t.search (.stages 257) (.stages 257) = .ok response ∧
        ∃ j ∈ response.journeys, j.rides.length = 257 ∧ j.merit.transfers = 0 := by
  obtain ⟨t, h⟩ := Feed.exists_compile_stages 257
  have haccepted : (Request.stages 257).validate t.stopCount (.stages 257) = .ok () := by
    rw [Feed.stopCount_stages h]
    decide
  have hctx := Request.context_valid h haccepted
  refine ⟨t, h, haccepted, ?_, ?_⟩
  · obtain ⟨⟨place, l⟩, hl, -⟩ := Request.exists_ride_stages h (by decide)
    obtain ⟨hsound, -⟩ := Iteration.run_sound hctx Interrupt.never Time.midnight
    have hstored := hsound.store.soundTo.valid.label?_of_mem_bestLabels hl
    have hround : place.round = 257 := (LabelStore.mem_bestLabels.mp hl).1
    have hcounts := (Iteration.countsTransfers_of_run hctx hstored (by omega)).2.1
    rw [hround] at hcounts
    exact ⟨place, l, hstored, hround, hcounts⟩
  · obtain ⟨j, hj⟩ := Request.exists_mem_candidates_stages h (by decide) haccepted
    obtain ⟨response, hsearch, shown, hshown⟩ :=
      Timetable.exists_mem_journeys rfl haccepted (List.ne_nil_of_mem hj)
    have hrides := Request.rides_length_stages h (by decide) hsearch hshown
    have hcounts := (Journey.countsTransfers_of_mem_journeys h hsearch hshown).2.2.1
    rw [hrides] at hcounts
    exact ⟨response, hsearch, shown, hshown, hrides, hcounts⟩

end TransitRouting
