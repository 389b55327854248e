/-
  TransitRouting.Proofs.Lookups.Assembly
  ──────────────────────────────────────
  Making a journey from a destination label, with strict lookups.

  References lead from label to label.  The rides of the labels are rides of
  the network that was searched; after a search in reverse their trips and
  positions are counted from the other end, and are there in the schedule as it
  runs.  Moving a change to another stop gives rides on the same trips, between
  halts that are there.

  Main statements:

    • `Strict.steps?_eq` — every reference of a chain leads to a label, and
      every trip and position can be turned round;
    • `Strict.slideChanges_eq` — moving changes looks only at halts and calls
      that are there;
    • `Strict.build?_eq` — all that is looked up for a journey is there.
-/
import TransitRouting.Proofs.Journey.Results
import TransitRouting.Proofs.Lookups.Iteration

namespace TransitRouting

namespace Strict

open Checks

/-! ## §1. The chain of a label. -/

/-- The labels from `l` back to one without a parent, following at most a given
number of references. -/
def trailWithin (s : LabelStore) : Nat → Label → Strict (Option (List Label))
  | steps, l =>
    match l.parent, steps with
    | none, _ => return some [l]
    | some _, 0 => return none
    | some place, steps + 1 => do
      let parent ← label s place
      return (← trailWithin s steps parent).map (l :: ·)

/-- The labels from `l` back to the origin. -/
def trail? (s : LabelStore) (l : Label) : Strict (Option (List Label)) := trailWithin s s.size l

/-- The step that a label stands for.  To turn a ride round, its pattern must be
there, its trip and both positions. -/
def toStep (direction : Direction) (forward : Network) (l : Label) : Strict Step :=
  match l.approach, direction with
  | .ride r, .reverse => do
    let p ← pattern forward r.pattern
    return .ride {
      pattern := r.pattern
      trip := ← opposite (.trip r.trip) p.trips.length r.trip
      board := ← opposite (.position r.alightPosition) p.length r.alightPosition
      alight := ← opposite (.position r.boardPosition) p.length r.boardPosition
      rule := r.rule }
  | _, _ => return l.toStep direction forward

/-- The steps from the origin to the destination label, in order of travel. -/
def steps? (a : Assembly) (store : LabelStore) (destination : Label) :
    Strict (Option (List Step)) := do
  match ← trail? store destination with
  | none => return none
  | some chain =>
    match chain.getLast? with
    | none => return none
    | some origin =>
      match origin.approach, destination.approach with
      | .access .., .egress .. =>
        let steps ← chain.mapM (toStep a.direction a.network)
        return some (if a.direction = .forward then steps.reverse else steps)
      | _, _ => return none

section Chains

variable {a : Assembly} {ctx : SearchContext} {t : Timetable} {s : LabelStore}
  {departure : Time} {last : Nat}

/-- References lead to labels. -/
theorem trailWithin_eq
    (hstored : ∀ {at' : LabelPlace} {e : Label}, s.label? at' = some e →
      ∀ {place}, e.parent = some place → ∃ parent, s.label? place = some parent)
    (steps : Nat) {l : Label}
    (h : ∀ {place}, l.parent = some place → ∃ e, s.label? place = some e) :
    trailWithin s steps l = pure (s.trailWithin steps l) := by
  induction steps generalizing l with
  | zero =>
      unfold trailWithin LabelStore.trailWithin
      cases l.parent <;> rfl
  | succ steps ih =>
      unfold trailWithin LabelStore.trailWithin
      cases hparent : l.parent with
      | none => rfl
      | some place =>
          obtain ⟨e, he⟩ := h hparent
          simp only [label_eq he, he, ih (hstored he), pure_bind]

/-- The rides on the chain of a destination label are rides of the network. -/
theorem carries_of_mem_chain (hn : ctx.network.Valid) (hs : ctx.StoreSound departure s last)
    {d : Label} (hd : ctx.LeadsOut s d) {chain : List Label} (hchain : s.trail? d = some chain)
    {l : Label} (hl : l ∈ chain) {r : Ride} (hr : l.approach = .ride r) :
    ctx.network.Carries r := by
  obtain ⟨place, q, c, index, way, rfl, -, -, -, htrail, r', first, rides, origin, rfl, horigin,
    hrides, -⟩ := hd.trail hn hs
  rw [hchain] at htrail
  obtain rfl := Option.some.inj htrail
  rcases List.mem_cons.mp hl with rfl | hl
  · cases hr
  · rcases List.mem_append.mp hl with hl | hl
    · rcases hrides.of_mem hl with ⟨x, hbrings, rfl⟩ | ⟨p, w, y, hchange, rfl⟩
      · rw [hbrings.approach] at hr
        cases hr
        exact hbrings.carries
      · rw [(hchange.walked w rfl).approach] at hr
        cases hr
    · obtain rfl := List.mem_singleton.mp hl
      obtain ⟨_, _, -, -, -, happroach, -⟩ := SearchContext.mem_seeds horigin
      rw [happroach] at hr
      cases hr

theorem toStep_eq (hsuits : a.Suits ctx t) {l : Label}
    (h : ∀ {r}, l.approach = .ride r → ctx.network.Carries r) :
    toStep a.direction a.network l = pure (l.toStep a.direction a.network) := by
  unfold toStep
  cases happroach : l.approach with
  | access _ _ => rfl
  | walk _ _ => rfl
  | egress _ _ => rfl
  | ride r =>
      cases hd : a.direction with
      | forward => rfl
      | reverse =>
          have hcarries := h happroach
          have htrip := hcarries.trip_lt
          have halight := hcarries.alight_lt
          have hboard := Nat.lt_trans hcarries.board_lt_alight halight
          rw [hsuits.pattern_reverse hd, Pattern.reversed_trips_length] at htrip
          rw [hsuits.pattern_reverse hd, Pattern.reversed_length] at halight hboard
          simp only [pattern_eq (Schedule.lt_size_of_lt_length halight), opposite_eq htrip,
            opposite_eq halight, opposite_eq hboard, pure_bind]
          unfold Label.toStep
          rw [happroach]
          rfl

/-- Every reference of a chain leads to a label, and every trip and position can
be turned round. -/
theorem steps?_eq (hsuits : a.Suits ctx t) (hs : ctx.StoreSound departure s last) {d : Label}
    (hd : ctx.LeadsOut s d) : steps? a s d = pure (a.steps? s d) := by
  have hparent : ∀ {place}, d.parent = some place → ∃ e, s.label? place = some e := by
    obtain ⟨place, q, c, index, hq, -, -, -, rfl⟩ := hd
    intro place' h
    obtain rfl := Option.some.inj h
    exact ⟨q, hq⟩
  have htrail : trail? s d = pure (s.trail? d) :=
    trailWithin_eq (fun he => (hs.realised he).exists_parent) _ hparent
  unfold steps? Assembly.steps?
  rw [htrail, pure_bind]
  cases hchain : s.trail? d with
  | none => rfl
  | some chain =>
      have hsteps : chain.mapM (toStep a.direction a.network) =
          pure (chain.map (·.toStep a.direction a.network)) :=
        mapM_eq_pure fun l hl =>
          toStep_eq hsuits (carries_of_mem_chain hsuits.network_valid hs hd hchain hl)
      simp only [Option.bind_eq_bind, Option.bind_some]
      cases chain.getLast? with
      | none => rfl
      | some origin =>
          simp only [Option.bind_some, hsteps, pure_bind]
          cases origin.approach <;> cases d.approach <;> rfl

end Chains

/-! ## §2. Moving one change. -/

/-- The leg boarded at another position of its trip. -/
def reboard (l : RideLeg) (pricing : Pricing) (t : Trip) (position stop : Nat) (ready : Time) :
    Strict RideLeg := do
  let boardTime ← departureAt t position
  return { l with
    boardPosition := position
    boardStop := stop
    boardTime
    ready
    boardCost := pricing.boarding (boardTime.waitSince ready) l.first
    rideCost := pricing.ride t.reluctance boardTime l.alightTime }

/-- The leg left at another position of its trip. -/
def realight (l : RideLeg) (pricing : Pricing) (t : Trip) (position stop : Nat) :
    Strict RideLeg := do
  let alightTime ← arrivalAt t position
  return { l with
    alightPosition := position
    alightStop := stop
    alightTime
    rideCost := pricing.ride t.reluctance l.boardTime alightTime }

section

variable (ctx : SlidingContext)

/-- When one who arrives at a given time may board, and by which kind of rule; none if a
rule forbids it.  Only the rules are asked. -/
def readiness? (before after : RideLeg) (slack : Duration) (arrival : Time) (alight board : Nat) :
    Option (Time × Option RuleKind) :=
  match ctx.network.ruling ⟨before.pattern, before.tripId, alight⟩ after.pattern board with
  | .forbidden => none
  | .override kind minTransferTime target =>
    if target.all (· = after.tripId) then some (arrival + minTransferTime, some kind)
    else some (arrival + slack, none)
  | .unrestricted => some (arrival + slack, none)

/-- The two legs with the change made at other positions of their trips, if it can be
made there by one who arrives at a given time. -/
def changeAt? (before after : RideLeg) (fromTrip toTrip : Trip) (slack : Duration) (stop : Nat)
    (arrival : Time) (alight board : Nat) : Strict (Option (RideLeg × RideLeg)) := do
  match readiness? ctx before after slack arrival alight board with
  | none => return none
  | some (earliest, rule) =>
    if (← departureAt toTrip board) < earliest then return none
    else if ctx.network.forbidsTrip ⟨before.pattern, before.tripId, alight⟩ after.pattern board
        after.tripId then return none
    else
      let before ← realight before ctx.pricing fromTrip alight stop
      let after ← reboard after ctx.pricing toTrip board stop before.alightTime
      return some (before, { after with rule })

/-- The changes that can be made where `before` is left at a position.  The stop there and
the arrival are looked up whether or not `after` calls at the stop. -/
def changesFrom (before after : RideLeg) (fromPattern toPattern : Pattern)
    (fromTrip toTrip : Trip) (alight : Nat) : Strict (List (RideLeg × RideLeg)) := do
  let stop ← stopAt fromPattern alight
  let arrival ← arrivalAt fromTrip alight
  let boards ← keep
    (fun board => do
      return (← canBoard toPattern board) && (← stopAt toPattern board) = stop &&
        !(alight = before.alightPosition && board = after.boardPosition))
    (List.range after.alightPosition)
  let slack := toPattern.minTransferTime.getD ctx.transferSlack
  let changes ← boards.mapM
    (changeAt? ctx before after fromTrip toTrip slack stop arrival alight)
  return changes.filterMap id

/-- The two legs with the change made where it is cheapest, if that is cheaper
than the change as it is.  Both trips are looked up before anything else. -/
def cheapestChange? (before after : RideLeg) : Strict (Option (RideLeg × RideLeg)) := do
  let fromPattern ← pattern ctx.network before.pattern
  let fromTrip ← trip fromPattern before.trip
  let toPattern ← pattern ctx.network after.pattern
  let toTrip ← trip toPattern after.trip
  let alights ← keep (canAlight fromPattern) (fromPattern.laterPositions before.boardPosition)
  let changes ← gather (changesFrom ctx before after fromPattern toPattern fromTrip toTrip) alights
  return SlidingContext.cheapestBelow (SlidingContext.pairCost (before, after)) changes

end

section Changes

variable {ctx : SlidingContext} {before after : RideLeg} {alight board : Nat}

theorem changeAt?_eq (hn : ctx.network.Valid) (hbefore : ctx.network.schedule.Runs before)
    (hafter : ctx.network.schedule.Runs after)
    (halight : alight < (ctx.network.pattern before.pattern).length)
    (hboard : board < (ctx.network.pattern after.pattern).length) :
    changeAt? ctx before after ((ctx.network.pattern before.pattern).trip before.trip)
        ((ctx.network.pattern after.pattern).trip after.trip) (ctx.slackFor after.pattern)
        ((ctx.network.pattern before.pattern).stopAt alight)
        (((ctx.network.pattern before.pattern).trip before.trip).arrivalAt alight) alight board =
      pure (ctx.changeAt? before after alight board) := by
  have hcall := (hn.pattern_of_lt_length halight).lt_calls_length hbefore.trip_lt halight
  have hcall' := (hn.pattern_of_lt_length hboard).lt_calls_length hafter.trip_lt hboard
  have hready : readiness? ctx before after (ctx.slackFor after.pattern)
      (((ctx.network.pattern before.pattern).trip before.trip).arrivalAt alight) alight board =
        ctx.readiness? before after alight board := rfl
  unfold changeAt? SlidingContext.changeAt? realight reboard
  simp only [hready, departureAt_eq hcall', arrivalAt_eq hcall, pure_bind]
  cases ctx.readiness? before after alight board with
  | none => rfl
  | some ready =>
      simp only [Option.bind_eq_bind, Option.bind_some]
      split
      · rfl
      · split <;> rfl

/-- Where the first ride can be left the second one is looked for at its own halts. -/
theorem changesFrom_eq (hn : ctx.network.Valid) (hbefore : ctx.network.schedule.Runs before)
    (hafter : ctx.network.schedule.Runs after)
    (halight : alight < (ctx.network.pattern before.pattern).length) :
    changesFrom ctx before after (ctx.network.pattern before.pattern)
        (ctx.network.pattern after.pattern)
        ((ctx.network.pattern before.pattern).trip before.trip)
        ((ctx.network.pattern after.pattern).trip after.trip) alight =
      pure (((List.range after.alightPosition).filter fun board =>
        (ctx.network.pattern after.pattern).canBoard board &&
          (ctx.network.pattern after.pattern).stopAt board =
            (ctx.network.pattern before.pattern).stopAt alight &&
          !(alight = before.alightPosition && board = after.boardPosition)).filterMap
            (ctx.changeAt? before after alight)) := by
  have hboard : ∀ board ∈ List.range after.alightPosition,
      board < (ctx.network.pattern after.pattern).length :=
    fun board hboard => Nat.lt_trans (List.mem_range.mp hboard) hafter.alight_lt
  have hcall := (hn.pattern_of_lt_length halight).lt_calls_length hbefore.trip_lt halight
  unfold changesFrom
  rw [stopAt_eq halight, pure_bind, arrivalAt_eq hcall, pure_bind, keep_eq fun board hmem => by
    rw [canBoard_eq (hboard board hmem), pure_bind, stopAt_eq (hboard board hmem), pure_bind],
    pure_bind]
  refine (congrArg (· >>= _) (mapM_eq_pure fun board hmem =>
    changeAt?_eq hn hbefore hafter halight (hboard board (List.mem_filter.mp hmem).1))).trans ?_
  rw [pure_bind, List.filterMap_map]
  rfl

theorem cheapestChange?_eq (hn : ctx.network.Valid) (hbefore : ctx.network.schedule.Runs before)
    (hafter : ctx.network.schedule.Runs after) :
    cheapestChange? ctx before after = pure (ctx.cheapestChange? before after) := by
  have htrip : before.trip < (ctx.network.pattern before.pattern).trips.length := hbefore.trip_lt
  have htrip' : after.trip < (ctx.network.pattern after.pattern).trips.length := hafter.trip_lt
  have hlater : ∀ q ∈ (ctx.network.pattern before.pattern).laterPositions before.boardPosition,
      q < (ctx.network.pattern before.pattern).length := by
    intro q hq
    unfold Pattern.laterPositions at hq
    rw [List.mem_range'_1] at hq
    omega
  unfold cheapestChange? SlidingContext.cheapestChange? SlidingContext.commonHalts
  simp only [pattern_eq (Schedule.lt_size_of_lt_length hbefore.alight_lt),
    pattern_eq (Schedule.lt_size_of_lt_length hafter.alight_lt), trip_eq htrip, trip_eq htrip',
    pure_bind]
  rw [keep_eq fun q hq => canAlight_eq (hlater q hq), pure_bind,
    gather_eq fun alight halight =>
      changesFrom_eq hn hbefore hafter (hlater alight (List.mem_filter.mp halight).1), pure_bind,
    List.filterMap_flatMap]
  simp only [List.filterMap_map]
  rfl

end Changes

/-! ## §3. Putting a journey together. -/

/-- The connector with a given index. -/
def connector (connectors : List Connector) (index : Nat) : Strict Connector :=
  found (.connector index) connectors[index]?

section

variable (a : Assembly)

/-- The timed leg of a ride. -/
def time (r : RideStep) (ready : Option Time) : Strict RideLeg := do
  let p ← pattern a.network r.pattern
  let t ← trip p r.trip
  let boardTime ← departureAt t r.board
  let alightTime ← arrivalAt t r.alight
  let readyTime := ready.getD boardTime
  return {
    pattern := r.pattern
    trip := r.trip
    tripId := t.id
    boardPosition := r.board
    boardStop := ← stopAt p r.board
    boardTime
    alightPosition := r.alight
    alightStop := ← stopAt p r.alight
    alightTime
    ready := readyTime
    first := ready.isNone
    rule := r.rule
    boardCost := a.pricing.boarding (boardTime.waitSince readyTime) ready.isNone
    rideCost := a.pricing.ride t.reluctance boardTime alightTime }

/-- The rides and walks among the steps, timed one after the other. -/
def segments : Option Time → List Step → Strict (List Segment)
  | _, [] => return []
  | ready, .ride r :: rest => do
    let leg ← time a r ready
    return .ride leg :: (← segments (some leg.alightTime) rest)
  | ready, .walk origin destination d :: rest =>
    return .walk origin destination d :: (← segments (ready.map (· + d)) rest)
  | ready, _ :: rest => segments ready rest

/-- The segments with every change between two rides moved to where it is
cheapest, the last one first. -/
def slideChanges : List Segment → Strict (List Segment)
  | [] => return []
  | s :: rest => do
    match s, ← slideChanges rest with
    | .ride before, .ride after :: others =>
      match ← cheapestChange? a.toSlidingContext before after with
      | some (before, after) => return .ride before :: .ride after :: others
      | none => return s :: .ride after :: others
    | _, rest => return s :: rest

/-- The journey of segments between two connectors.  The trips are looked up for
their groups. -/
def finish (access : Connector) (segments : List Segment) (egress : Connector) :
    Strict Journey := do
  let _ ← (segments.filterMap Segment.ride?).mapM fun l => do
    trip (← pattern a.network l.pattern) l.trip
  return a.finish access segments egress

/-- The journey that ends in a destination label. -/
def build? (store : LabelStore) (destination : Label) : Strict (Option Journey) := do
  match ← steps? a store destination with
  | none => return none
  | some steps =>
    let accesses ← (steps.filterMap Step.access?).mapM (connector a.access)
    let egresses ← (steps.filterMap Step.egress?).mapM (connector a.egress)
    let timed ← segments a none steps
    match accesses.getLast?, egresses.getLast? with
    | some access, some egress =>
      let timed ← if a.slide then slideChanges a timed else pure timed
      return some (← finish a access timed egress)
    | _, _ => return none

end

section Journeys

variable {a : Assembly} {ctx : SearchContext} {t : Timetable} {s : LabelStore}

theorem time_eq (hn : a.network.Valid) {r : RideStep} {ready : Option Time}
    (h : a.network.schedule.Runs (a.time r ready)) : time a r ready = pure (a.time r ready) := by
  have htrip : r.trip < (a.network.pattern r.pattern).trips.length := h.trip_lt
  have halight : r.alight < (a.network.pattern r.pattern).length := h.alight_lt
  have hboard : r.board < (a.network.pattern r.pattern).length :=
    Nat.lt_trans h.board_lt_alight halight
  have hp := hn.pattern_of_lt_length halight
  unfold time
  simp only [pattern_eq (Schedule.lt_size_of_lt_length halight), trip_eq htrip,
    departureAt_eq (hp.lt_calls_length htrip hboard),
    arrivalAt_eq (hp.lt_calls_length htrip halight), stopAt_eq hboard, stopAt_eq halight, pure_bind]
  rfl

/-- Every ride among the segments runs. -/
def AllRun (n : Network) (segments : List Segment) : Prop :=
  ∀ l, .ride l ∈ segments → n.schedule.Runs l

theorem AllRun.tail {n : Network} {segment : Segment} {rest : List Segment}
    (h : AllRun n (segment :: rest)) : AllRun n rest :=
  fun l hl => h l (List.mem_cons_of_mem _ hl)

theorem AllRun.walk {n : Network} {rest : List Segment} (h : AllRun n rest)
    (origin destination : Nat) (d : Duration) : AllRun n (.walk origin destination d :: rest) := by
  intro l hl
  rcases List.mem_cons.mp hl with hl | hl
  · cases hl
  · exact h l hl

theorem AllRun.ride {n : Network} {rest : List Segment} (h : AllRun n rest) {l : RideLeg}
    (hl : n.schedule.Runs l) : AllRun n (.ride l :: rest) := by
  intro l' hl'
  rcases List.mem_cons.mp hl' with heq | hl'
  · obtain rfl := Segment.ride.inj heq
    exact hl
  · exact h l' hl'

/-- Timing looks only at trips and calls that are there, and gives rides that
run. -/
theorem segments_eq (hn : a.network.Valid) {steps : List Step}
    (h : ∀ r, .ride r ∈ steps → ∀ ready, a.network.schedule.Runs (a.time r ready))
    (ready : Option Time) :
    segments a ready steps = pure (a.segments ready steps) ∧
      AllRun a.network (a.segments ready steps) := by
  induction steps generalizing ready with
  | nil => exact ⟨rfl, fun l hl => absurd hl List.not_mem_nil⟩
  | cons step rest ih =>
      have ih := ih fun r hr => h r (List.mem_cons_of_mem _ hr)
      cases step with
      | access _ => exact ih ready
      | egress _ => exact ih ready
      | walk origin destination d =>
          obtain ⟨hrest, hruns⟩ := ih (ready.map (· + d))
          unfold segments Assembly.segments
          rw [hrest, pure_bind]
          exact ⟨rfl, hruns.walk _ _ _⟩
      | ride r =>
          have hride := h r List.mem_cons_self ready
          obtain ⟨hrest, hruns⟩ := ih (some (a.time r ready).alightTime)
          unfold segments Assembly.segments
          simp only [time_eq hn hride, hrest, pure_bind]
          exact ⟨trivial, hruns.ride hride⟩

/-- Moving changes looks only at halts and calls that are there, and gives rides
that run. -/
theorem slideChanges_eq (hn : a.network.Valid) {segments : List Segment}
    (h : AllRun a.network segments) :
    slideChanges a segments = pure (a.slideChanges segments) ∧
      AllRun a.network (a.slideChanges segments) := by
  induction segments with
  | nil => exact ⟨rfl, h⟩
  | cons segment rest ih =>
      obtain ⟨hrest, hruns⟩ := ih h.tail
      unfold slideChanges Assembly.slideChanges
      rw [hrest, pure_bind]
      revert hruns
      generalize a.slideChanges rest = slid
      intro hruns
      cases segment with
      | walk _ _ _ => exact ⟨rfl, hruns.walk _ _ _⟩
      | ride before =>
          have hbefore := h before List.mem_cons_self
          have hkept := hruns.ride hbefore
          cases slid with
          | nil => exact ⟨rfl, hkept⟩
          | cons next others =>
              cases next with
              | walk _ _ _ => exact ⟨rfl, hkept⟩
              | ride after =>
                  have hafter := hruns after List.mem_cons_self
                  simp only [cheapestChange?_eq hn hbefore hafter, pure_bind]
                  cases hchange : a.cheapestChange? before after with
                  | none => exact ⟨rfl, hkept⟩
                  | some pair =>
                      have hmoved := SlidingContext.of_cheapestChange? hbefore hafter hchange
                      exact ⟨rfl, (hruns.tail.ride hmoved.runs_after).ride hmoved.runs_before⟩

theorem finish_eq {segments : List Segment} (h : AllRun a.network segments)
    (access egress : Connector) :
    finish a access segments egress = pure (a.finish access segments egress) := by
  have htrips : (segments.filterMap Segment.ride?).mapM
      (fun l => do trip (← pattern a.network l.pattern) l.trip) =
        (pure ((segments.filterMap Segment.ride?).map fun l => a.network.trip l.pattern l.trip) :
          Strict _) := by
    refine mapM_eq_pure fun l hl => ?_
    obtain ⟨segment, hsegment, hride⟩ := List.mem_filterMap.mp hl
    have hruns : a.network.schedule.Runs l := by
      cases segment with
      | walk _ _ _ => cases hride
      | ride l' =>
          obtain rfl := Option.some.inj hride
          exact h l' hsegment
    have htrip : l.trip < (a.network.pattern l.pattern).trips.length := hruns.trip_lt
    rw [pattern_eq (Schedule.lt_size_of_lt_length hruns.alight_lt), pure_bind, trip_eq htrip]
    rfl
  unfold finish
  rw [htrips, pure_bind]

/-- All that is looked up for a journey is there. -/
theorem build?_eq (hsuits : a.Suits ctx t) {departure : Time} {rounds : Nat}
    (hs : ctx.StoreSound departure s rounds) {d : Label} (hd : ctx.LeadsOut s d) :
    build? a s d = pure (a.build? s d) := by
  obtain ⟨access, first, middle, last, egress, hleads⟩ := hsuits.exists_leads hs hd
  obtain ⟨i, j, hsteps, haccess, hegress⟩ := hleads.steps_eq
  obtain ⟨haccesses, hegresses⟩ := hleads.travels.filterMap_connectors i j
  have hn : a.network.Valid := hsuits.forward ▸ hsuits.valid .forward
  have hruns : ∀ r, .ride r ∈ Step.access i :: (middle ++ [Step.egress j]) →
      ∀ ready, a.network.schedule.Runs (a.time r ready) := by
    intro r hr ready
    have hr : .ride r ∈ middle := by simpa using hr
    rcases hleads.travels.of_mem hr with ⟨x, hbrings, heq⟩ | ⟨_, w, _, -, heq⟩
    · obtain rfl := Step.ride.inj heq
      exact hsuits.runs hbrings ready
    · cases heq
  obtain ⟨hsegments, hallRun⟩ := segments_eq hn hruns none
  obtain ⟨hslid, hallRun'⟩ := slideChanges_eq hn hallRun
  have haccess' : [i].mapM (connector a.access) = pure [access] := by
    simp [connector, haccess, found]
  have hegress' : [j].mapM (connector a.egress) = pure [egress] := by
    simp [connector, hegress, found]
  unfold build? Assembly.build?
  simp only [steps?_eq hsuits hs hd, hsteps, haccesses, hegresses, haccess', hegress', hsegments,
    hslid, List.getLast?_singleton, List.mapM_cons, List.mapM_nil, haccess, hegress,
    Option.pure_def, Option.bind_eq_bind, Option.bind_some, pure_bind]
  cases a.slide with
  | false =>
      simp only [Bool.false_eq_true, ↓reduceIte, finish_eq hallRun, pure_bind]
  | true =>
      simp only [↓reduceIte, finish_eq hallRun', pure_bind]

end Journeys

end Strict

end TransitRouting
