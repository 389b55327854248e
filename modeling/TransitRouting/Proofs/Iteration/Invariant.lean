/-
  TransitRouting.Proofs.Iteration.Invariant
  ─────────────────────────────────────────
  What holds of an iteration after every round.

  Labels are only ever offered to the last round or the next one, so earlier
  rounds are settled: their best labels stay, what they reached stays reached,
  and every ride that could be taken from them has been offered.  Every label
  has a way from the origin, and every destination label leads out of a ride.

  Main statements:

    • `Iteration.Sound.playRound` — one more round keeps the invariant;
    • `Iteration.run_sound` — it holds at the end, interrupted or not;
    • `Iteration.run_closed` — without an interrupt, every ride that the limit
      allows for has been offered.
-/
import TransitRouting.Proofs.Iteration.Ways

namespace TransitRouting

/-! ## §1. Stores that grow. -/

namespace LabelStore

/-- The second store came from the first by offers to rounds from `r` on. -/
structure Extends (s s' : LabelStore) (r : Nat) : Prop where
  /-- Labels stay in their places. -/
  keeps : s.Keeps s'
  /-- Earlier rounds are settled. -/
  bestLabels_eq : ∀ k < r, ∀ stop, s'.bestLabels k stop = s.bestLabels k stop
  /-- What was reached stays reached. -/
  reachedBy : ∀ {stop q t}, s.ReachedBy stop q t → s'.ReachedBy stop q t

theorem SoundTo.extends_offerAll {s : LabelStore} {r : Nat} {labels : List Label}
    (h : s.SoundTo r) (hstops : ∀ l ∈ labels, l.stop < s.stopCount) :
    s.Extends (s.offerAll r labels).1 r where
  keeps := by
    intro place l hl
    exact LabelStore.offerAll_induction (motive := fun u => u.label? place = some l)
      (fun _ hu hadd => label?_add?_of_some hadd hu) hl
  bestLabels_eq := by
    intro k hk stop
    exact LabelStore.offerAll_induction
      (motive := fun u => u.bestLabels k stop = s.bestLabels k stop) (fun _ hu hadd =>
        (bestLabels_add?_of_ne hadd (Nat.ne_of_lt hk) stop).trans hu) rfl
  reachedBy := fun hreached => hreached.offerAll h hstops

end LabelStore

/-! ## §2. Stores of a search. -/

/-- A search that starts at stops of a network that can be relied on. -/
structure SearchContext.Valid (ctx : SearchContext) : Prop where
  /-- The network can be relied on. -/
  network : ctx.network.Valid
  /-- The search starts at stops of the network. -/
  access : ∀ c ∈ ctx.access, c.stop < ctx.network.stopCount

theorem Feed.context_valid {f : Feed} {t : Timetable} (h : f.compile = .ok t)
    {ctx : SearchContext} {direction : Direction} (hnetwork : ctx.network = t.network direction)
    (haccess : ∀ c ∈ ctx.access, c.stop < t.stopCount) : ctx.Valid where
  network := hnetwork ▸ Feed.compile_network_valid h direction
  access := by
    intro c hc
    rw [hnetwork, Feed.compile_stopCount h]
    exact haccess c hc

namespace SearchContext

/-- What holds of the store whenever labels up to round `last` have been
offered. -/
structure StoreSound (ctx : SearchContext) (departure : Time) (s : LabelStore) (last : Nat) :
    Prop where
  /-- The store is for the stops of the network. -/
  stopCount : s.stopCount = ctx.network.stopCount
  /-- The store's lists are true, and free of dominated labels. -/
  soundTo : s.SoundTo last
  /-- Every label has a way from the origin. -/
  realised : ∀ {place l}, s.label? place = some l → ctx.Realised departure s place.round l

/-- Every ride from a best label of the round has been offered to the next
one. -/
def Closed (ctx : SearchContext) (s : LabelStore) (round : Nat) : Prop :=
  ∀ ⦃pattern board alight r⦄, ctx.Boards s (round + 1) pattern board r → board < alight →
    alight < (ctx.network.pattern pattern).length →
    (ctx.network.pattern pattern).canAlight alight = true →
    s.ReachedBy ((ctx.network.pattern pattern).stopAt alight) (round + 1)
      (((ctx.network.pattern pattern).trip r.boarding.trip).arrivalAt alight)

variable {ctx : SearchContext} {departure : Time} {s s' : LabelStore}

theorem Valid.stop_lt_of_mem_seeds (h : ctx.Valid) {l : Label} (hl : l ∈ ctx.seeds departure) :
    l.stop < ctx.network.stopCount := by
  obtain ⟨c, index, hc, hstop, -⟩ := mem_seeds hl
  rw [hstop]
  exact h.access c (List.mem_of_getElem? (List.mem_zipIdx_iff_getElem?.mp hc))

theorem Valid.stop_lt_of_mem_rides (h : ctx.Valid) {round : Nat} {l : Label}
    (hl : l ∈ ctx.rides s round) : l.stop < ctx.network.stopCount := by
  obtain ⟨pattern, board, alight, r, -, -, hlength, -, rfl⟩ := mem_rides hl
  exact (h.network.pattern_of_lt_length hlength).stop_lt alight hlength

theorem Valid.stop_lt_of_mem_walks (h : ctx.Valid) {round : Nat} {l : Label}
    (hl : l ∈ ctx.walks s round) : l.stop < ctx.network.stopCount := by
  obtain ⟨stop, place, e, path, -, -, hpath, rfl⟩ := mem_walks hl
  exact (h.network.schedule.footpath path (h.network.mem_footpathsFrom hpath).1).2

/-- Offering labels that have a way keeps the store sound. -/
theorem StoreSound.offerAll {last r : Nat} {labels : List Label}
    (h : ctx.StoreSound departure s last) (hle : last ≤ r)
    (hstops : ∀ l ∈ labels, l.stop < ctx.network.stopCount)
    (hways : ∀ l ∈ labels, ctx.Realised departure s r l) :
    ctx.StoreSound departure (s.offerAll r labels).1 r ∧
      s.Extends (s.offerAll r labels).1 r := by
  have hsound := h.soundTo.mono hle
  have hstops' : ∀ l ∈ labels, l.stop < s.stopCount := fun l hl => h.stopCount ▸ hstops l hl
  have hextends := hsound.extends_offerAll hstops'
  obtain ⟨hafter, hcount, hstored⟩ := hsound.offerAll_induction
    (motive := fun u => s.Keeps u ∧
      ∀ {place l}, u.label? place = some l → ctx.Realised departure u place.round l)
    hstops' (by
      intro u l u' place hl _ _ hgiven hadd
      obtain ⟨hkeeps, hu⟩ := hgiven
      have hkeeps' : u.Keeps u' := fun he => LabelStore.label?_add?_of_some hadd he
      refine ⟨fun he => hkeeps' (hkeeps he), ?_⟩
      intro at' e he
      rw [LabelStore.label?_add? hadd] at he
      split at he
      · next hat =>
          -- The label just taken in.
          obtain rfl := Option.some.inj he
          obtain ⟨-, rfl, -⟩ := LabelStore.add?_eq_some hadd
          rw [hat]
          exact (hways l hl).keeps fun he => hkeeps' (hkeeps he)
      · exact (hu he).keeps hkeeps') ⟨fun he => he, h.realised⟩
  exact ⟨⟨hcount.trans h.stopCount, hafter, hstored.2⟩, hextends⟩

/-- Whoever boards from a settled round could board before. -/
theorem Boards.of_extends {last r round pattern position : Nat} {rider : Rider}
    (h : ctx.StoreSound departure s last) (hextends : s.Extends s' r) (hround : round < r)
    (hboards : ctx.Boards s' (round + 1) pattern position rider) :
    ctx.Boards s (round + 1) pattern position rider := by
  obtain ⟨hcan, place, l, hl, hrider⟩ := hboards
  rw [Nat.add_sub_cancel, hextends.bestLabels_eq round hround] at hl
  obtain ⟨rest, hway⟩ := h.realised (h.soundTo.valid.label?_of_mem_bestLabels hl)
  rw [hway.arrivingTrip_eq hextends.keeps] at hrider
  exact ⟨hcan, place, l, by rwa [Nat.add_sub_cancel], hrider⟩

theorem Closed.extends {last r round : Nat} (hclosed : ctx.Closed s round)
    (h : ctx.StoreSound departure s last) (hextends : s.Extends s' r) (hround : round < r) :
    ctx.Closed s' round := by
  intro pattern board alight rider hboards hlt hlength hcan
  exact hextends.reachedBy (hclosed (hboards.of_extends h hextends hround) hlt hlength hcan)

/-- Where no rule applies, whoever is early enough for a trip boards it or an
earlier one. -/
theorem exists_rider (hn : ctx.network.Valid) {f : Option Feeder}
    {round pattern board trip : Nat} {place : LabelPlace} {l : Label}
    (hrules : ∀ feeder, f = some feeder → ctx.network.applicableRules feeder pattern board = [])
    (hboard : (ctx.network.pattern pattern).canBoard board = true)
    (htrip : trip < (ctx.network.pattern pattern).trips.length)
    (hcatch : (if round = 1 then l.arrival
        else l.arrival + ctx.slackFor (ctx.network.pattern pattern)) ≤
      ((ctx.network.pattern pattern).trip trip).departureAt board) :
    ∃ r, ctx.riderFrom? f round pattern board place l = some r ∧ r.boarding.trip ≤ trip := by
  have hlength := Pattern.lt_length_of_canBoard hboard
  have hvalid := hn.pattern_of_lt_length hlength
  obtain ⟨found, hle, hfound⟩ :=
    hvalid.ordered.firstDeparture?_eq_some (Nat.lt_of_succ_lt hlength) htrip hcatch
  have houtcome : ctx.network.earliestBoarding pattern board
      (if round = 1 then l.arrival else l.arrival + ctx.slackFor (ctx.network.pattern pattern))
      l.arrival f = .found ((ctx.network.pattern pattern).boarding found board none) := by
    rw [Network.earliestBoarding_of_none_applies hboard hrules]
    unfold Pattern.boardFirst
    rw [hfound]
  unfold riderFrom?
  simp only [decide_eq_true_eq, houtcome]
  exact ⟨_, rfl, hle⟩

/-- One rides on from a stop to which somebody got as early to whom no rule
applies: that label catches the trip or an earlier one, which arrives no later. -/
theorem reachedBy_of_catch (hn : ctx.network.Valid) {limit : Nat}
    (hclosed : ∀ round < limit, ctx.Closed s round) {rides stop : Nat} {t : Time}
    {pattern trip board alight : Nat}
    (h : ∃ k ≤ rides, ∃ e ∈ s.bestLabels k stop, e.2.arrival ≤ t ∧ ∀ feeder,
      s.arrivingTrip e.2 = some feeder → ctx.network.applicableRules feeder pattern board = [])
    (hlimit : rides < limit) (hstop : (ctx.network.pattern pattern).stopAt board = stop)
    (hboard : (ctx.network.pattern pattern).canBoard board = true) (hlt : board < alight)
    (hlength : alight < (ctx.network.pattern pattern).length)
    (halight : (ctx.network.pattern pattern).canAlight alight = true)
    (htrip : trip < (ctx.network.pattern pattern).trips.length)
    (hcatch : (if rides = 0 then t else t + ctx.slackFor (ctx.network.pattern pattern)) ≤
      ((ctx.network.pattern pattern).trip trip).departureAt board) :
    s.ReachedBy ((ctx.network.pattern pattern).stopAt alight) (rides + 1)
      (((ctx.network.pattern pattern).trip trip).arrivalAt alight) := by
  obtain ⟨k, hk, ⟨place, e⟩, he, hearly, hrules⟩ := h
  have hready : (if k + 1 = 1 then e.arrival
      else e.arrival + ctx.slackFor (ctx.network.pattern pattern)) ≤
        (if rides = 0 then t else t + ctx.slackFor (ctx.network.pattern pattern)) := by
    by_cases hrides : rides = 0
    · have hfirst : k = 0 := by omega
      simpa [hrides, hfirst] using hearly
    · rw [if_neg hrides]
      split
      · exact Time.le_trans hearly (Time.le_add _ _)
      · exact Time.add_le_add hearly (Nat.le_refl _)
  obtain ⟨r, hrider, hle⟩ : ∃ r,
      ctx.riderFrom? (s.arrivingTrip e) (k + 1) pattern board place e = some r ∧
        r.boarding.trip ≤ trip :=
    exists_rider hn hrules hboard htrip (Time.le_trans hready hcatch)
  have hboards : ctx.Boards s (k + 1) pattern board r := by
    refine ⟨hboard, place, e, ?_, hrider⟩
    rw [Nat.add_sub_cancel, hstop]
    exact he
  have hreached := hclosed k (by omega) hboards hlt hlength halight
  have hordered := (hn.pattern_of_lt_length hlength).ordered
  exact hreached.mono (by omega) (hordered.keepsAhead hle htrip alight hlength).1

/-- A round without best labels leads nowhere. -/
theorem closed_of_bestLabels_eq_nil {round : Nat} (h : ∀ stop, s.bestLabels round stop = []) :
    ctx.Closed s round := by
  intro pattern board alight rider hboards
  obtain ⟨-, place, l, hl, -⟩ := hboards
  rw [Nat.add_sub_cancel, h] at hl
  cases hl

/-! ## §3. The phases of a round. -/

theorem StoreSound.empty (ctx : SearchContext) (departure : Time) :
    ctx.StoreSound departure (LabelStore.empty ctx.network.stopCount ctx.tieBreak) 0 where
  stopCount := rfl
  soundTo := LabelStore.SoundTo.empty _ _ 0
  realised := by
    intro place l hl
    rw [LabelStore.label?_eq] at hl
    simp at hl

/-- The first labels are those that connectors lead to. -/
theorem Valid.storeSound_seeds (h : ctx.Valid) (departure : Time) :
    let s := LabelStore.empty ctx.network.stopCount ctx.tieBreak
    ctx.StoreSound departure (s.offerAll 0 (ctx.seeds departure)).1 0 ∧
      ∀ l ∈ ctx.seeds departure,
        (s.offerAll 0 (ctx.seeds departure)).1.ReachedBy l.stop 0 l.arrival := by
  have hempty := StoreSound.empty ctx departure
  have hstops : ∀ l ∈ ctx.seeds departure, l.stop < ctx.network.stopCount :=
    fun l hl => h.stop_lt_of_mem_seeds hl
  exact ⟨(hempty.offerAll (Nat.le_refl 0) hstops fun _ hl => realised_of_mem_seeds hl).1,
    fun l hl => LabelStore.reachedBy_of_mem hl hempty.soundTo hstops⟩

/-- Walks belong to the round that is over. -/
theorem StoreSound.walks (h : ctx.StoreSound departure s last) (hctx : ctx.Valid) :
    ctx.StoreSound departure (s.offerAll last (ctx.walks s last)).1 last ∧
      s.Extends (s.offerAll last (ctx.walks s last)).1 last :=
  h.offerAll (Nat.le_refl last) (fun _ hl => hctx.stop_lt_of_mem_walks hl)
    fun _ hl => realised_of_mem_walks h.soundTo.valid h.realised hl

/-- Rides make the next round, and leave the one before settled. -/
theorem StoreSound.rides (h : ctx.StoreSound departure s last) (hctx : ctx.Valid) :
    ctx.StoreSound departure (s.offerAll (last + 1) (ctx.rides s (last + 1))).1 (last + 1) ∧
      s.Extends (s.offerAll (last + 1) (ctx.rides s (last + 1))).1 (last + 1) ∧
      ctx.Closed (s.offerAll (last + 1) (ctx.rides s (last + 1))).1 last := by
  have hstops : ∀ l ∈ ctx.rides s (last + 1), l.stop < ctx.network.stopCount :=
    fun l hl => hctx.stop_lt_of_mem_rides hl
  obtain ⟨hsound, hextends⟩ := h.offerAll (Nat.le_succ last) hstops
    fun _ hl => realised_of_mem_rides h.soundTo.valid h.realised hl
  refine ⟨hsound, hextends, ?_⟩
  intro pattern board alight r hboards hlt hlength hcan
  have hboards' := hboards.of_extends h hextends (Nat.lt_succ_self last)
  obtain ⟨r', htrip, hmem⟩ :=
    hboards'.mem_rides hctx.network h.soundTo.valid h.stopCount hlt hlength hcan
  have hmatched := LabelStore.reachedBy_of_mem hmem (h.soundTo.mono (Nat.le_succ last))
    fun l hl => h.stopCount ▸ hstops l hl
  rw [← htrip]
  exact hmatched

end SearchContext

/-! ## §4. The rounds. -/

/-- The label leads from a ride to the destination. -/
def SearchContext.LeadsOut (ctx : SearchContext) (s : LabelStore) (d : Label) : Prop :=
  ∃ place q c index, s.label? place = some q ∧ q.isRide = true ∧ q.stop = c.stop ∧
    (c, index) ∈ ctx.egress.zipIdx ∧ d = ctx.leave place q c index

namespace Iteration

variable {ctx : SearchContext} {it : Iteration}

/-- What holds of an iteration after every round. -/
structure Sound (ctx : SearchContext) (it : Iteration) : Prop where
  /-- The store is sound. -/
  store : ctx.StoreSound it.departure it.store it.rounds
  /-- The stops that connectors lead to are reached. -/
  started : ∀ l ∈ ctx.seeds it.departure, it.store.ReachedBy l.stop 0 l.arrival
  /-- Every ride from a round that is over has been offered. -/
  closed : ∀ round < it.rounds, ctx.Closed it.store round
  /-- Every destination label leads out of a ride. -/
  destinations : ∀ d ∈ it.destinations, ctx.LeadsOut it.store d

theorem start_sound (h : ctx.Valid) (departure : Time) : (start ctx departure).Sound ctx where
  store := (h.storeSound_seeds departure).1
  started := (h.storeSound_seeds departure).2
  closed := fun _ hround => absurd hround (Nat.not_lt_zero _)
  destinations := fun _ hd => absurd hd List.not_mem_nil

theorem walkOn_rounds : (it.walkOn ctx).rounds = it.rounds := by
  unfold walkOn
  split <;> rfl

theorem walkOn_departure : (it.walkOn ctx).departure = it.departure := by
  unfold walkOn
  split <;> rfl

theorem walkOn_destinations : (it.walkOn ctx).destinations = it.destinations := by
  unfold walkOn
  split <;> rfl

theorem walkOn_cancelled : (it.walkOn ctx).cancelled = it.cancelled := by
  unfold walkOn
  split <;> rfl

/-- In one more round those leave for the destination whom the round's rides took
to where they can. -/
theorem playRound_destinations : (it.playRound ctx).1.destinations =
    (ctx.exits (it.playRound ctx).1.store (it.rounds + 1)).foldl
      (Frontier.offer (Label.rivalry ctx.tieBreak)) it.destinations := by
  unfold Iteration.playRound Iteration.walkOn
  split <;> rfl

theorem Sound.walkOn (hctx : ctx.Valid) (h : it.Sound ctx) : (it.walkOn ctx).Sound ctx := by
  unfold Iteration.walkOn
  split
  · exact h
  · obtain ⟨hstore, hextends⟩ := h.store.walks hctx
    refine ⟨hstore, ?_, ?_, ?_⟩
    · intro l hl
      exact hextends.reachedBy (h.started l hl)
    · intro round hround
      exact (h.closed round hround).extends h.store hextends hround
    · intro d hd
      obtain ⟨place, q, c, index, hq, hd⟩ := h.destinations d hd
      exact ⟨place, q, c, index, hextends.keeps hq, hd⟩

/-- The ways out of a round lead from its rides. -/
theorem leadsOut_of_mem_exits {s : LabelStore} (hs : s.Valid) {round : Nat} {d : Label}
    (h : d ∈ ctx.exits s round) : ctx.LeadsOut s d := by
  obtain ⟨⟨c, index⟩, hc, hd⟩ := List.mem_flatMap.mp h
  obtain ⟨⟨place, q⟩, hq, rfl⟩ := List.mem_map.mp hd
  obtain ⟨hbest, hride⟩ := List.mem_filter.mp hq
  exact ⟨place, q, c, index, hs.label?_of_mem_bestLabels hbest, hride,
    hs.stop_of_mem_bestLabels hbest, hc, rfl⟩

/-- In one more round the rides from where one has walked are offered; there is
nothing to prune. -/
theorem Sound.playRound_store (hctx : ctx.Valid) (h : it.Sound ctx) :
    (it.playRound ctx).1.store = ((it.walkOn ctx).store.offerAll (it.rounds + 1)
      (ctx.rides (it.walkOn ctx).store (it.rounds + 1))).1 := by
  have hstore := (h.walkOn hctx).store
  rw [walkOn_rounds] at hstore
  obtain ⟨hrides, -, -⟩ := hstore.rides hctx
  have hprune := LabelStore.prune_eq_self hrides.soundTo.valid hrides.soundTo.pareto
    (it.rounds + 1)
  show (((it.walkOn ctx).store.offerAll (it.rounds + 1)
    (ctx.rides (it.walkOn ctx).store (it.rounds + 1))).1.prune (it.rounds + 1)).1 = _
  rw [hprune]

/-- One more round keeps the invariant.  If it adds nothing, it has no
labels. -/
theorem Sound.playRound (hctx : ctx.Valid) (h : it.Sound ctx) :
    (it.playRound ctx).1.Sound ctx ∧ (it.playRound ctx).1.rounds = it.rounds + 1 ∧
      (it.playRound ctx).1.departure = it.departure ∧
      (it.playRound ctx).1.cancelled = it.cancelled ∧
      ((it.playRound ctx).2 = 0 → ∀ stop,
        (it.playRound ctx).1.store.bestLabels (it.rounds + 1) stop = []) := by
  have hwalked := h.walkOn hctx
  have hstore := hwalked.store
  rw [walkOn_rounds] at hstore
  obtain ⟨hrides, hextends, hclosed⟩ := hstore.rides hctx
  have hplayed := h.playRound_store hctx
  have hdeparture : (it.playRound ctx).1.departure = it.departure := walkOn_departure
  refine ⟨⟨?_, ?_, ?_, ?_⟩, rfl, hdeparture, walkOn_cancelled, ?_⟩
  · rw [hplayed]
    exact hrides
  · rw [hplayed, hdeparture]
    intro l hl
    have hl' : l ∈ ctx.seeds (it.walkOn ctx).departure := by
      rw [walkOn_departure]
      exact hl
    exact hextends.reachedBy (hwalked.started l hl')
  · rw [hplayed]
    intro round hround
    rcases Nat.lt_or_eq_of_le (Nat.le_of_lt_succ hround) with hlt | rfl
    · have hbefore := hwalked.closed round (walkOn_rounds.symm ▸ hlt)
      exact hbefore.extends hstore hextends (Nat.lt_succ_of_lt hlt)
    · exact hclosed
  · refine List.foldlRecOn (motive := fun found => ∀ d ∈ found,
      ctx.LeadsOut (it.playRound ctx).1.store d) _ _ ?_ ?_
    · intro d hd
      obtain ⟨place, q, c, index, hq, hd⟩ := hwalked.destinations d hd
      exact ⟨place, q, c, index, hplayed ▸ hextends.keeps hq, hd⟩
    · intro found hfound e he d hd
      rcases Frontier.mem_offer hd with rfl | hd
      · exact leadsOut_of_mem_exits (hplayed ▸ hrides.soundTo.valid) he
      · exact hfound d hd
  · intro hnone stop
    have hsame := LabelStore.offerAll_of_count_eq_zero hnone
    rw [hplayed, hsame]
    exact hstore.soundTo.emptyAfter (it.rounds + 1) (Nat.lt_succ_self _) stop

/-! ## §5. The whole iteration. -/

/-- The rounds keep the invariant.  Without an interrupt they go on to the
limit or to a round without labels. -/
theorem Sound.playRounds (hctx : ctx.Valid) (interrupt : Interrupt) (limit : Nat) :
    ∀ {it : Iteration}, it.Sound ctx →
      let result := Iteration.playRounds ctx interrupt limit it
      result.Sound ctx ∧ result.departure = it.departure ∧
        (result.cancelled = false → result.rounds = it.rounds + limit ∨
          ∀ stop, result.store.bestLabels result.rounds stop = []) := by
  induction limit with
  | zero => intro it h; exact ⟨h, rfl, fun _ => Or.inl rfl⟩
  | succ limit ih =>
      intro it h
      unfold Iteration.playRounds
      split
      · -- An interrupt leaves everything else as it is.
        exact ⟨⟨h.store, h.started, h.closed, h.destinations⟩, rfl, fun hc => by cases hc⟩
      · obtain ⟨hplayed, hrounds, hdeparture, -, hnone⟩ := h.playRound hctx
        simp only
        split
        · next hadded =>
            refine ⟨hplayed, hdeparture, fun _ => Or.inr ?_⟩
            rw [hrounds]
            exact hnone hadded
        · obtain ⟨hresult, hdeparture', hend⟩ := ih hplayed
          refine ⟨hresult, hdeparture'.trans hdeparture, fun hc => ?_⟩
          rcases hend hc with hlimit | hempty
          · exact Or.inl (by rw [hlimit, hrounds]; omega)
          · exact Or.inr hempty

/-- What every round keeps holds after all of them, if an interrupt does not
matter to it. -/
theorem playRounds_induction {motive : Iteration → Prop} (hctx : ctx.Valid)
    (hcancel : ∀ {it : Iteration}, motive it → motive { it with cancelled := true })
    (hstep : ∀ {it : Iteration}, it.Sound ctx → motive it → motive (it.playRound ctx).1)
    (interrupt : Interrupt) (limit : Nat) :
    ∀ {it : Iteration}, it.Sound ctx → motive it →
      motive (Iteration.playRounds ctx interrupt limit it) := by
  induction limit with
  | zero => intro it _ hmotive; exact hmotive
  | succ limit ih =>
      intro it h hmotive
      unfold Iteration.playRounds
      split
      · exact hcancel hmotive
      · have hplayed := hstep h hmotive
        simp only
        split
        · exact hplayed
        · exact ih (h.playRound hctx).1 hplayed

/-- Unless a round was interrupted, the walks from the last one are added. -/
theorem run_cases (ctx : SearchContext) (interrupt : Interrupt) (departure : Time) :
    (playRounds ctx interrupt ctx.maxRounds (start ctx departure)).cancelled = true ∧
        run ctx interrupt departure = playRounds ctx interrupt ctx.maxRounds (start ctx departure) ∨
      (playRounds ctx interrupt ctx.maxRounds (start ctx departure)).cancelled = false ∧
        run ctx interrupt departure =
          (playRounds ctx interrupt ctx.maxRounds (start ctx departure)).walkOn ctx := by
  unfold run
  cases hcancelled : (playRounds ctx interrupt ctx.maxRounds (start ctx departure)).cancelled with
  | true => exact Or.inl ⟨rfl, if_pos hcancelled⟩
  | false => exact Or.inr ⟨rfl, if_neg (by simp [hcancelled])⟩

/-- An iteration that nobody interrupts is not cancelled. -/
theorem cancelled_run_never (ctx : SearchContext) (departure : Time) :
    (run ctx Interrupt.never departure).cancelled = false := by
  have hplayed : ∀ limit {it : Iteration}, it.cancelled = false →
      (playRounds ctx Interrupt.never limit it).cancelled = false := by
    intro limit
    induction limit with
    | zero => exact fun h => h
    | succ limit ih =>
        intro it h
        have hround : (it.playRound ctx).1.cancelled = false := walkOn_cancelled.trans h
        unfold playRounds
        rw [if_neg (by simp [Interrupt.never])]
        simp only
        split
        · exact hround
        · exact ih hround
  rcases run_cases ctx Interrupt.never departure with ⟨hcancelled, -⟩ | ⟨hcancelled, heq⟩
  · rw [hplayed ctx.maxRounds rfl] at hcancelled
    cases hcancelled
  · rw [heq]
    exact walkOn_cancelled.trans hcancelled

theorem run_eq_walkOn {interrupt : Interrupt} {departure : Time}
    (hrun : (run ctx interrupt departure).cancelled = false) :
    (playRounds ctx interrupt ctx.maxRounds (start ctx departure)).cancelled = false ∧
      run ctx interrupt departure =
        (playRounds ctx interrupt ctx.maxRounds (start ctx departure)).walkOn ctx := by
  rcases run_cases ctx interrupt departure with ⟨hcancelled, heq⟩ | h
  · rw [heq, hcancelled] at hrun
    cases hrun
  · exact h

/-- The invariant holds at the end, interrupted or not. -/
theorem run_sound (hctx : ctx.Valid) (interrupt : Interrupt) (departure : Time) :
    (run ctx interrupt departure).Sound ctx ∧
      (run ctx interrupt departure).departure = departure := by
  obtain ⟨hsound, hdeparture, -⟩ :=
    (start_sound hctx departure).playRounds hctx interrupt ctx.maxRounds
  rcases run_cases ctx interrupt departure with ⟨-, heq⟩ | ⟨-, heq⟩
  · rw [heq]
    exact ⟨hsound, hdeparture⟩
  · rw [heq]
    exact ⟨hsound.walkOn hctx, walkOn_departure.trans hdeparture⟩

/-- From a last round without best labels nobody walks on. -/
theorem walkOn_store_of_bestLabels_eq_nil
    (h : ∀ stop, it.store.bestLabels it.rounds stop = []) :
    (it.walkOn ctx).store = it.store := by
  have hwalks : ctx.walks it.store it.rounds = [] := by
    rw [List.eq_nil_iff_forall_not_mem]
    intro l hl
    obtain ⟨stop, place, e, path, he, -⟩ := SearchContext.mem_walks hl
    rw [h] at he
    cases he
  unfold Iteration.walkOn
  split
  · rfl
  · rw [hwalks]
    rfl

/-- Without an interrupt, every ride that the limit allows for has been
offered. -/
theorem run_closed (hctx : ctx.Valid) {interrupt : Interrupt} {departure : Time}
    (hrun : (run ctx interrupt departure).cancelled = false) :
    ∀ round < ctx.maxRounds, ctx.Closed (run ctx interrupt departure).store round := by
  obtain ⟨hsound, -, hend⟩ :=
    (start_sound hctx departure).playRounds hctx interrupt ctx.maxRounds
  obtain ⟨hfinal, -⟩ := run_sound hctx interrupt departure
  obtain ⟨hcancelled, heq⟩ := run_eq_walkOn hrun
  rw [heq] at hfinal ⊢
  generalize Iteration.playRounds ctx interrupt ctx.maxRounds (start ctx departure) = it at *
  intro round hround
  rcases hend hcancelled with hlimit | hempty
  · refine hfinal.closed round ?_
    rw [walkOn_rounds, hlimit]
    exact Nat.lt_of_lt_of_le hround (Nat.le_add_left _ _)
  · by_cases hlt : round < it.rounds
    · exact hfinal.closed round (walkOn_rounds.symm ▸ hlt)
    · -- The rounds ended early, and nothing can be boarded from the last one on.
      refine SearchContext.closed_of_bestLabels_eq_nil fun stop => ?_
      rw [walkOn_store_of_bestLabels_eq_nil hempty]
      rcases Nat.lt_or_eq_of_le (Nat.le_of_not_lt hlt) with hafter | hlast
      · exact hsound.store.soundTo.emptyAfter round hafter stop
      · exact hlast ▸ hempty stop

end Iteration

end TransitRouting
