/-
  TransitRouting.Proofs.Iteration.Onward
  ──────────────────────────────────────
  Where one goes from a ride other than on board the next trip.

  Only from rides one walks on, and only from rides one leaves for the
  destination.  Both happen once for every round: one leaves right after the
  round's rides, and walks before the rides of the next round.  A ride that is
  among the best labels of its stop in the end has been walked on from and left
  at, for best labels of a round only ever become fewer once the round's rides
  are in.

  Main statements:

    • `Iteration.Onward.playRound` — one more round keeps this invariant;
    • `Iteration.run_walked` — without an interrupt, every footpath from a best
      ride has been walked;
    • `Iteration.run_delivered` — wherever a best ride ends at a connector to
      the destination, some destination label is as early.
-/
import TransitRouting.Proofs.Iteration.Invariant

namespace TransitRouting

/-! ## §1. Labels at the destination. -/

namespace Label

/-- One of the labels is there by the time. -/
def ArriveBy (labels : List Label) (t : Time) : Prop := ∃ d ∈ labels, d.arrival ≤ t

variable {policy : TieBreak} {kept : List Label} {t : Time}

theorem arriveBy_offer (x : Label) :
    ArriveBy (Frontier.offer (rivalry policy) kept x) x.arrival := by
  by_cases hrejected : ∃ held ∈ kept, (rivalry policy).rejects held x = true
  · rw [Frontier.offer_of_rejected hrejected]
    obtain ⟨held, hheld, hrejects⟩ := hrejected
    have hrejects : held.criteria.Rejects policy x.criteria := by
      simpa [rivalry] using hrejects
    -- Whatever rejects the label is as early.
    rcases hrejects with hdominates | ⟨hvalues, -⟩
    · exact ⟨held, hheld, hdominates.2.1.1⟩
    · exact ⟨held, hheld, Int.le_of_eq (congrArg Time.seconds hvalues.1)⟩
  · exact ⟨x, Frontier.mem_offer_self hrejected, Time.le_refl _⟩

theorem ArriveBy.offer (h : ArriveBy kept t) (x : Label) :
    ArriveBy (Frontier.offer (rivalry policy) kept x) t := by
  obtain ⟨d, hd, hle⟩ := h
  by_cases hdominates : x.criteria.Dominates d.criteria
  · have hmatched : ArriveBy (Frontier.offer (rivalry policy) kept x) x.arrival := arriveBy_offer x
    obtain ⟨e, he, hearly⟩ := hmatched
    exact ⟨e, he, Time.le_trans hearly (Time.le_trans hdominates.2.1.1 hle)⟩
  · exact ⟨d, Frontier.mem_offer_of_not_dominates hd (by simpa [rivalry] using hdominates), hle⟩

theorem ArriveBy.offerAll (h : ArriveBy kept t) (labels : List Label) :
    ArriveBy (labels.foldl (Frontier.offer (rivalry policy)) kept) t :=
  List.foldlRecOn (motive := fun found => ArriveBy found t) labels _ h
    fun _ hfound x _ => hfound.offer x

/-- Every label that was offered is matched. -/
theorem arriveBy_of_mem {labels : List Label} {x : Label} (hx : x ∈ labels) :
    ArriveBy (labels.foldl (Frontier.offer (rivalry policy)) kept) x.arrival := by
  obtain ⟨before, after, rfl⟩ := List.append_of_mem hx
  rw [List.foldl_append, List.foldl_cons]
  apply ArriveBy.offerAll
  exact arriveBy_offer x

end Label

/-! ## §2. One round. -/

namespace SearchContext

/-- From every best ride of the round all footpaths have been walked. -/
def Walked (ctx : SearchContext) (s : LabelStore) (round : Nat) : Prop :=
  ∀ ⦃stop place e path⦄, (place, e) ∈ s.bestLabels round stop → e.isRide = true →
    path ∈ ctx.network.footpathsFrom stop →
    s.ReachedBy path.destination round (e.arrival + path.duration)

/-- Wherever a best ride of the round ends at a connector to the destination,
some destination label is as early. -/
def Delivered (ctx : SearchContext) (s : LabelStore) (found : List Label) (round : Nat) : Prop :=
  ∀ ⦃c place e⦄, c ∈ ctx.egress → (place, e) ∈ s.bestLabels round c.stop → e.isRide = true →
    Label.ArriveBy found (e.arrival + c.duration)

variable {ctx : SearchContext} {departure : Time} {s s' : LabelStore} {last r round : Nat}
  {found : List Label}

theorem StoreSound.isRide_of_round_zero (h : ctx.StoreSound departure s last) {stop : Nat}
    {place : LabelPlace} {e : Label} (he : (place, e) ∈ s.bestLabels 0 stop) :
    e.isRide = false := by
  obtain ⟨rest, hway⟩ := h.realised (h.soundTo.valid.label?_of_mem_bestLabels he)
  rw [(LabelStore.mem_bestLabels.mp he).1] at hway
  by_contra hride
  exact hway.round_ne_zero (by simpa using hride) rfl

theorem StoreSound.walked_zero (h : ctx.StoreSound departure s last) : ctx.Walked s 0 := by
  intro stop place e path he hride
  rw [h.isRide_of_round_zero he] at hride
  cases hride

theorem StoreSound.delivered_zero (h : ctx.StoreSound departure s last) :
    ctx.Delivered s found 0 := by
  intro c place e _ he hride
  rw [h.isRide_of_round_zero he] at hride
  cases hride

theorem Walked.extends (h : ctx.Walked s round) (hextends : s.Extends s' r) (hround : round < r) :
    ctx.Walked s' round := by
  intro stop place e path he hride hpath
  rw [hextends.bestLabels_eq round hround] at he
  exact hextends.reachedBy (h he hride hpath)

theorem Delivered.extends (h : ctx.Delivered s found round) (hextends : s.Extends s' r)
    (hround : round < r) : ctx.Delivered s' found round := by
  intro c place e hc he hride
  rw [hextends.bestLabels_eq round hround] at he
  exact h hc he hride

/-- A round of which one has walked has no more best rides than before. -/
theorem StoreSound.mem_bestLabels_of_walks (h : ctx.StoreSound departure s last)
    (hctx : ctx.Valid) {k stop : Nat} {place : LabelPlace} {e : Label} (hride : e.isRide = true)
    (he : (place, e) ∈ (s.offerAll last (ctx.walks s last)).1.bestLabels k stop) :
    (place, e) ∈ s.bestLabels k stop := by
  have hstops : ∀ l ∈ ctx.walks s last, l.stop < s.stopCount :=
    fun l hl => h.stopCount ▸ hctx.stop_lt_of_mem_walks hl
  obtain ⟨-, -, hkept⟩ := h.soundTo.offerAll_induction
    (motive := fun u => (place, e) ∈ u.bestLabels k stop → (place, e) ∈ s.bestLabels k stop)
    hstops (by
      intro u l u' at' hl hu hstop hgiven hadd hbest
      rcases (LabelStore.mem_bestLabels_add? hu.valid hstop hadd).mp hbest with
        ⟨-, -, rfl⟩ | ⟨hbefore, -⟩
      · -- The newcomer is a walk.
        obtain ⟨_, _, _, _, -, -, -, rfl⟩ := mem_walks hl
        cases hride
      · exact hgiven hbefore) fun hbest => hbest
  exact hkept he

/-- The walks of the last round are those from its best rides. -/
theorem StoreSound.walked_walks (h : ctx.StoreSound departure s last) (hctx : ctx.Valid) :
    ctx.Walked (s.offerAll last (ctx.walks s last)).1 last := by
  intro stop place e path he hride hpath
  have hbefore := h.mem_bestLabels_of_walks hctx hride he
  have hstop : e.stop = stop := h.soundTo.valid.stop_of_mem_bestLabels hbefore
  have hreached : stop ∈ s.reachedStops last :=
    h.soundTo.valid.mem_reachedStops.mpr (List.ne_nil_of_mem hbefore)
  have hmem : ctx.walkOn place e path ∈ ctx.walks s last := by
    apply List.mem_flatMap.mpr
    refine ⟨(place, e), List.mem_flatMap.mpr ⟨stop, hreached, ?_⟩, ?_⟩
    · exact List.mem_filter.mpr ⟨hbefore, hride⟩
    · exact List.mem_map_of_mem (hstop ▸ hpath)
  have hstops : ∀ l ∈ ctx.walks s last, l.stop < s.stopCount :=
    fun l hl => h.stopCount ▸ hctx.stop_lt_of_mem_walks hl
  have hmatched := LabelStore.reachedBy_of_mem hmem h.soundTo hstops
  exact hmatched

theorem StoreSound.delivered_walks (h : ctx.StoreSound departure s last) (hctx : ctx.Valid)
    (hdelivered : ctx.Delivered s found round) :
    ctx.Delivered (s.offerAll last (ctx.walks s last)).1 found round := by
  intro c place e hc he hride
  exact hdelivered hc (h.mem_bestLabels_of_walks hctx hride he) hride

/-- Once the ways out of a round have been offered, the round is delivered. -/
theorem delivered_exits (kept : List Label) :
    ctx.Delivered s ((ctx.exits s round).foldl (Frontier.offer (Label.rivalry ctx.tieBreak)) kept)
      round := by
  intro c place e hc he hride
  obtain ⟨index, hindex⟩ := List.mem_iff_getElem?.mp hc
  have hzip : (c, index) ∈ ctx.egress.zipIdx := List.mem_zipIdx_iff_getElem?.mpr hindex
  have hmem : ctx.leave place e c index ∈ ctx.exits s round := by
    apply List.mem_flatMap.mpr
    refine ⟨(c, index), hzip, List.mem_map.mpr ⟨(place, e), ?_, rfl⟩⟩
    exact List.mem_filter.mpr ⟨he, hride⟩
  exact Label.arriveBy_of_mem hmem

theorem Delivered.offerAll (h : ctx.Delivered s found round) (labels : List Label) :
    ctx.Delivered s (labels.foldl (Frontier.offer (Label.rivalry ctx.tieBreak)) found) round := by
  intro c place e hc he hride
  exact (h hc he hride).offerAll labels

end SearchContext

/-! ## §3. The rounds. -/

namespace Iteration

variable {ctx : SearchContext} {it : Iteration}

/-- From the best rides of all rounds one has left for the destination, and from
those of the rounds that are over one has walked on. -/
structure Onward (ctx : SearchContext) (it : Iteration) : Prop where
  walked : ∀ round < it.rounds, ctx.Walked it.store round
  delivered : ∀ round ≤ it.rounds, ctx.Delivered it.store it.destinations round

theorem start_onward (hctx : ctx.Valid) (departure : Time) : (start ctx departure).Onward ctx where
  walked := fun _ hround => absurd hround (Nat.not_lt_zero _)
  delivered := by
    intro round hround
    obtain rfl : round = 0 := Nat.le_zero.mp hround
    exact (start_sound hctx departure).store.delivered_zero

/-- When one has walked, the last round is over, too. -/
theorem Onward.walkOn (hctx : ctx.Valid) (hs : it.Sound ctx) (h : it.Onward ctx) :
    ∀ round ≤ it.rounds, ctx.Walked (it.walkOn ctx).store round ∧
      ctx.Delivered (it.walkOn ctx).store it.destinations round := by
  intro round hround
  have hdelivered := h.delivered round hround
  unfold Iteration.walkOn
  by_cases hzero : it.rounds = 0
  · rw [if_pos hzero]
    obtain rfl : round = 0 := by omega
    exact ⟨hs.store.walked_zero, hdelivered⟩
  · rw [if_neg hzero]
    refine ⟨?_, hs.store.delivered_walks hctx hdelivered⟩
    rcases Nat.lt_or_eq_of_le hround with hlt | rfl
    · exact (h.walked round hlt).extends (hs.store.walks hctx).2 hlt
    · exact hs.store.walked_walks hctx

/-- One more round keeps the invariant. -/
theorem Onward.playRound (hctx : ctx.Valid) (hs : it.Sound ctx) (h : it.Onward ctx) :
    (it.playRound ctx).1.Onward ctx := by
  have hbefore := h.walkOn hctx hs
  have hplayed := hs.playRound_store hctx
  have hstore := (hs.walkOn hctx).store
  rw [walkOn_rounds] at hstore
  obtain ⟨-, hextends, -⟩ := hstore.rides hctx
  rw [← hplayed] at hextends
  constructor
  · intro round hround
    have hlt : round < it.rounds + 1 := hround
    exact (hbefore round (Nat.le_of_lt_succ hlt)).1.extends hextends hlt
  · intro round hround
    rw [playRound_destinations]
    rcases Nat.lt_or_eq_of_le hround with hlt | rfl
    · apply SearchContext.Delivered.offerAll
      exact (hbefore round (Nat.le_of_lt_succ hlt)).2.extends hextends hlt
    · exact SearchContext.delivered_exits _

theorem playRounds_onward (hctx : ctx.Valid) (interrupt : Interrupt) (departure : Time) :
    (playRounds ctx interrupt ctx.maxRounds (start ctx departure)).Onward ctx :=
  playRounds_induction hctx (fun h => ⟨h.walked, h.delivered⟩) (fun hs h => h.playRound hctx hs)
    interrupt ctx.maxRounds (start_sound hctx departure) (start_onward hctx departure)

/-! ## §4. The whole iteration. -/

/-- Without an interrupt, every footpath from a best ride has been walked. -/
theorem run_walked (hctx : ctx.Valid) {interrupt : Interrupt} {departure : Time}
    (hrun : (run ctx interrupt departure).cancelled = false) (round : Nat) :
    ctx.Walked (run ctx interrupt departure).store round := by
  have honward := playRounds_onward hctx interrupt departure
  obtain ⟨hsound, -⟩ := (start_sound hctx departure).playRounds hctx interrupt ctx.maxRounds
  obtain ⟨hfinal, -⟩ := run_sound hctx interrupt departure
  obtain ⟨-, heq⟩ := run_eq_walkOn hrun
  rw [heq] at hfinal ⊢
  generalize Iteration.playRounds ctx interrupt ctx.maxRounds (start ctx departure) = it at *
  by_cases hround : round ≤ it.rounds
  · exact (honward.walkOn hctx hsound round hround).1
  · -- There are no labels after the last round.
    intro stop place e path he
    have hempty := hfinal.store.soundTo.emptyAfter round (by rw [walkOn_rounds]; omega) stop
    rw [hempty] at he
    cases he

/-- Wherever a best ride ends at a connector to the destination, some destination
label is as early. -/
theorem run_delivered (hctx : ctx.Valid) (interrupt : Interrupt) (departure : Time)
    (round : Nat) :
    ctx.Delivered (run ctx interrupt departure).store
      (run ctx interrupt departure).destinations round := by
  have honward := playRounds_onward hctx interrupt departure
  obtain ⟨hsound, -⟩ := (start_sound hctx departure).playRounds hctx interrupt ctx.maxRounds
  obtain ⟨hfinal, -⟩ := run_sound hctx interrupt departure
  by_cases hround : round ≤ (run ctx interrupt departure).rounds
  · rcases run_cases ctx interrupt departure with ⟨-, heq⟩ | ⟨-, heq⟩
    · rw [heq] at hround ⊢
      exact honward.delivered round hround
    · rw [heq] at hround ⊢
      rw [walkOn_rounds] at hround
      rw [walkOn_destinations]
      exact (honward.walkOn hctx hsound round hround).2
  · intro c place e _ he
    have hempty := hfinal.store.soundTo.emptyAfter round (by omega) c.stop
    rw [hempty] at he
    cases he

end Iteration

end TransitRouting
