/-
  TransitRouting.Proofs.Iteration.Limits
  ──────────────────────────────────────
  What a greater limit of rounds adds to an iteration.

  A round depends on the rounds before it alone, so two iterations with
  different limits play the same rounds up to the smaller limit.  Whoever
  reaches the destination in a later round has made more transfers than all who
  did before, and makes none of them superfluous.

  Main statements:

    • `Iteration.playRounds_add` — more rounds go on from where fewer ended;
    • `Iteration.Continues.playRound` — one more round changes nothing about the
      labels that were there, and about the destination labels with fewer
      transfers than rounds were played before;
    • `Iteration.run_withRounds` — with the smaller limit exactly those
      destination labels are found that need no more rounds, and their chains
      are the same.
-/
import TransitRouting.Proofs.Iteration.Invariant
import TransitRouting.Proofs.Journey.Trails

namespace TransitRouting

/-! ## §1. The limit only matters to the number of rounds. -/

namespace SearchContext

/-- The same search with another limit. -/
def withRounds (ctx : SearchContext) (limit : Nat) : SearchContext :=
  { ctx with maxRounds := limit }

variable (ctx : SearchContext) (limit : Nat)

theorem ridesAlong_withRounds (s : LabelStore) (round pattern : Nat) (positions : List Nat)
    (riders : List Rider) :
    (ctx.withRounds limit).ridesAlong s round pattern positions riders =
      ctx.ridesAlong s round pattern positions riders := by
  induction positions generalizing riders with
  | nil => rfl
  | cons position rest ih => exact congrArg (_ ++ ·) (ih _)

theorem rides_withRounds (s : LabelStore) (round : Nat) :
    (ctx.withRounds limit).rides s round = ctx.rides s round := by
  unfold rides ridesOn
  simp only [ridesAlong_withRounds]
  rfl

end SearchContext

namespace Iteration

variable {ctx : SearchContext} {it later : Iteration}

theorem playRound_withRounds (ctx : SearchContext) (limit : Nat) (it : Iteration) :
    it.playRound (ctx.withRounds limit) = it.playRound ctx := by
  unfold playRound
  simp only [SearchContext.rides_withRounds]
  rfl

theorem playRounds_withRounds (ctx : SearchContext) (limit : Nat) (interrupt : Interrupt)
    (budget : Nat) (it : Iteration) :
    playRounds (ctx.withRounds limit) interrupt budget it = playRounds ctx interrupt budget it := by
  induction budget generalizing it with
  | zero => rfl
  | succ budget ih =>
      unfold playRounds
      simp only [playRound_withRounds, ih]

/-! ## §2. More rounds. -/

theorem playRounds_succ (ctx : SearchContext) (interrupt : Interrupt) (budget : Nat)
    (it : Iteration) :
    playRounds ctx interrupt (budget + 1) it =
      if interrupt (it.rounds + 1) then { it with cancelled := true }
      else if (it.playRound ctx).2 = 0 then (it.playRound ctx).1
      else playRounds ctx interrupt budget (it.playRound ctx).1 := rfl

theorem playRounds_rounds_le (ctx : SearchContext) (interrupt : Interrupt) (budget : Nat)
    (it : Iteration) : (playRounds ctx interrupt budget it).rounds ≤ it.rounds + budget := by
  induction budget generalizing it with
  | zero => exact Nat.le_refl _
  | succ budget ih =>
      have hplayed : (it.playRound ctx).1.rounds = it.rounds + 1 := rfl
      rw [playRounds_succ]
      split
      · exact Nat.le_add_right _ _
      · split
        · omega
        · have hrest := ih (it.playRound ctx).1
          omega

/-- With more rounds to play one goes on from where fewer ended, unless these
ended before all of them were played. -/
theorem playRounds_add (ctx : SearchContext) (interrupt : Interrupt) (few more : Nat)
    (it : Iteration) :
    playRounds ctx interrupt (few + more) it = playRounds ctx interrupt few it ∨
      (playRounds ctx interrupt few it).rounds = it.rounds + few ∧
        playRounds ctx interrupt (few + more) it =
          playRounds ctx interrupt more (playRounds ctx interrupt few it) := by
  induction few generalizing it with
  | zero =>
      rw [Nat.zero_add]
      exact Or.inr ⟨rfl, rfl⟩
  | succ few ih =>
      have hplayed : (it.playRound ctx).1.rounds = it.rounds + 1 := rfl
      -- Both do the same with the next round: skip it, end with it or go on from it.
      rw [Nat.succ_add, playRounds_succ, playRounds_succ]
      by_cases hinterrupt : interrupt (it.rounds + 1) = true
      · rw [if_pos hinterrupt, if_pos hinterrupt]
        exact Or.inl rfl
      · rw [if_neg hinterrupt, if_neg hinterrupt]
        by_cases hadded : (it.playRound ctx).2 = 0
        · rw [if_pos hadded, if_pos hadded]
          exact Or.inl rfl
        · rw [if_neg hadded, if_neg hadded]
          rcases ih (it.playRound ctx).1 with hsame | ⟨hrounds, hmore⟩
          · exact Or.inl hsame
          · refine Or.inr ⟨?_, hmore⟩
            rw [hrounds, hplayed]
            omega

/-! ## §3. What a round leaves alone. -/

theorem Sound.keeps_walkOn (hctx : ctx.Valid) (h : it.Sound ctx) :
    it.store.Keeps (it.walkOn ctx).store := by
  unfold Iteration.walkOn
  split
  · exact fun hl => hl
  · exact (h.store.walks hctx).2.keeps

theorem Sound.keeps_playRound (hctx : ctx.Valid) (h : it.Sound ctx) :
    it.store.Keeps (it.playRound ctx).1.store := by
  have hstore := (h.walkOn hctx).store
  rw [walkOn_rounds] at hstore
  obtain ⟨-, hextends, -⟩ := hstore.rides hctx
  rw [h.playRound_store hctx]
  intro place l hl
  exact hextends.keeps (h.keeps_walkOn hctx hl)

/-- Whoever leaves for the destination in a round has made the round's
transfers. -/
theorem transfers_of_mem_exits {departure : Time} {s : LabelStore} {last round : Nat}
    (hs : ctx.StoreSound departure s last) {d : Label} (hd : d ∈ ctx.exits s round) :
    d.criteria.transfers = transferCount round := by
  obtain ⟨⟨c, index⟩, -, hd⟩ := List.mem_flatMap.mp hd
  obtain ⟨⟨place, q⟩, hq, rfl⟩ := List.mem_map.mp hd
  have hbest := (List.mem_filter.mp hq).1
  obtain ⟨rest, hway⟩ := hs.realised (hs.soundTo.valid.label?_of_mem_bestLabels hbest)
  show q.criteria.transfers = transferCount round
  rw [hway.transfers_eq rfl, (LabelStore.mem_bestLabels.mp hbest).1]

/-- Every destination label has made fewer transfers than rounds were played. -/
def Counted (it : Iteration) : Prop := ∀ d ∈ it.destinations, d.criteria.transfers < it.rounds

theorem Counted.playRound (hctx : ctx.Valid) (hs : it.Sound ctx) (h : it.Counted) :
    (it.playRound ctx).1.Counted := by
  intro d hd
  have hrounds : (it.playRound ctx).1.rounds = it.rounds + 1 := rfl
  rw [playRound_destinations] at hd
  rw [hrounds]
  rcases Frontier.mem_of_mem_foldl hd with hbefore | hexit
  · exact Nat.lt_succ_of_lt (h d hbefore)
  · have htransfers := transfers_of_mem_exits (hs.playRound hctx).1.store hexit
    unfold transferCount at htransfers
    omega

theorem playRounds_counted (hctx : ctx.Valid) (interrupt : Interrupt) (budget : Nat)
    (departure : Time) : (playRounds ctx interrupt budget (start ctx departure)).Counted :=
  playRounds_induction hctx (fun h => h) (fun hs h => h.playRound hctx hs) interrupt budget
    (start_sound hctx departure) fun _ hd => absurd hd List.not_mem_nil

/-! ## §4. What later rounds leave alone. -/

/-- The later iteration has all labels of the first in their places, and the same
destination labels with fewer transfers than the first has rounds. -/
structure Continues (it later : Iteration) : Prop where
  keeps : it.store.Keeps later.store
  rounds_le : it.rounds ≤ later.rounds
  destinations_eq :
    later.destinations.filter (fun d => decide (d.criteria.transfers < it.rounds)) =
      it.destinations

theorem Counted.continues (h : it.Counted) : it.Continues it where
  keeps := fun hl => hl
  rounds_le := Nat.le_refl _
  destinations_eq := List.filter_eq_self.mpr fun d hd => decide_eq_true (h d hd)

/-- One more round goes on as well, as long as one byte holds its transfers. -/
theorem Continues.playRound (hctx : ctx.Valid) (hs : later.Sound ctx) (h : it.Continues later)
    (hbyte : later.rounds < 256) : it.Continues (later.playRound ctx).1 where
  keeps := fun hl => hs.keeps_playRound hctx (h.keeps hl)
  rounds_le := Nat.le_succ_of_le h.rounds_le
  destinations_eq := by
    rw [playRound_destinations, Frontier.filter_foldl_of_neg, h.destinations_eq]
    · -- Whoever dominates has made no more transfers.
      intro a b hdominates hb
      obtain ⟨-, ⟨-, htransfers, -⟩, -⟩ := of_decide_eq_true hdominates
      exact decide_eq_true (Nat.lt_of_le_of_lt htransfers (of_decide_eq_true hb))
    · -- Whoever leaves now has made at least as many transfers as there were rounds.
      intro d hd hfew
      have htransfers := transfers_of_mem_exits (hs.playRound hctx).1.store hd
      have hfew := of_decide_eq_true hfew
      have hrounds := h.rounds_le
      unfold transferCount at htransfers
      omega

theorem Counted.continues_playRounds (hctx : ctx.Valid) (hs : it.Sound ctx) (h : it.Counted)
    (interrupt : Interrupt) (budget : Nat) (hbyte : it.rounds + budget ≤ 256) :
    it.Continues (playRounds ctx interrupt budget it) := by
  have hbound := Nat.le_trans (playRounds_rounds_le ctx interrupt budget it) hbyte
  -- Only of the last round is it known that one byte holds its transfers, so the
  -- induction has to hand this down.
  refine playRounds_induction (motive := fun later => later.rounds ≤ 256 → it.Continues later)
    hctx ?_ ?_ interrupt budget hs (fun _ => h.continues) hbound
  · intro later hlater hrounds
    have hcontinues := hlater hrounds
    exact ⟨hcontinues.keeps, hcontinues.rounds_le, hcontinues.destinations_eq⟩
  · intro later hsound hlater hrounds
    have hlt : later.rounds < 256 := hrounds
    exact (hlater (Nat.le_of_lt hlt)).playRound hctx hsound hlt

end Iteration

/-! ## §5. The whole iteration. -/

namespace SearchContext

variable {ctx : SearchContext}

/-- The chain of a destination label is the same in every store that keeps its
labels. -/
theorem LeadsOut.trail?_eq {departure : Time} {s s' : LabelStore} {last : Nat}
    (hs : ctx.StoreSound departure s last) {d : Label} (hd : ctx.LeadsOut s d)
    (hkeeps : s.Keeps s') : s'.trail? d = s.trail? d := by
  obtain ⟨place, q, c, index, hq, -, -, -, rfl⟩ := hd
  obtain ⟨rest, hway⟩ := hs.realised hq
  rw [hway.trail?_leave hq, (hway.keeps hkeeps).trail?_leave (hkeeps hq)]

end SearchContext

namespace Iteration

variable {ctx : SearchContext}

/-- The walks at the end add no destination labels. -/
theorem run_keeps (hctx : ctx.Valid) (interrupt : Interrupt) (departure : Time) :
    (playRounds ctx interrupt ctx.maxRounds (start ctx departure)).store.Keeps
        (run ctx interrupt departure).store ∧
      (run ctx interrupt departure).destinations =
        (playRounds ctx interrupt ctx.maxRounds (start ctx departure)).destinations := by
  obtain ⟨hsound, -⟩ := (start_sound hctx departure).playRounds hctx interrupt ctx.maxRounds
  rcases run_cases ctx interrupt departure with ⟨-, heq⟩ | ⟨-, heq⟩
  · rw [heq]
    exact ⟨fun hl => hl, rfl⟩
  · rw [heq]
    exact ⟨hsound.keeps_walkOn hctx, walkOn_destinations⟩

/-- What is played with the greater limit goes on from what is played with the
smaller one, and has the same destination labels with fewer transfers than that
allows rounds. -/
theorem playRounds_continues (hctx : ctx.Valid) (interrupt : Interrupt) (departure : Time)
    (few more : Nat) (hbyte : few + more ≤ 256) :
    (playRounds ctx interrupt few (start ctx departure)).Continues
        (playRounds ctx interrupt (few + more) (start ctx departure)) ∧
      (playRounds ctx interrupt (few + more) (start ctx departure)).destinations.filter
          (fun d => decide (d.criteria.transfers < few)) =
        (playRounds ctx interrupt few (start ctx departure)).destinations := by
  obtain ⟨hsound, -⟩ := (start_sound hctx departure).playRounds hctx interrupt few
  have hcounted := playRounds_counted hctx interrupt few departure
  have hrounds := playRounds_rounds_le ctx interrupt few (start ctx departure)
  have hzero : (start ctx departure).rounds = 0 := rfl
  have hadd := playRounds_add ctx interrupt few more (start ctx departure)
  generalize playRounds ctx interrupt few (start ctx departure) = it at *
  rcases hadd with hsame | ⟨hall, hmore⟩
  · -- It ended early, before anyone could make too many transfers.
    rw [hsame]
    refine ⟨hcounted.continues, List.filter_eq_self.mpr fun d hd => decide_eq_true ?_⟩
    have hlt := hcounted d hd
    omega
  · have hon := hcounted.continues_playRounds hctx hsound interrupt more (by omega)
    rw [hmore]
    refine ⟨hon, ?_⟩
    have heq := hon.destinations_eq
    rw [hall, hzero, Nat.zero_add] at heq
    exact heq

/-- With the smaller limit exactly those destination labels are found that have
made fewer transfers than it allows rounds, and their chains are the same. -/
theorem run_withRounds (hctx : ctx.Valid) (interrupt : Interrupt) (departure : Time)
    {few many : Nat} (hle : few ≤ many) (hbyte : many ≤ 256) :
    (run (ctx.withRounds few) interrupt departure).destinations =
        (run (ctx.withRounds many) interrupt departure).destinations.filter
          (fun d => decide (d.criteria.transfers < few)) ∧
      ∀ d ∈ (run (ctx.withRounds few) interrupt departure).destinations,
        (run (ctx.withRounds few) interrupt departure).store.trail? d =
          (run (ctx.withRounds many) interrupt departure).store.trail? d := by
  have hvalid : ∀ limit, (ctx.withRounds limit).Valid := fun _ => ⟨hctx.network, hctx.access⟩
  have hplay : ∀ limit,
      playRounds (ctx.withRounds limit) interrupt (ctx.withRounds limit).maxRounds
        (start (ctx.withRounds limit) departure) =
      playRounds ctx interrupt limit (start ctx departure) :=
    fun limit => playRounds_withRounds ctx limit interrupt limit (start ctx departure)
  obtain ⟨hkeepsFew, hfew⟩ := run_keeps (hvalid few) interrupt departure
  obtain ⟨hkeepsMany, hmany⟩ := run_keeps (hvalid many) interrupt departure
  rw [hplay] at hkeepsFew hfew hkeepsMany hmany
  obtain ⟨more, rfl⟩ := Nat.exists_eq_add_of_le hle
  obtain ⟨hon, hfilter⟩ := playRounds_continues hctx interrupt departure few more hbyte
  obtain ⟨hsound, -⟩ := (start_sound hctx departure).playRounds hctx interrupt few
  rw [hfew, hmany, hfilter]
  refine ⟨rfl, fun d hd => ?_⟩
  -- Both stores keep what was there after as many rounds as the smaller limit allows.
  have hleads := hsound.destinations d hd
  rw [hleads.trail?_eq hsound.store hkeepsFew,
    hleads.trail?_eq hsound.store fun hl => hkeepsMany (hon.keeps hl)]

end Iteration

end TransitRouting
