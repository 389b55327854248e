/-
  TransitRouting.Proofs.Iteration.Pruning
  ───────────────────────────────────────
  What an iteration prunes: nothing.

  A store in which labels may come to earlier rounds after later ones can hold
  labels that have been overtaken, and pruning removes them.  An iteration
  offers the walks of a round before the rides of the next one and never goes
  back behind that, on whatever way it comes to its end.  So each time it prunes
  a round, it finds nothing that could be removed.

  Main statements:

    • `Iteration.runLogged_fst`, `Iteration.map_round_runLogged` — an iteration
      with a log of what it prunes is the iteration, and the log names its rounds;
    • `Iteration.Sound.idle_pruning` — there is nothing to prune in one round;
    • `Feed.prunings_idle` — nor in any round of any iteration on a compiled feed.
-/
import TransitRouting.Proofs.Iteration.EarliestArrival

namespace TransitRouting

/-! ## §1. Iterations with a log. -/

/-- A round is pruned: the store as it is before, and the number of the round. -/
structure Pruning where
  /-- The store. -/
  store : LabelStore
  /-- The round. -/
  round : Nat

namespace Pruning

/-- The store afterwards, and how many labels ceased to be best. -/
def result (p : Pruning) : LabelStore × Nat := p.store.prune p.round

/-- No label ceases to be best, and nothing changes. -/
def Idle (p : Pruning) : Prop := p.result = (p.store, 0)

end Pruning

namespace Iteration

variable (ctx : SearchContext)

/-- Plays one more round, and tells what it prunes. -/
def playRoundLogged (it : Iteration) : (Iteration × Nat) × Pruning :=
  let round := it.rounds + 1
  let it := it.walkOn ctx
  let (store, added) := it.store.offerAll round (ctx.rides it.store round)
  let pruning : Pruning := ⟨store, round⟩
  let store := pruning.result.1
  let destinations :=
    (ctx.exits store round).foldl (Frontier.offer (Label.rivalry ctx.tieBreak)) it.destinations
  (({ it with store, destinations, rounds := round }, added), pruning)

/-- Plays rounds, and tells what they prune, one after the other. -/
def playRoundsLogged (interrupt : Interrupt) : Nat → Iteration → Iteration × List Pruning
  | 0, it => (it, [])
  | limit + 1, it =>
    if interrupt (it.rounds + 1) then ({ it with cancelled := true }, [])
    else
      let played := it.playRoundLogged ctx
      if played.1.2 = 0 then (played.1.1, [played.2])
      else
        let rest := playRoundsLogged interrupt limit played.1.1
        (rest.1, played.2 :: rest.2)

/-- The whole iteration, and what it prunes. -/
def runLogged (interrupt : Interrupt) (departure : Time) : Iteration × List Pruning :=
  let (it, prunings) := playRoundsLogged ctx interrupt ctx.maxRounds (start ctx departure)
  (if it.cancelled then it else it.walkOn ctx, prunings)

variable {ctx} {it : Iteration} {interrupt : Interrupt} {departure : Time}

theorem playRoundLogged_fst (it : Iteration) :
    (it.playRoundLogged ctx).1 = it.playRound ctx := rfl

/-- Keeping a log does not change what is played. -/
theorem playRoundsLogged_fst (limit : Nat) (it : Iteration) :
    (playRoundsLogged ctx interrupt limit it).1 = playRounds ctx interrupt limit it := by
  induction limit generalizing it with
  | zero => rfl
  | succ limit ih =>
      unfold playRoundsLogged playRounds
      split
      · rfl
      · rw [← playRoundLogged_fst]
        simp only
        by_cases hadded : (it.playRoundLogged ctx).1.2 = 0
        · rw [if_pos hadded, if_pos hadded]
        · rw [if_neg hadded, if_neg hadded]
          exact ih _

theorem runLogged_fst (ctx : SearchContext) (interrupt : Interrupt) (departure : Time) :
    (runLogged ctx interrupt departure).1 = run ctx interrupt departure := by
  unfold runLogged run
  simp only [playRoundsLogged_fst]

/-- Every round that is completed is pruned once, in its turn. -/
theorem map_round_playRoundsLogged (ctx : SearchContext) (interrupt : Interrupt) (limit : Nat)
    (it : Iteration) :
    (playRoundsLogged ctx interrupt limit it).1.rounds =
        it.rounds + (playRoundsLogged ctx interrupt limit it).2.length ∧
      (playRoundsLogged ctx interrupt limit it).2.map (·.round) =
        List.range' (it.rounds + 1) (playRoundsLogged ctx interrupt limit it).2.length := by
  induction limit generalizing it with
  | zero => exact ⟨rfl, rfl⟩
  | succ limit ih =>
      have hround : (it.playRoundLogged ctx).1.1.rounds = it.rounds + 1 := rfl
      unfold playRoundsLogged
      split
      · exact ⟨rfl, rfl⟩
      · simp only
        split
        · exact ⟨hround, rfl⟩
        · obtain ⟨hrounds, hlog⟩ := ih (it.playRoundLogged ctx).1.1
          rw [hround] at hrounds hlog
          refine ⟨?_, ?_⟩
          · rw [hrounds, List.length_cons]
            omega
          · rw [List.map_cons, hlog, List.length_cons, List.range'_succ]
            rfl

theorem map_round_runLogged (ctx : SearchContext) (interrupt : Interrupt) (departure : Time) :
    (runLogged ctx interrupt departure).2.map (·.round) =
      List.range' 1 (run ctx interrupt departure).rounds := by
  obtain ⟨hrounds, hlog⟩ := map_round_playRoundsLogged ctx interrupt ctx.maxRounds
    (start ctx departure)
  have hrun : (run ctx interrupt departure).rounds =
      (playRoundsLogged ctx interrupt ctx.maxRounds (start ctx departure)).1.rounds := by
    rw [playRoundsLogged_fst]
    rcases run_cases ctx interrupt departure with ⟨-, heq⟩ | ⟨-, heq⟩
    · rw [heq]
    · rw [heq, walkOn_rounds]
  have hstart : (start ctx departure).rounds = 0 := rfl
  rw [hstart, Nat.zero_add] at hrounds hlog
  rw [hrun, hrounds]
  exact hlog

/-! ## §2. Nothing is pruned. -/

/-- After the rides of a round no best label of the store is dominated, so none is pruned. -/
theorem Sound.idle_pruning (hctx : ctx.Valid) (h : it.Sound ctx) :
    (it.playRoundLogged ctx).2.Idle := by
  have hstore := (h.walkOn hctx).store
  rw [walkOn_rounds] at hstore
  obtain ⟨hrides, -, -⟩ := hstore.rides hctx
  exact LabelStore.prune_eq_self hrides.soundTo.valid hrides.soundTo.pareto (it.rounds + 1)

theorem Sound.idle_playRoundsLogged (hctx : ctx.Valid) (limit : Nat) :
    ∀ {it : Iteration}, it.Sound ctx →
      ∀ p ∈ (playRoundsLogged ctx interrupt limit it).2, p.Idle := by
  induction limit with
  | zero => exact fun _ p hp => absurd hp List.not_mem_nil
  | succ limit ih =>
      intro it h p hp
      unfold playRoundsLogged at hp
      split at hp
      · exact absurd hp List.not_mem_nil
      · simp only at hp
        split at hp
        · obtain rfl := List.mem_singleton.mp hp
          exact h.idle_pruning hctx
        · rcases List.mem_cons.mp hp with rfl | hp
          · exact h.idle_pruning hctx
          · exact ih (h.playRound hctx).1 p hp

end Iteration

/-- In both directions of every compiled feed, for every search that starts at stops of the
feed, interrupted or not: each completed round is pruned once, which removes no label and
changes nothing; and at the end no best label is dominated by one of its stop from its own
round or an earlier one. -/
theorem Feed.prunings_idle {f : Feed} {t : Timetable} (hcompile : f.compile = .ok t)
    {ctx : SearchContext} {d : Direction} (hnetwork : ctx.network = t.network d)
    (haccess : ∀ c ∈ ctx.access, c.stop < t.stopCount) (interrupt : Interrupt)
    (departure : Time) :
    let logged := Iteration.runLogged ctx interrupt departure
    logged.1 = Iteration.run ctx interrupt departure ∧
      logged.2.map (·.round) = List.range' 1 (Iteration.run ctx interrupt departure).rounds ∧
      (∀ p ∈ logged.2, p.Idle) ∧ (Iteration.run ctx interrupt departure).store.Pareto := by
  intro logged
  have hctx := Feed.context_valid hcompile hnetwork haccess
  have hstart := Iteration.start_sound hctx departure
  exact ⟨Iteration.runLogged_fst ctx interrupt departure,
    Iteration.map_round_runLogged ctx interrupt departure,
    hstart.idle_playRoundsLogged hctx ctx.maxRounds,
    (Iteration.run_sound hctx interrupt departure).1.store.soundTo.pareto⟩

/-- Two rounds are pruned on the way past the detour, and nothing is removed. -/
theorem Feed.prunings_idle_detour :
    ((Iteration.runLogged .onDetour Interrupt.never Time.midnight).2.map (·.round) = [1, 2]) ∧
      (∀ p ∈ (Iteration.runLogged .onDetour Interrupt.never Time.midnight).2, p.Idle) ∧
      (Iteration.run .onDetour Interrupt.never Time.midnight).store.Pareto := by
  have hnetwork : SearchContext.onDetour.network = Feed.detour.timetable.network .forward := rfl
  have haccess : ∀ c ∈ SearchContext.onDetour.access, c.stop < Feed.detour.timetable.stopCount := by
    decide +kernel
  have hrounds : (Iteration.run .onDetour Interrupt.never Time.midnight).rounds = 2 := by
    decide +kernel
  obtain ⟨-, hlog, hidle, hpareto⟩ :=
    Feed.prunings_idle Feed.compile_detour hnetwork haccess Interrupt.never Time.midnight
  rw [hrounds] at hlog
  exact ⟨hlog, hidle, hpareto⟩

end TransitRouting
