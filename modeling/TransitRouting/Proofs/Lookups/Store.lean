/-
  TransitRouting.Proofs.Lookups.Store
  ───────────────────────────────────
  Looking things up in a label store, strictly.

  A round lists places among its labels under the numbers of stops.  As long as
  its lists are true and labels are offered at stops of the store, no list leads
  nowhere: neither when a label is compared with those that are best, nor when
  it is taken in, nor when a round is pruned.

  A strict store has a table of flags in each round, which says what stops are
  touched.  There is only one such table that is in step with the round, so what
  a strict store comes to can be said by what the store without flags comes to.

  Main statements:

    • `Strict.offerAll_eq` — labels at stops of the store can be offered;
    • `Strict.pruneRound_eq` — a round of a valid store can be pruned.
-/
import TransitRouting.Proofs.LabelStore.Flags
import TransitRouting.Proofs.Lookups.Schedule

namespace TransitRouting

/-! ## §1. Rows that are replaced, and rows that are there. -/

/-- Putting a row through a function is replacing it by what the function gives. -/
theorem Buckets.update_eq_replace {α : Type} (b : Buckets α) (k : Nat) (f : List α → List α) :
    b.update k f = b.update k fun _ => f (b.row k) := by
  cases b with
  | mk rows =>
      show Buckets.mk (rows.modify k f) = Buckets.mk (rows.modify k fun _ => f (rows.getD k []))
      congr 1
      apply Array.ext_getElem?
      intro i
      rw [Array.getElem?_modify, Array.getElem?_modify]
      split
      · next hki =>
          subst hki
          by_cases hk : k < rows.size <;> simp [hk]
      · rfl

/-! ## §2. Flags that are in step. -/

/-- The round with a flag for each stop that says whether it is touched. -/
def Round.flagged (stopCount : Nat) (r : Round) : FlaggedRound :=
  ⟨r, Array.ofFn fun stop : Fin stopCount => decide (stop.val ∈ r.touched)⟩

/-- The store with such flags in every round. -/
def LabelStore.flagged (s : LabelStore) : FlaggedStore :=
  ⟨s.stopCount, s.policy, s.rounds.map (Round.flagged s.stopCount)⟩

namespace FlaggedRound

variable {stopCount : Nat} {r : FlaggedRound}

theorem inStep_flagged {r : Round} (h : ∀ stop ∈ r.touched, stop < stopCount) :
    (r.flagged stopCount).InStep stopCount where
  flags_size := Array.size_ofFn
  isFlagged_iff := by
    intro stop
    unfold isFlagged Round.flagged
    by_cases hstop : stop < stopCount
    · simp [hstop]
    · simpa [hstop] using fun hmem => hstop (h stop hmem)

/-- Flags that are in step are determined by the round. -/
theorem InStep.eq_flagged (h : r.InStep stopCount) : r = r.round.flagged stopCount := by
  obtain ⟨round, flags⟩ := r
  have hflags :
      flags = Array.ofFn fun stop : Fin stopCount => decide (stop.val ∈ round.touched) := by
    apply Array.ext
    · rw [Array.size_ofFn, h.flags_size]
    · intro stop hstop _
      have hflag := h.isFlagged_iff stop
      unfold isFlagged at hflag
      rw [Array.getD_eq_getD_getElem?, Array.getElem?_eq_getElem hstop, Option.getD_some] at hflag
      rw [Array.getElem_ofFn, Bool.eq_iff_iff, decide_eq_true_iff]
      exact hflag
  rw [hflags]
  rfl

end FlaggedRound

namespace LabelStore

@[simp] theorem erase_flagged (s : LabelStore) : s.flagged.erase = s := by
  unfold flagged FlaggedStore.erase
  rw [List.map_map]
  show (⟨_, _, s.rounds.map id⟩ : LabelStore) = s
  rw [List.map_id]

theorem reach_flagged (s : LabelStore) (round : Nat) :
    s.flagged.reach round = (s.reach round).flagged := by
  have hempty : FlaggedRound.empty s.stopCount = (Round.empty s.stopCount).flagged s.stopCount :=
    (FlaggedRound.InStep.empty s.stopCount).eq_flagged
  unfold FlaggedStore.reach reach flagged
  simp only [List.map_append, List.map_replicate, List.length_map, hempty]

end LabelStore

namespace Strict

open Checks

/-! ## §3. Rounds. -/

/-- The label that is listed at an index. -/
def listed (r : Round) (index : Nat) : Strict Label := found (.listed index) r.labels[index]?

/-- The best labels of a stop, with their indices. -/
def bestOf (r : Round) (stop : Nat) : Strict (List (Nat × Label)) := do
  (← row r.best stop).mapM fun i => return (i, ← listed r i)

/-- A best label of the stop rejects the label. -/
def rejectedIn (policy : TieBreak) (r : Round) (l : Label) : Strict Bool :=
  return (← bestOf r l.stop).any fun (_, held) => held.criteria.Rejects policy l.criteria

/-- The table with a new flag for a stop that has one. -/
def setFlag (flags : Array Bool) (stop : Nat) (value : Bool) : Strict (Array Bool) := do
  let _ ← found (.flag stop) flags[stop]?
  return flags.setIfInBounds stop value

/-- Lists the stop as touched, unless its flag says that it is. -/
def touch (r : FlaggedRound) (stop : Nat) : Strict FlaggedRound := do
  if ← found (.flag stop) r.flags[stop]? then return r
  else return {
    round := { r.round with touched := r.round.touched ++ [stop] }
    flags := ← setFlag r.flags stop true }

/-- The round with one more best label. -/
def insert (r : FlaggedRound) (l : Label) : Strict FlaggedRound := do
  let places ← keep (fun i => return ¬ l.criteria.Dominates (← listed r.round i).criteria)
    (← row r.round.best l.stop)
  let marked ← touch r l.stop
  return {
    round :=
      { labels := r.round.labels.push l
        best := r.round.best.update l.stop fun _ => places ++ [r.round.labels.size]
        touched := marked.round.touched }
    flags := marked.flags }

/-- Place `i` of a stop keeps its rank. -/
def isUnbeaten (earlier : List Round) (r : Round) (stop i : Nat) : Strict Bool := do
  let l ← listed r i
  let rivals ← bestOf r stop
  let before ← gather (fun e => bestOf e stop) earlier
  return !rivals.any (fun (j, held) => j ≠ i && held.criteria.Dominates l.criteria) &&
    !before.any fun (_, held) => held.criteria.Dominates l.criteria

/-- The best labels of a round with only those of a stop that are unbeaten. -/
def pruneStop (earlier : List Round) (r : Round) (best : Buckets Nat) (stop : Nat) :
    Strict (Buckets Nat) := do
  let places ← keep (isUnbeaten earlier r stop) (← row best stop)
  return best.update stop fun _ => places

/-- The stops that stay touched, and the flags, after a stop was asked whether it still
has best labels. -/
def retain (best : Buckets Nat) (kept : List Nat × Array Bool) (stop : Nat) :
    Strict (List Nat × Array Bool) := do
  let stays := !(← row best stop).isEmpty
  let flags ← setFlag kept.2 stop stays
  return (if stays then kept.1 ++ [stop] else kept.1, flags)

/-- The round with only those best labels that are unbeaten. -/
def prune (earlier : List Round) (r : FlaggedRound) : Strict FlaggedRound := do
  let best ← r.round.touched.foldlM (pruneStop earlier r.round) r.round.best
  let (touched, flags) ← r.round.touched.foldlM (retain best) ([], r.flags)
  return ⟨{ r.round with best, touched }, flags⟩

section Rounds

variable {stopCount : Nat} {r : Round} {stop : Nat}

theorem listed_eq {i : Nat} (h : i < r.labels.size) : listed r i = pure (r.label i) := by
  simp [listed, Round.label, h, found]

theorem bestOf_eq (hr : r.Valid stopCount) (h : stop < stopCount) :
    bestOf r stop = pure ((r.best.row stop).map fun i => (i, r.label i)) := by
  unfold bestOf
  rw [row_eq (hr.rows_size ▸ h), pure_bind]
  refine mapM_eq_pure fun i hi => ?_
  rw [listed_eq (hr.index_lt hi), pure_bind]

theorem rejectedIn_eq (hr : r.Valid stopCount) {l : Label} (h : l.stop < stopCount)
    (policy : TieBreak) : rejectedIn policy r l = pure (r.rejects policy l) := by
  unfold rejectedIn
  rw [bestOf_eq hr h, pure_bind, List.any_map]
  show _ = pure (((r.best.row l.stop).map r.label).any _)
  rw [List.any_map]
  rfl

theorem setFlag_eq {flags : Array Bool} (h : stop < flags.size) (value : Bool) :
    setFlag flags stop value = pure (flags.setIfInBounds stop value) := by
  simp [setFlag, h, found]

theorem touch_eq {r : FlaggedRound} (h : stop < r.flags.size) :
    touch r stop = pure (r.touch stop) := by
  unfold touch FlaggedRound.touch FlaggedRound.isFlagged
  simp only [setFlag_eq h, Array.getElem?_eq_getElem h, found, pure_bind,
    Array.getD_eq_getD_getElem?, Option.getD_some]
  split <;> rfl

/-- A label at a stop that is there can be taken in, and the flags stay in step. -/
theorem insert_eq (hr : r.Valid stopCount) {l : Label} (h : l.stop < stopCount) :
    insert (r.flagged stopCount) l = pure ((r.insert l).flagged stopCount) := by
  have hstep : (r.flagged stopCount).InStep stopCount :=
    FlaggedRound.inStep_flagged fun _ => hr.stop_lt_of_mem_touched
  have hplaces : keep (fun i => return ¬ l.criteria.Dominates (← listed r i).criteria)
      (r.best.row l.stop) =
        pure ((r.best.row l.stop).filter fun i => ¬ l.criteria.Dominates (r.label i).criteria) := by
    refine keep_eq fun i hi => ?_
    rw [listed_eq (hr.index_lt hi), pure_bind]
  have hmarked := hstep.touch h
  have htouched : ((r.flagged stopCount).touch l.stop).round.touched = (r.insert l).touched :=
    hstep.touched_touch l.stop
  have hinserted : FlaggedRound.InStep stopCount
      ⟨r.insert l, ((r.flagged stopCount).touch l.stop).flags⟩ :=
    ⟨hmarked.flags_size, fun stop => htouched ▸ hmarked.isFlagged_iff stop⟩
  unfold insert
  rw [show (r.flagged stopCount).round = r from rfl, row_eq (hr.rows_size ▸ h), pure_bind, hplaces,
    pure_bind, touch_eq (hstep.flags_size.symm ▸ h), pure_bind, htouched,
    ← show _ = (r.insert l).flagged stopCount from hinserted.eq_flagged]
  unfold Round.insert
  rw [Buckets.update_eq_replace r.best l.stop fun places =>
    places.filter (fun i => ¬ l.criteria.Dominates (r.label i).criteria) ++ [r.labels.size]]

theorem isUnbeaten_eq {earlier : List Round} (hearlier : ∀ e ∈ earlier, e.Valid stopCount)
    (hr : r.Valid stopCount) (h : stop < stopCount) {i : Nat} (hi : i < r.labels.size) :
    isUnbeaten earlier r stop i = pure (r.isUnbeaten earlier stop i) := by
  unfold isUnbeaten
  rw [listed_eq hi, pure_bind, bestOf_eq hr h, pure_bind,
    gather_eq fun e he => bestOf_eq (hearlier e he) h, pure_bind]
  unfold Round.isUnbeaten Round.bestLabels
  simp only [List.any_map, List.any_flatMap, Function.comp_def]

/-- A table with a row for each stop lists only labels of a round. -/
def Lists (stopCount : Nat) (r : Round) (best : Buckets Nat) : Prop :=
  best.rows.size = stopCount ∧ ∀ {k i : Nat}, i ∈ best.row k → i < r.labels.size

/-- Places that are dropped leave the others as they are. -/
theorem Lists.filter {best : Buckets Nat} (h : Lists stopCount r best) (stop : Nat)
    (stays : Nat → Bool) : Lists stopCount r (best.update stop (·.filter stays)) := by
  obtain ⟨hsize, hwithin⟩ := h
  refine ⟨(Buckets.size_update _ _ _).trans hsize, ?_⟩
  intro k i hi
  have hk := Buckets.lt_size_of_mem_row hi
  rw [Buckets.size_update] at hk
  rw [Buckets.row_update _ _ _ _ hk] at hi
  split at hi
  · exact hwithin (List.mem_of_mem_filter hi)
  · exact hwithin hi

theorem pruneStop_eq {earlier : List Round} (hearlier : ∀ e ∈ earlier, e.Valid stopCount)
    (hr : r.Valid stopCount) {best : Buckets Nat} (hbest : Lists stopCount r best)
    (h : stop < stopCount) :
    pruneStop earlier r best stop =
      pure (best.update stop (·.filter (r.isUnbeaten earlier stop))) := by
  obtain ⟨hsize, hwithin⟩ := hbest
  unfold pruneStop
  rw [row_eq (hsize ▸ h), pure_bind,
    keep_eq fun i hi => isUnbeaten_eq hearlier hr h (hwithin hi), pure_bind,
    ← Buckets.update_eq_replace best stop (·.filter (r.isUnbeaten earlier stop))]

/-- Stops that have a row and a flag can be asked whether they keep labels. -/
theorem retain_eq {best : Buckets Nat} {flags : Array Bool} {stops : List Nat}
    (hrows : ∀ stop ∈ stops, stop < best.rows.size) (hflags : ∀ stop ∈ stops, stop < flags.size)
    (kept : List Nat) :
    stops.foldlM (retain best) (kept, flags) =
      pure (kept ++ stops.filter (fun stop => !(best.row stop).isEmpty),
        setFlags flags stops fun stop => !(best.row stop).isEmpty) := by
  induction stops generalizing kept flags with
  | nil => exact congrArg (fun kept => pure (kept, flags)) (List.append_nil kept).symm
  | cons stop stops ih =>
      obtain ⟨hrow, hrows⟩ := List.forall_mem_cons.mp hrows
      obtain ⟨hflag, hflags⟩ := List.forall_mem_cons.mp hflags
      have hretain : retain best (kept, flags) stop =
          pure (if !(best.row stop).isEmpty then kept ++ [stop] else kept,
            flags.setIfInBounds stop !(best.row stop).isEmpty) := by
        unfold retain
        rw [row_eq hrow, pure_bind]
        show (setFlag flags stop _ >>= _) = _
        rw [setFlag_eq hflag, pure_bind]
      rw [List.foldlM_cons, hretain, pure_bind, ih hrows fun k hk => by
        rw [Array.size_setIfInBounds]
        exact hflags k hk]
      unfold setFlags
      rw [List.foldl_cons, List.filter_cons]
      split
      · rw [List.append_assoc, List.singleton_append]
      · rfl

/-- While a round is pruned, its lists stay within the round, and the flags in step. -/
theorem prune_eq {earlier : List Round} (hearlier : ∀ e ∈ earlier, e.Valid stopCount)
    (hr : r.Valid stopCount) :
    prune earlier (r.flagged stopCount) = pure ((r.prune earlier).flagged stopCount) := by
  have hstep : (r.flagged stopCount).InStep stopCount :=
    FlaggedRound.inStep_flagged fun _ => hr.stop_lt_of_mem_touched
  have hflags : ∀ stop ∈ r.touched, stop < (r.flagged stopCount).flags.size := by
    intro stop hstop
    rw [hstep.flags_size]
    exact hr.stop_lt_of_mem_touched hstop
  have hlists : Lists stopCount r r.best := ⟨hr.rows_size, fun hi => hr.index_lt hi⟩
  have hpruned : Lists stopCount r (r.touched.foldl
      (fun best stop => best.update stop (·.filter (r.isUnbeaten earlier stop))) r.best) :=
    List.foldlRecOn (motive := Lists stopCount r) _ _ hlists
      fun _ hbest stop _ => hbest.filter stop _
  unfold prune
  rw [show (r.flagged stopCount).round = r from rfl,
    foldlM_eq_pure hlists fun best stop hstop hbest =>
      ⟨pruneStop_eq hearlier hr hbest (hr.stop_lt_of_mem_touched hstop), hbest.filter stop _⟩,
    pure_bind, retain_eq (fun stop hstop => hpruned.1 ▸ hr.stop_lt_of_mem_touched hstop) hflags,
    pure_bind,
    ← show _ = (r.prune earlier).flagged stopCount from (hstep.prune hr earlier).eq_flagged]
  rfl

end Rounds

/-! ## §4. The store. -/

/-- The label that is kept in a place. -/
def label (s : LabelStore) (place : LabelPlace) : Strict Label :=
  found (.label place) (s.label? place)

/-- The best labels of a stop in a round, with their places. -/
def bestLabels (s : LabelStore) (round stop : Nat) : Strict (List (LabelPlace × Label)) :=
  return (← bestOf (s.round round) stop).map fun (i, l) => (⟨round, i⟩, l)

/-- A best label of the stop, in one of the rounds up to the given one, rejects
the label. -/
def rejects (s : LabelStore) (round : Nat) (l : Label) : Strict Bool :=
  return (← (s.rounds.take (round + 1)).mapM fun r => rejectedIn s.policy r l).any id

/-- Takes a label into a round, unless it is rejected. -/
def add? (s : FlaggedStore) (round : Nat) (l : Label) :
    Strict (Option (FlaggedStore × LabelPlace)) := do
  if ← rejects s.erase round l then return none
  else
    let s := s.reach round
    let r ← found (.round round) s.rounds[round]?
    let r' ← insert r l
    return some ({ s with rounds := s.rounds.set round r' }, ⟨round, r.round.labels.size⟩)

/-- The store after labels were offered to a round one by one, and how many of
them were taken in. -/
def offerAll (s : FlaggedStore) (round : Nat) (labels : List Label) :
    Strict (FlaggedStore × Nat) :=
  labels.foldlM
    (fun (s, added) l => do
      match ← add? s round l with
      | some (s', _) => return (s', added + 1)
      | none => return (s, added))
    (s, 0)

/-- The store with only the unbeaten labels of a round as its best ones, and
how many ceased to be. -/
def pruneRound (s : FlaggedStore) (round : Nat) : Strict (FlaggedStore × Nat) := do
  match s.rounds[round]? with
  | none => return (s, 0)
  | some r =>
    let pruned ← prune (s.erase.rounds.take round) r
    return ({ s with rounds := s.rounds.set round pruned },
      r.round.bestCount - pruned.round.bestCount)

/-- The earliest arrival at a stop in a round. -/
def roundArrival? (s : LabelStore) (round stop : Nat) : Strict (Option Time) :=
  return ((← bestLabels s round stop).map (·.2.arrival)).min?

section Stores

variable {s : LabelStore} {round stop : Nat}

theorem label_eq {place : LabelPlace} {l : Label} (h : s.label? place = some l) :
    label s place = pure l := by
  simp [label, h, found]

theorem bestLabels_eq (hs : s.Valid) (h : stop < s.stopCount) :
    bestLabels s round stop = pure (s.bestLabels round stop) := by
  unfold bestLabels
  rw [bestOf_eq (hs round) h, pure_bind, List.map_map]
  rfl

theorem roundArrival?_eq (hs : s.Valid) (h : stop < s.stopCount) :
    roundArrival? s round stop = pure (s.roundArrival? round stop) := by
  unfold roundArrival?
  rw [bestLabels_eq hs h, pure_bind]
  rfl

/-- Every round that is there is valid. -/
theorem valid_of_mem_rounds (hs : s.Valid) {r : Round} (hr : r ∈ s.rounds) :
    r.Valid s.stopCount := by
  obtain ⟨k, hk, rfl⟩ := List.getElem_of_mem hr
  rw [← LabelStore.round_of_lt_length hk]
  exact hs k

theorem rejects_eq (hs : s.Valid) {l : Label} (h : l.stop < s.stopCount) :
    rejects s round l = pure (s.rejects round l) := by
  have hrounds : (s.rounds.take (round + 1)).mapM (fun r => rejectedIn s.policy r l) =
      pure ((s.rounds.take (round + 1)).map fun r => r.rejects s.policy l) :=
    mapM_eq_pure fun r hr => rejectedIn_eq (valid_of_mem_rounds hs (List.mem_of_mem_take hr)) h _
  unfold rejects
  rw [hrounds, pure_bind, List.any_map]
  rfl

/-- A round that has been reached is there. -/
theorem getElem?_reach (s : LabelStore) (round : Nat) :
    (s.reach round).rounds[round]? = some (s.round round) := by
  have hlt : round < (s.reach round).rounds.length := by
    rw [LabelStore.reach_length]
    omega
  rw [List.getElem?_eq_getElem hlt, ← LabelStore.round_of_lt_length hlt, LabelStore.round_reach]

/-- A round of the store with flags is that of the store, with flags. -/
theorem getElem?_flagged (s : LabelStore) (round : Nat) :
    s.flagged.rounds[round]? = s.rounds[round]?.map (Round.flagged s.stopCount) :=
  List.getElem?_map

/-- Replacing a round of a store with flags is replacing it in the store. -/
theorem set_flagged (s : LabelStore) (round : Nat) (r : Round) :
    { s.flagged with rounds := s.flagged.rounds.set round (r.flagged s.stopCount) } =
      ({ s with rounds := s.rounds.set round r } : LabelStore).flagged := by
  unfold LabelStore.flagged
  rw [List.map_set]

theorem add?_eq (hs : s.Valid) {l : Label} (h : l.stop < s.stopCount) :
    add? s.flagged round l =
      pure ((s.add? round l).map fun (s', place) => (s'.flagged, place)) := by
  unfold add? LabelStore.add?
  rw [LabelStore.erase_flagged, rejects_eq hs h, pure_bind]
  split
  · rfl
  · have hinsert := insert_eq (hs round) h
    simp only [LabelStore.reach_flagged, getElem?_flagged, getElem?_reach, Option.map_some, found,
      pure_bind, LabelStore.round_reach]
    rw [show (s.reach round).stopCount = s.stopCount from rfl, hinsert, pure_bind,
      List.modify_eq_set_getElem?, getElem?_reach]
    exact congrArg (fun store => pure (some (store, _))) (set_flagged (s.reach round) round _)

/-- Labels at stops of the store can be offered. -/
theorem offerAll_eq (hs : s.Valid) {labels : List Label}
    (h : ∀ l ∈ labels, l.stop < s.stopCount) :
    offerAll s.flagged round labels =
      pure ((s.offerAll round labels).1.flagged, (s.offerAll round labels).2) := by
  unfold offerAll LabelStore.offerAll
  generalize (0 : Nat) = added
  induction labels generalizing s added with
  | nil => rfl
  | cons l labels ih =>
      obtain ⟨hstop, hrest⟩ := List.forall_mem_cons.mp h
      simp only [List.foldlM_cons, List.foldl_cons, add?_eq hs hstop, pure_bind]
      cases hadd : s.add? round l with
      | none => exact ih hs hrest added
      | some result =>
          obtain ⟨-, -, hcount, -⟩ := LabelStore.add?_eq_some hadd
          exact ih (hs.add? hstop hadd) (fun k hk => hcount.symm ▸ hrest k hk) (added + 1)

/-- A round of a valid store can be pruned. -/
theorem pruneRound_eq (hs : s.Valid) :
    pruneRound s.flagged round = pure ((s.prune round).1.flagged, (s.prune round).2) := by
  unfold pruneRound
  rw [getElem?_flagged]
  have hearlier : ∀ e ∈ s.rounds.take round, e.Valid s.stopCount :=
    fun e he => valid_of_mem_rounds hs (List.mem_of_mem_take he)
  unfold LabelStore.prune
  simp only [List.modify_eq_set_getElem?]
  cases hr : s.rounds[round]? with
  | none =>
      -- There is nothing to prune in a round that has not been reached.
      rw [LabelStore.round_of_length_le (List.getElem?_eq_none_iff.mp hr)]
      show pure (s.flagged, 0) = pure (s.flagged, 0 - _)
      rw [Nat.zero_sub]
  | some r =>
      have hround : s.round round = r := by
        unfold LabelStore.round
        rw [List.getD_eq_getElem?_getD, hr, Option.getD_some]
      have hvalid : r.Valid s.stopCount := hround ▸ hs round
      simp only [Option.map_some, LabelStore.erase_flagged]
      rw [prune_eq hearlier hvalid, pure_bind, set_flagged, hround]
      rfl

end Stores

end Strict

end TransitRouting
