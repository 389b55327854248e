/-
  TransitRouting.Proofs.LabelStore.Reuse
  ──────────────────────────────────────
  A store that was cleared is as good as a new one.

  Clearing keeps the rounds and looks only at touched stops for what there is to
  forget.  Nothing escapes it: whatever was done to a store, every stop with best
  labels and every flagged stop is touched.  So a cleared store is a new one with
  some rounds that were not written to, and these make no difference to anything
  that the store is asked to do, or asked about, from then on.

  Main statements:

    • `Round.Recorded.clear_eq`, `FlaggedRound.Recorded.clear_eq` — a cleared round
      is an empty one;
    • `LabelStore.Outreaches.perform`, `FlaggedStore.Outreaches.perform` — empty rounds at
      the end stay without effect;
    • `StoreOp.clear_answersLike_empty` — every sequence of operations gives the same
      on a cleared store and on a new one.
-/
import TransitRouting.Proofs.LabelStore.Flags

namespace TransitRouting

/-! ## §1. Lists with copies at the end. -/

/-- The first list is the second one with copies of `e` at its end. -/
def Padded {α : Type} (e : α) (xs ys : List α) : Prop := ∃ k, xs = ys ++ List.replicate k e

namespace Padded

variable {α β : Type} {e : α} {xs ys : List α}

theorem getD_eq (h : Padded e xs ys) (i : Nat) : xs.getD i e = ys.getD i e := by
  obtain ⟨k, rfl⟩ := h
  rw [List.getD_eq_getElem?_getD, List.getD_eq_getElem?_getD, List.getElem?_append]
  split
  · rfl
  · next hi =>
      rw [List.getElem?_replicate, List.getElem?_eq_none (Nat.le_of_not_lt hi)]
      split <;> rfl

theorem take_eq (h : Padded e xs ys) {n : Nat} (hn : n ≤ ys.length) : xs.take n = ys.take n := by
  obtain ⟨k, rfl⟩ := h
  exact List.take_append_of_le_length hn

theorem any_take (h : Padded e xs ys) {p : α → Bool} (he : p e = false) (n : Nat) :
    (xs.take n).any p = (ys.take n).any p := by
  obtain ⟨k, rfl⟩ := h
  rw [List.take_append, List.any_append, List.take_replicate, List.any_replicate]
  simp [he]

theorem all_eq (h : Padded e xs ys) {p : α → Bool} (he : p e = true) : xs.all p = ys.all p := by
  obtain ⟨k, rfl⟩ := h
  rw [List.all_append, List.all_replicate]
  simp [he]

theorem map (h : Padded e xs ys) (f : α → β) : Padded (f e) (xs.map f) (ys.map f) := by
  obtain ⟨k, rfl⟩ := h
  exact ⟨k, by rw [List.map_append, List.map_replicate]⟩

/-- A list that is made into copies. -/
theorem of_forall_eq {f : β → α} {xs : List β} (h : ∀ x ∈ xs, f x = e) :
    Padded e (xs.map f) [] :=
  ⟨xs.length, by rw [List.map_congr_left h, List.map_const', List.nil_append]⟩

/-- Both lists can be filled up to the same length. -/
theorem fill (h : Padded e xs ys) (n : Nat) :
    Padded e (xs ++ List.replicate (n - xs.length) e) (ys ++ List.replicate (n - ys.length) e) := by
  obtain ⟨k, rfl⟩ := h
  refine ⟨k + (n - (ys.length + k)) - (n - ys.length), ?_⟩
  rw [List.append_assoc, List.append_assoc, List.replicate_append_replicate,
    List.replicate_append_replicate, List.length_append, List.length_replicate]
  congr 2
  omega

/-- Both lists can be changed in one place, if a copy at the end stays as it is. -/
theorem modify (h : Padded e xs ys) {i : Nat} {f g : α → α} (hsame : i < ys.length → f = g)
    (hcopy : ys.length ≤ i → f e = e) : Padded e (xs.modify i f) (ys.modify i g) := by
  obtain ⟨k, rfl⟩ := h
  refine ⟨k, List.ext_getElem? fun j => ?_⟩
  rw [List.getElem?_modify, List.getElem?_append, List.getElem?_append, List.length_modify,
    List.getElem?_modify]
  by_cases hij : i = j
  · subst hij
    by_cases hi : i < ys.length
    · simp [hi, hsame hi]
    · have he := hcopy (Nat.le_of_not_lt hi)
      by_cases hk : i - ys.length < k <;> simp [hi, hk, he]
  · simp [hij]

end Padded

/-! ## §2. What there is to forget. -/

namespace Buckets

variable {α : Type} {f : Nat → List α → List α}

/-- A row with values had some before, unless it is the one that was updated. -/
theorem row_ne_nil_of_update {b : Buckets α} {k j : Nat} {g : List α → List α}
    (h : (b.update k g).row j ≠ []) : j = k ∨ b.row j ≠ [] := by
  by_cases hj : j < b.rows.size
  · rw [row_update _ _ _ _ hj] at h
    by_cases hkj : k = j
    · exact Or.inl hkj.symm
    · rw [if_neg hkj] at h
      exact Or.inr h
  · exact absurd (row_of_size_le (by rw [size_update]; omega)) h

/-- An empty row stays empty if every function leaves it so. -/
theorem row_foldl_update_eq_nil (hf : ∀ k, f k [] = []) {b : Buckets α} {j : Nat}
    (h : b.row j = []) (ks : List Nat) :
    (ks.foldl (fun b k => b.update k (f k)) b).row j = [] := by
  induction ks generalizing b with
  | nil => exact h
  | cons k ks ih =>
      refine ih ?_
      rw [row_update_of_nil (hf k), h, hf, ite_self]

/-- The rows with given numbers are empty after they were emptied. -/
theorem row_foldl_clear_of_mem {ks : List Nat} {j : Nat} (hj : j ∈ ks) (b : Buckets α) :
    (ks.foldl (fun b k => b.update k fun _ => []) b).row j = [] := by
  induction ks generalizing b with
  | nil => cases hj
  | cons k ks ih =>
      rcases List.mem_cons.mp hj with rfl | hmem
      · refine row_foldl_update_eq_nil (f := fun _ _ => []) (fun _ => rfl) ?_ ks
        rw [row_update_of_nil rfl, if_pos rfl]
      · exact ih hmem _

/-- A table whose rows are all empty. -/
theorem eq_empty_of_rows {b : Buckets α} (h : ∀ j, b.row j = []) : b = empty b.rows.size := by
  cases b with
  | mk rows =>
      refine congrArg Buckets.mk (Array.ext Array.size_replicate.symm fun i hi _ => ?_)
      have hrow : rows.getD i [] = [] := h i
      rw [Array.getElem_replicate]
      simpa [hi] using hrow

end Buckets

namespace Round

/-- All that the round lists, for a number of stops, it lists under touched stops. -/
structure Recorded (stopCount : Nat) (r : Round) : Prop where
  rows_size : r.best.rows.size = stopCount
  mem_touched : ∀ {stop}, r.best.row stop ≠ [] → stop ∈ r.touched

variable {stopCount : Nat} {r : Round}

theorem Recorded.empty (stopCount : Nat) : (Round.empty stopCount).Recorded stopCount where
  rows_size := Buckets.size_empty stopCount
  mem_touched := fun h => absurd (empty_row stopCount _) h

/-- Whatever becomes of the list of a stop that is touched. -/
theorem Recorded.update (h : r.Recorded stopCount) {stop : Nat} {touched : List Nat}
    (hstop : stop ∈ touched) (htouched : ∀ k ∈ r.touched, k ∈ touched) (labels : Array Label)
    (f : List Nat → List Nat) :
    (⟨labels, r.best.update stop f, touched⟩ : Round).Recorded stopCount where
  rows_size := (Buckets.size_update _ _ _).trans h.rows_size
  mem_touched := by
    intro other hother
    rcases Buckets.row_ne_nil_of_update hother with rfl | hrow
    · exact hstop
    · exact htouched other (h.mem_touched hrow)

theorem Recorded.insert (h : r.Recorded stopCount) (l : Label) :
    (r.insert l).Recorded stopCount :=
  h.update (mem_touched_insert.mpr (Or.inr rfl)) (fun _ hk => mem_touched_insert.mpr (Or.inl hk))
    _ _

theorem Recorded.prune (h : r.Recorded stopCount) (earlier : List Round) :
    (r.prune earlier).Recorded stopCount where
  rows_size := (Buckets.size_foldl_update _ _).trans h.rows_size
  mem_touched := by
    intro stop hstop
    have hrow : r.best.row stop ≠ [] := fun hnone => hstop
      (Buckets.row_foldl_update_eq_nil (fun _ => rfl) hnone r.touched)
    refine List.mem_filter.mpr ⟨h.mem_touched hrow, ?_⟩
    rwa [Bool.not_eq_true', List.isEmpty_eq_false_iff]

/-- Clearing leaves nothing behind. -/
theorem Recorded.clear_eq (h : r.Recorded stopCount) : r.clear = Round.empty stopCount := by
  have hrows : ∀ stop, r.clear.best.row stop = [] := by
    intro stop
    by_cases hstop : stop ∈ r.touched
    · exact Buckets.row_foldl_clear_of_mem hstop r.best
    · have hrow : r.best.row stop = [] := by_contra fun hne => hstop (h.mem_touched hne)
      exact Buckets.row_foldl_update_eq_nil (fun _ => rfl) hrow r.touched
  have hsize : r.clear.best.rows.size = stopCount :=
    (Buckets.size_foldl_update _ _).trans h.rows_size
  show (⟨#[], r.clear.best, []⟩ : Round) = ⟨#[], Buckets.empty stopCount, []⟩
  rw [Buckets.eq_empty_of_rows hrows, hsize]

/-- An empty round rejects nothing. -/
theorem rejects_empty (policy : TieBreak) (stopCount : Nat) (l : Label) :
    (Round.empty stopCount).rejects policy l = false := by
  simp [rejects, bestLabels]

end Round

namespace FlaggedRound

/-- All that the round lists or flags, it lists or flags for touched stops. -/
structure Recorded (stopCount : Nat) (r : FlaggedRound) : Prop where
  round : r.round.Recorded stopCount
  flags_size : r.flags.size = stopCount
  mem_touched : ∀ {stop}, r.isFlagged stop = true → stop ∈ r.round.touched

variable {stopCount : Nat} {r : FlaggedRound}

theorem Recorded.empty (stopCount : Nat) : (FlaggedRound.empty stopCount).Recorded stopCount where
  round := Round.Recorded.empty stopCount
  flags_size := Array.size_replicate
  mem_touched := fun hflag => ((InStep.empty stopCount).isFlagged_iff _).mp hflag

/-- A flag that is up was up before, or it is the one that is written. -/
theorem of_getD_setIfInBounds {flags : Array Bool} {stop other : Nat} {value : Bool}
    (h : (flags.setIfInBounds stop value).getD other false = true) :
    other = stop ∧ value = true ∨ other ≠ stop ∧ flags.getD other false = true := by
  by_cases hother : other = stop
  · subst hother
    by_cases hlt : other < flags.size <;> simp_all
  · simp_all [Ne.symm hother]

/-- A flag that is up after some were written was put up then, or left up. -/
theorem of_getD_setFlags {flags : Array Bool} {stops : List Nat} {value : Nat → Bool} {stop : Nat}
    (h : (setFlags flags stops value).getD stop false = true) :
    stop ∈ stops ∧ value stop = true ∨ stop ∉ stops ∧ flags.getD stop false = true := by
  induction stops generalizing flags with
  | nil => exact Or.inr ⟨List.not_mem_nil, h⟩
  | cons first stops ih =>
      rcases ih h with ⟨hmem, hvalue⟩ | ⟨hmem, hflag⟩
      · exact Or.inl ⟨List.mem_cons_of_mem _ hmem, hvalue⟩
      · rcases of_getD_setIfInBounds hflag with ⟨rfl, hvalue⟩ | ⟨hne, hflag⟩
        · exact Or.inl ⟨List.mem_cons_self, hvalue⟩
        · exact Or.inr ⟨fun hin => (List.mem_cons.mp hin).elim hne hmem, hflag⟩

/-- A stop is touched afterwards, and so is every flagged one. -/
theorem Recorded.touch (h : r.Recorded stopCount) (stop : Nat) :
    stop ∈ (r.touch stop).round.touched ∧
      (∀ k ∈ r.round.touched, k ∈ (r.touch stop).round.touched) ∧
      ∀ k, (r.touch stop).isFlagged k = true → k ∈ (r.touch stop).round.touched := by
  unfold FlaggedRound.touch
  split
  · next hflag => exact ⟨h.mem_touched hflag, fun k hk => hk, fun k hk => h.mem_touched hk⟩
  · refine ⟨List.mem_append_right _ List.mem_cons_self, fun k hk => List.mem_append_left _ hk,
      fun k hk => ?_⟩
    rcases of_getD_setIfInBounds hk with ⟨rfl, -⟩ | ⟨-, hflag⟩
    · exact List.mem_append_right _ List.mem_cons_self
    · exact List.mem_append_left _ (h.mem_touched hflag)

theorem flags_size_touch (r : FlaggedRound) (stop : Nat) :
    (r.touch stop).flags.size = r.flags.size := by
  unfold touch
  split
  · rfl
  · exact Array.size_setIfInBounds

theorem Recorded.insert (h : r.Recorded stopCount) (l : Label) :
    (r.insert l).Recorded stopCount where
  round := h.round.update (h.touch l.stop).1 (h.touch l.stop).2.1 _ _
  flags_size := (r.flags_size_touch l.stop).trans h.flags_size
  mem_touched := fun {stop} hflag => (h.touch l.stop).2.2 stop hflag

theorem Recorded.prune (h : r.Recorded stopCount) (earlier : List Round) :
    (r.prune earlier).Recorded stopCount where
  round := h.round.prune earlier
  flags_size := (size_setFlags _ _ _).trans h.flags_size
  mem_touched := by
    intro stop hflag
    rcases of_getD_setFlags hflag with ⟨hmem, hvalue⟩ | ⟨hmem, hflag⟩
    · exact List.mem_filter.mpr ⟨hmem, hvalue⟩
    · exact absurd (h.mem_touched hflag) hmem

/-- Clearing leaves nothing behind, and no flag up. -/
theorem Recorded.clear_eq (h : r.Recorded stopCount) :
    r.clear = FlaggedRound.empty stopCount := by
  have hsize : r.clear.flags.size = stopCount := (size_setFlags _ _ _).trans h.flags_size
  have hdown : ∀ stop, r.clear.flags.getD stop false = false := by
    intro stop
    refine Bool.eq_false_iff.mpr fun hflag => ?_
    rcases of_getD_setFlags hflag with ⟨-, hvalue⟩ | ⟨hmem, hflag⟩
    · cases hvalue
    · exact hmem (h.mem_touched hflag)
  have hflags : r.clear.flags = Array.replicate stopCount false := by
    refine Array.ext (hsize.trans Array.size_replicate.symm) fun i hi _ => ?_
    rw [Array.getElem_replicate]
    simpa [hi] using hdown i
  show (⟨r.round.clear, r.clear.flags⟩ : FlaggedRound) = ⟨Round.empty stopCount, _⟩
  rw [h.round.clear_eq, hflags]

end FlaggedRound

/-! ## §3. Operations and their answers. -/

/-- What an operation on a store gives back. -/
inductive StoreAnswer where
  /-- Where the label is kept, if it was taken in. -/
  | offered (place : Option LabelPlace)
  /-- How many labels ceased to be best. -/
  | pruned (removed : Nat)
  /-- Nothing to say. -/
  | cleared
deriving DecidableEq, Repr

section Machines

variable {σ α β : Type}

/-- What operations that are performed one by one give back. -/
def answersOf (answer : σ → α → β) (perform : σ → α → σ) : σ → List α → List β
  | _, [] => []
  | s, op :: ops => answer s op :: answersOf answer perform (perform s op) ops

/-- Two states that are alike give the same answers and stay alike, if each operation gives
the same answer and leaves them alike. -/
theorem answersOf_eq {answer : σ → α → β} {perform : σ → α → σ} (Alike : σ → σ → Prop)
    (hanswer : ∀ {s s'}, Alike s s' → ∀ op, answer s op = answer s' op)
    (hperform : ∀ {s s'}, Alike s s' → ∀ op, Alike (perform s op) (perform s' op)) {s s' : σ}
    (h : Alike s s') (ops : List α) :
    answersOf answer perform s ops = answersOf answer perform s' ops ∧
      Alike (ops.foldl perform s) (ops.foldl perform s') := by
  induction ops generalizing s s' with
  | nil => exact ⟨rfl, h⟩
  | cons op ops ih =>
      obtain ⟨hanswers, halike⟩ := ih (hperform h op)
      refine ⟨?_, halike⟩
      show answer s op :: _ = answer s' op :: _
      rw [hanswer h op, hanswers]

end Machines

/-- Two stores give the same answers to all questions but for the number of rounds. -/
structure LabelStore.Agrees (s s' : LabelStore) : Prop where
  label?_eq : ∀ place, s.label? place = s'.label? place
  bestLabels_eq : ∀ round stop, s.bestLabels round stop = s'.bestLabels round stop
  reachedStops_eq : ∀ round, s.reachedStops round = s'.reachedStops round
  bestArrival?_eq : ∀ stop lastRound, s.bestArrival? stop lastRound = s'.bestArrival? stop lastRound
  roundArrival?_eq : ∀ round stop, s.roundArrival? round stop = s'.roundArrival? round stop
  isEmpty_eq : s.isEmpty = s'.isEmpty

namespace LabelStore

/-- What an operation gives back. -/
def answer (s : LabelStore) : StoreOp → StoreAnswer
  | .offer o => .offered ((s.add? o.round o.label).map (·.2))
  | .prune round => .pruned (s.prune round).2
  | .clear => .cleared

/-- Any operations give back the same on both stores, and leave them so that they answer all
questions alike. -/
def AnswersLike (s s' : LabelStore) : Prop :=
  ∀ ops, answersOf answer perform s ops = answersOf answer perform s' ops ∧
    (ops.foldl perform s).Agrees (ops.foldl perform s')

/-- The first store has the rounds of the second one, and others at the end that were not
written to. -/
structure Outreaches (s s' : LabelStore) : Prop where
  stopCount_eq : s.stopCount = s'.stopCount
  policy_eq : s.policy = s'.policy
  rounds : Padded (Round.empty s'.stopCount) s.rounds s'.rounds

variable {s s' : LabelStore}

theorem Outreaches.round_eq (h : s.Outreaches s') (k : Nat) : s.round k = s'.round k := by
  unfold round
  rw [h.stopCount_eq]
  exact h.rounds.getD_eq k

theorem Outreaches.agrees (h : s.Outreaches s') : s.Agrees s' := by
  have hbest : ∀ round stop, s.bestLabels round stop = s'.bestLabels round stop := by
    intro round stop
    unfold bestLabels
    rw [h.round_eq]
  refine ⟨fun place => ?_, hbest, fun round => ?_, fun stop lastRound => ?_, fun round stop => ?_,
    h.rounds.all_eq rfl⟩
  · rw [label?_eq, label?_eq, h.round_eq]
  · unfold reachedStops
    rw [h.round_eq]
  · unfold bestArrival?
    simp only [hbest]
  · unfold roundArrival?
    rw [hbest]

theorem Outreaches.rejects_eq (h : s.Outreaches s') (round : Nat) (l : Label) :
    s.rejects round l = s'.rejects round l := by
  unfold rejects
  rw [h.policy_eq]
  exact h.rounds.any_take (Round.rejects_empty s'.policy s'.stopCount l) (round + 1)

theorem Outreaches.reach (h : s.Outreaches s') (round : Nat) : (s.reach round).Outreaches (s'.reach round) where
  stopCount_eq := h.stopCount_eq
  policy_eq := h.policy_eq
  rounds := by
    unfold LabelStore.reach
    rw [h.stopCount_eq]
    exact h.rounds.fill (round + 1)

/-- A round that was not written to stays empty when it is pruned, so it does not matter
which empty rounds come before it. -/
theorem Outreaches.prune_round_eq (h : s.Outreaches s') (k : Nat) :
    (s.round k).prune (s.rounds.take k) = (s'.round k).prune (s'.rounds.take k) := by
  rw [h.round_eq]
  by_cases hk : k ≤ s'.rounds.length
  · rw [h.rounds.take_eq hk]
  · rw [round_of_length_le (Nat.le_of_not_le hk)]
    rfl

theorem Outreaches.answer_eq (h : s.Outreaches s') (op : StoreOp) : s.answer op = s'.answer op := by
  cases op with
  | offer o =>
      show StoreAnswer.offered ((s.add? o.round o.label).map (·.2)) =
        .offered ((s'.add? o.round o.label).map (·.2))
      unfold add?
      rw [h.rejects_eq]
      split
      · rfl
      · simp only [Option.map_some, round_reach, h.round_eq]
  | prune round =>
      show StoreAnswer.pruned ((s.round round).bestCount - _) = .pruned ((s'.round round).bestCount - _)
      rw [h.round_eq, ← h.prune_round_eq, h.round_eq]
  | clear => rfl

/-- Rounds that were not written to stay without effect. -/
theorem Outreaches.perform (h : s.Outreaches s') (op : StoreOp) : (s.perform op).Outreaches (s'.perform op) := by
  cases op with
  | offer o =>
      show (s.offer o.round o.label).Outreaches (s'.offer o.round o.label)
      unfold offer add?
      rw [h.rejects_eq]
      split
      · exact h
      · have hreach := h.reach o.round
        refine ⟨hreach.stopCount_eq, hreach.policy_eq, hreach.rounds.modify (fun _ => rfl) ?_⟩
        -- The round was reached, so it is not one of those at the end.
        intro hle
        rw [reach_length] at hle
        omega
  | prune round =>
      refine ⟨h.stopCount_eq, h.policy_eq, h.rounds.modify (fun _ => ?_) fun hle => ?_⟩
      · rw [h.prune_round_eq]
      · rw [h.prune_round_eq, round_of_length_le hle]
        rfl
  | clear => exact ⟨h.stopCount_eq, h.policy_eq, h.rounds.map Round.clear⟩

theorem Outreaches.answersLike (h : s.Outreaches s') : s.AnswersLike s' := by
  intro ops
  obtain ⟨hanswers, houtreaches⟩ := answersOf_eq Outreaches Outreaches.answer_eq Outreaches.perform h ops
  exact ⟨hanswers, houtreaches.agrees⟩

/-- The store has the given settings, and all that its rounds list they list under touched
stops. -/
structure Recorded (stopCount : Nat) (policy : TieBreak) (s : LabelStore) : Prop where
  stopCount_eq : s.stopCount = stopCount
  policy_eq : s.policy = policy
  rounds : ∀ r ∈ s.rounds, r.Recorded stopCount

variable {stopCount : Nat} {policy : TieBreak}

theorem Recorded.round (h : s.Recorded stopCount policy) (k : Nat) :
    (s.round k).Recorded stopCount := by
  by_cases hk : k < s.rounds.length
  · rw [round_of_lt_length hk]
    exact h.rounds _ (List.getElem_mem hk)
  · rw [round_of_length_le (Nat.le_of_not_lt hk), h.stopCount_eq]
    exact Round.Recorded.empty stopCount

theorem Recorded.reach (h : s.Recorded stopCount policy) (round : Nat) :
    ∀ r ∈ (s.reach round).rounds, r.Recorded stopCount := by
  refine forall_mem_append_replicate h.rounds ?_ _
  rw [h.stopCount_eq]
  exact Round.Recorded.empty stopCount

theorem Recorded.perform (h : s.Recorded stopCount policy) (op : StoreOp) :
    (s.perform op).Recorded stopCount policy := by
  obtain ⟨hcount, hpolicy⟩ := s.perform_settings op
  refine ⟨hcount.trans h.stopCount_eq, hpolicy.trans h.policy_eq, ?_⟩
  cases op with
  | offer o =>
      show ∀ r ∈ (s.offer o.round o.label).rounds, r.Recorded stopCount
      unfold offer add?
      split
      · exact h.rounds
      · exact forall_mem_modify (h.reach o.round) fun r hr =>
          (h.reach o.round r (List.mem_of_getElem? hr)).insert o.label
  | prune round => exact forall_mem_modify h.rounds fun _ _ => (h.round round).prune _
  | clear =>
      intro r hr
      obtain ⟨old, hold, rfl⟩ := List.mem_map.mp hr
      rw [(h.rounds old hold).clear_eq]
      exact Round.Recorded.empty stopCount

theorem Recorded.ofOps (policy : TieBreak) (stopCount : Nat) (ops : List StoreOp) :
    (ofOps stopCount policy ops).Recorded stopCount policy :=
  List.foldlRecOn (motive := Recorded stopCount policy) ops LabelStore.perform
    ⟨rfl, rfl, fun _ hr => absurd hr List.not_mem_nil⟩ fun _ h op _ => h.perform op

/-- A store that was cleared is a new one, with rounds that were not written to. -/
theorem Recorded.clear_outreaches (h : s.Recorded stopCount policy) :
    s.clear.Outreaches (empty stopCount policy) :=
  ⟨h.stopCount_eq, h.policy_eq, Padded.of_forall_eq fun r hr => (h.rounds r hr).clear_eq⟩

end LabelStore

/-! ## §5. Stores with flags. -/

namespace FlaggedStore

/-- What an operation gives back. -/
def answer (s : FlaggedStore) : StoreOp → StoreAnswer
  | .offer o => .offered (s.add o.round o.label).2
  | .prune round => .pruned (s.erase.prune round).2
  | .clear => .cleared

/-- Any operations give back the same on both stores, and leave them so that they answer all
questions alike. -/
def AnswersLike (s s' : FlaggedStore) : Prop :=
  ∀ ops, answersOf answer perform s ops = answersOf answer perform s' ops ∧
    (ops.foldl perform s).erase.Agrees (ops.foldl perform s').erase

/-- The first store has the rounds of the second one, and others at the end that were not
written to. -/
structure Outreaches (s s' : FlaggedStore) : Prop where
  stopCount_eq : s.stopCount = s'.stopCount
  policy_eq : s.policy = s'.policy
  rounds : Padded (FlaggedRound.empty s'.stopCount) s.rounds s'.rounds

variable {s s' : FlaggedStore}

theorem Outreaches.erase (h : s.Outreaches s') : s.erase.Outreaches s'.erase :=
  ⟨h.stopCount_eq, h.policy_eq, h.rounds.map FlaggedRound.round⟩

theorem Outreaches.reach (h : s.Outreaches s') (round : Nat) :
    (s.reach round).Outreaches (s'.reach round) where
  stopCount_eq := h.stopCount_eq
  policy_eq := h.policy_eq
  rounds := by
    unfold FlaggedStore.reach
    rw [h.stopCount_eq]
    exact h.rounds.fill (round + 1)

theorem reach_length (s : FlaggedStore) (round : Nat) :
    (s.reach round).rounds.length = max s.rounds.length (round + 1) := by
  simp only [reach, List.length_append, List.length_replicate]
  omega

theorem Outreaches.answer_eq (h : s.Outreaches s') (op : StoreOp) : s.answer op = s'.answer op := by
  cases op with
  | offer o =>
      show StoreAnswer.offered (s.add o.round o.label).2 = .offered (s'.add o.round o.label).2
      unfold add
      rw [h.erase.rejects_eq]
      split
      · rfl
      · simp only [(h.reach o.round).erase.round_eq]
  | prune round => exact h.erase.answer_eq (.prune round)
  | clear => rfl

/-- Rounds that were not written to stay without effect. -/
theorem Outreaches.perform (h : s.Outreaches s') (op : StoreOp) :
    (s.perform op).Outreaches (s'.perform op) := by
  cases op with
  | offer o =>
      show (s.add o.round o.label).1.Outreaches (s'.add o.round o.label).1
      unfold add
      rw [h.erase.rejects_eq]
      split
      · exact h
      · have hreach := h.reach o.round
        refine ⟨hreach.stopCount_eq, hreach.policy_eq, hreach.rounds.modify (fun _ => rfl) ?_⟩
        intro hle
        rw [reach_length] at hle
        omega
  | prune round =>
      refine ⟨h.stopCount_eq, h.policy_eq, h.rounds.modify (fun hlt => ?_) fun _ => rfl⟩
      have hlt' : round ≤ s'.erase.rounds.length := by
        rw [show s'.erase.rounds.length = s'.rounds.length from List.length_map _]
        exact Nat.le_of_lt hlt
      rw [h.erase.rounds.take_eq hlt']
  | clear => exact ⟨h.stopCount_eq, h.policy_eq, h.rounds.map FlaggedRound.clear⟩

theorem Outreaches.answersLike (h : s.Outreaches s') : s.AnswersLike s' := by
  intro ops
  obtain ⟨hanswers, houtreaches⟩ := answersOf_eq Outreaches Outreaches.answer_eq Outreaches.perform h ops
  exact ⟨hanswers, houtreaches.erase.agrees⟩

/-- The store has the given settings, and all that its rounds list or flag they list or flag
for touched stops. -/
structure Recorded (stopCount : Nat) (policy : TieBreak) (s : FlaggedStore) : Prop where
  stopCount_eq : s.stopCount = stopCount
  policy_eq : s.policy = policy
  rounds : ∀ r ∈ s.rounds, r.Recorded stopCount

variable {stopCount : Nat} {policy : TieBreak}

theorem Recorded.reach (h : s.Recorded stopCount policy) (round : Nat) :
    ∀ r ∈ (s.reach round).rounds, r.Recorded stopCount := by
  refine forall_mem_append_replicate h.rounds ?_ _
  rw [h.stopCount_eq]
  exact FlaggedRound.Recorded.empty stopCount

theorem Recorded.perform (h : s.Recorded stopCount policy) (op : StoreOp) :
    (s.perform op).Recorded stopCount policy := by
  cases op with
  | offer o =>
      show (s.add o.round o.label).1.Recorded stopCount policy
      unfold add
      split
      · exact h
      · exact ⟨h.stopCount_eq, h.policy_eq, forall_mem_modify (h.reach o.round) fun r hr =>
          (h.reach o.round r (List.mem_of_getElem? hr)).insert o.label⟩
  | prune round =>
      exact ⟨h.stopCount_eq, h.policy_eq, forall_mem_modify h.rounds fun r hr =>
        (h.rounds r (List.mem_of_getElem? hr)).prune _⟩
  | clear =>
      refine ⟨h.stopCount_eq, h.policy_eq, fun r hr => ?_⟩
      obtain ⟨old, hold, rfl⟩ := List.mem_map.mp hr
      rw [(h.rounds old hold).clear_eq]
      exact FlaggedRound.Recorded.empty stopCount

theorem Recorded.ofOps (policy : TieBreak) (stopCount : Nat) (ops : List StoreOp) :
    (ofOps stopCount policy ops).Recorded stopCount policy :=
  List.foldlRecOn (motive := Recorded stopCount policy) ops FlaggedStore.perform
    ⟨rfl, rfl, fun _ hr => absurd hr List.not_mem_nil⟩ fun _ h op _ => h.perform op

/-- A store that was cleared is a new one, with rounds that were not written to. -/
theorem Recorded.clear_outreaches (h : s.Recorded stopCount policy) :
    s.clear.Outreaches (empty stopCount policy) :=
  ⟨h.stopCount_eq, h.policy_eq, Padded.of_forall_eq fun r hr => (h.rounds r hr).clear_eq⟩

end FlaggedStore

/-! ## §6. Stores that are used again. -/

/-- Whatever was done to a store, once it is cleared all further operations give back the
same places, refusals and counts as on a new one, and after each of them the two give the
same labels, lists and times.  This holds without flags and with them. -/
theorem StoreOp.clear_answersLike_empty (stopCount : Nat) (policy : TieBreak)
    (history : List StoreOp) :
    (LabelStore.ofOps stopCount policy history).clear.AnswersLike
        (LabelStore.empty stopCount policy) ∧
      (FlaggedStore.ofOps stopCount policy history).clear.AnswersLike
        (FlaggedStore.empty stopCount policy) :=
  ⟨(LabelStore.Recorded.ofOps policy stopCount history).clear_outreaches.answersLike,
    (FlaggedStore.Recorded.ofOps policy stopCount history).clear_outreaches.answersLike⟩

end TransitRouting
