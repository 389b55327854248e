/-
  TransitRouting.Proofs.LabelStore.Operations
  ───────────────────────────────────────────
  What a store keeps through any sequence of operations.

  Labels may be offered to the rounds in any order, rounds may be pruned at any
  time, and the store may be cleared and used again.  Then an early label can
  make one of a later round superfluous, but within a round every list stays
  in order: no label that comes later dominates one that is still listed, and
  none that came before rejects it.  So pruning removes exactly what earlier
  rounds have made superfluous.

  Main statements:

    • `Round.row_prune`, `Round.row_clear` — what is left of each list;
    • `LabelStore.InOrder.perform` — every operation keeps a store in order;
    • `LabelStore.inOrder_ofOps` — so does every sequence of them;
    • `LabelStore.InOrder.isPruned` — what pruning removes, counts and leaves.
-/
import TransitRouting.Proofs.LabelStore.Sequences

namespace TransitRouting

/-! ## §1. Rows of many numbers. -/

namespace Buckets

variable {α : Type} {f : Nat → List α → List α}

@[simp] theorem size_foldl_update (ks : List Nat) (b : Buckets α) :
    (ks.foldl (fun b k => b.update k (f k)) b).rows.size = b.rows.size := by
  induction ks generalizing b with
  | nil => rfl
  | cons k ks ih => rw [List.foldl_cons, ih, size_update]

/-- A function that leaves an empty row empty may be used outside of the table as well. -/
theorem row_update_of_nil {g : List α → List α} (hg : g [] = []) (b : Buckets α) (k j : Nat) :
    (b.update k g).row j = if k = j then g (b.row j) else b.row j := by
  by_cases hj : j < b.rows.size
  · exact row_update _ _ _ _ hj
  · have hout := Nat.le_of_not_lt hj
    rw [row_of_size_le hout, row_of_size_le (by rwa [size_update]), hg, ite_self]

/-- Rows that are put through functions one after the other, each of them once. -/
theorem row_foldl_update (hf : ∀ k, f k [] = []) {ks : List Nat} (hks : ks.Nodup) (b : Buckets α)
    (j : Nat) :
    (ks.foldl (fun b k => b.update k (f k)) b).row j =
      if j ∈ ks then f j (b.row j) else b.row j := by
  induction ks generalizing b with
  | nil => rfl
  | cons k ks ih =>
      obtain ⟨hk, hks⟩ := List.nodup_cons.mp hks
      rw [List.foldl_cons, ih hks, row_update_of_nil (hf k)]
      by_cases hkj : k = j
      · subst hkj
        simp [hk]
      · simp [hkj, Ne.symm hkj]

end Buckets

/-! ## §2. Rounds that are pruned or cleared. -/

namespace Round

variable {stopCount : Nat} {r : Round} {earlier : List Round} {policy : TieBreak}

/-- What is left of a list is what is unbeaten. -/
theorem row_prune (hr : r.Valid stopCount) (earlier : List Round) (stop : Nat) :
    (r.prune earlier).best.row stop = (r.best.row stop).filter (r.isUnbeaten earlier stop) := by
  show (r.touched.foldl (fun best stop => best.update stop (·.filter (r.isUnbeaten earlier stop)))
    r.best).row stop = _
  rw [Buckets.row_foldl_update (fun _ => rfl) hr.touched_nodup]
  split
  · rfl
  · next hstop =>
      -- A stop that is not touched has nothing listed.
      rw [hr.mem_touched, not_not] at hstop
      rw [hstop, List.filter_nil]

theorem bestLabels_prune (hr : r.Valid stopCount) (earlier : List Round) (stop : Nat) :
    (r.prune earlier).bestLabels stop =
      ((r.best.row stop).filter (r.isUnbeaten earlier stop)).map r.label := by
  unfold bestLabels
  rw [row_prune hr]
  rfl

theorem Valid.prune (hr : r.Valid stopCount) (earlier : List Round) :
    (r.prune earlier).Valid stopCount where
  rows_size := by
    show (r.touched.foldl (fun best stop =>
      best.update stop (·.filter (r.isUnbeaten earlier stop))) r.best).rows.size = stopCount
    rw [Buckets.size_foldl_update, hr.rows_size]
  index_lt := by
    intro stop i hi
    rw [row_prune hr] at hi
    exact hr.index_lt (List.mem_of_mem_filter hi)
  stop_eq := by
    intro stop i hi
    rw [row_prune hr] at hi
    exact hr.stop_eq (List.mem_of_mem_filter hi)
  ascending := by
    intro stop
    rw [row_prune hr]
    exact (hr.ascending stop).filter _
  mem_touched := by
    intro stop
    show stop ∈ r.touched.filter (fun stop => !((r.prune earlier).best.row stop).isEmpty) ↔ _
    rw [List.mem_filter, hr.mem_touched]
    simp only [Bool.not_eq_true', List.isEmpty_eq_false_iff, and_iff_right_iff_imp]
    intro hkept hnone
    rw [row_prune hr, hnone] at hkept
    exact hkept rfl
  touched_nodup := hr.touched_nodup.filter _

theorem row_clear (hr : r.Valid stopCount) (stop : Nat) : r.clear.best.row stop = [] := by
  show (r.touched.foldl (fun best stop => best.update stop fun _ => []) r.best).row stop = []
  rw [Buckets.row_foldl_update (fun _ => rfl) hr.touched_nodup]
  split
  · rfl
  · next hstop => rwa [hr.mem_touched, not_not] at hstop

theorem Valid.clear (hr : r.Valid stopCount) : r.clear.Valid stopCount where
  rows_size := by
    show (r.touched.foldl (fun best stop => best.update stop fun _ => []) r.best).rows.size = _
    rw [Buckets.size_foldl_update, hr.rows_size]
  index_lt := by
    intro stop i hi
    simp [row_clear hr] at hi
  stop_eq := by
    intro stop i hi
    simp [row_clear hr] at hi
  ascending := by
    intro stop
    simp [row_clear hr]
  mem_touched := by
    intro stop
    rw [row_clear hr]
    exact iff_of_false List.not_mem_nil fun hnot => hnot rfl
  touched_nodup := List.nodup_nil

/-! ## §3. Lists in order. -/

/-- No best label of a stop is dominated by one that came later, or rejected by one that
came before. -/
def InOrder (policy : TieBreak) (r : Round) : Prop :=
  ∀ stop, (r.bestLabels stop).Pairwise fun a b =>
    ¬ b.criteria.Dominates a.criteria ∧ ¬ a.criteria.Rejects policy b.criteria

theorem InOrder.empty (policy : TieBreak) (stopCount : Nat) :
    (Round.empty stopCount).InOrder policy := by
  intro stop
  simp [bestLabels]

theorem InOrder.insert (h : r.InOrder policy) (hr : r.Valid stopCount) {l : Label}
    (hl : l.stop < stopCount) (hfree : r.rejects policy l = false) :
    (r.insert l).InOrder policy := by
  intro stop
  rw [bestLabels_insert hr hl]
  split
  · next hstop =>
      subst hstop
      refine List.pairwise_append.mpr ⟨(h l.stop).filter _, List.pairwise_singleton _ _, ?_⟩
      intro held hheld newcomer hnewcomer
      obtain rfl := List.mem_singleton.mp hnewcomer
      obtain ⟨hmem, hkept⟩ := List.mem_filter.mp hheld
      refine ⟨of_decide_eq_true hkept, fun hrejects => ?_⟩
      -- Whoever is rejected is not taken in.
      have hrejected : r.rejects policy newcomer = true :=
        List.any_eq_true.mpr ⟨held, hmem, decide_eq_true hrejects⟩
      rw [hfree] at hrejected
      cases hrejected
  · exact h stop

theorem InOrder.prune (h : r.InOrder policy) (hr : r.Valid stopCount) (earlier : List Round) :
    (r.prune earlier).InOrder policy := by
  intro stop
  rw [bestLabels_prune hr]
  exact (h stop).sublist (List.filter_sublist.map r.label)

theorem InOrder.clear (hr : r.Valid stopCount) : r.clear.InOrder policy := by
  intro stop
  simp [bestLabels, row_clear hr]

/-- Of the best labels of a stop none dominates another. -/
theorem InOrder.not_dominates (h : r.InOrder policy) {stop : Nat} {a b : Label}
    (ha : a ∈ r.bestLabels stop) (hb : b ∈ r.bestLabels stop) :
    ¬ a.criteria.Dominates b.criteria := by
  refine List.Pairwise.forall_of_forall_of_flip
    (R := fun a b : Label => ¬ a.criteria.Dominates b.criteria)
    (fun c _ => c.criteria.not_dominates_self) ?_ ?_ ha hb
  · exact (h stop).imp fun hordered hdom => hordered.2 (Or.inl hdom)
  · exact (h stop).imp fun hordered => hordered.1

end Round

/-! ## §4. Stores that are pruned or cleared. -/

namespace LabelStore

variable {s : LabelStore}

/-- A round that is not there has nothing to prune. -/
theorem round_prune (s : LabelStore) (r k : Nat) :
    (s.prune r).1.round k =
      if k = r then (s.round r).prune (s.rounds.take r) else s.round k := by
  have hround : ∀ i, s.round i = s.rounds[i]?.getD (Round.empty s.stopCount) :=
    fun i => List.getD_eq_getElem?_getD
  show (s.rounds.modify r fun _ => (s.round r).prune (s.rounds.take r)).getD k
    (Round.empty s.stopCount) = _
  rw [List.getD_eq_getElem?_getD, List.getElem?_modify]
  by_cases hk : k = r
  · subst hk
    by_cases hlt : k < s.rounds.length
    · simp [hlt]
    · rw [round_of_length_le (Nat.le_of_not_lt hlt)]
      simp [hlt]
      rfl
  · simp [hk, Ne.symm hk, hround]

/-- Pruning moves no label. -/
theorem label?_prune (s : LabelStore) (r : Nat) (place : LabelPlace) :
    (s.prune r).1.label? place = s.label? place := by
  rw [label?_eq, label?_eq, round_prune]
  split
  · next hplace =>
      rw [hplace]
      rfl
  · rfl

theorem round_clear (s : LabelStore) (k : Nat) : s.clear.round k = (s.round k).clear := by
  show (s.rounds.map Round.clear).getD k (Round.empty s.stopCount).clear = _
  rw [List.getD_map]
  rfl

/-- The lists of all rounds are true and in order. -/
structure InOrder (s : LabelStore) : Prop where
  valid : s.Valid
  inOrder : ∀ k, (s.round k).InOrder s.policy

theorem InOrder.empty (stopCount : Nat) (policy : TieBreak) :
    (LabelStore.empty stopCount policy).InOrder := by
  refine ⟨Valid.empty stopCount policy, fun k => ?_⟩
  rw [round_empty]
  exact Round.InOrder.empty policy stopCount

/-- A label that its own round keeps out is kept out. -/
theorem rejects_of_rejects_round {r : Nat} {l : Label}
    (h : (s.round r).rejects s.policy l = true) : s.rejects r l = true := by
  obtain ⟨held, hmem, hrejects⟩ := List.any_eq_true.mp h
  rw [← map_snd_bestLabels] at hmem
  obtain ⟨e, he, rfl⟩ := List.mem_map.mp hmem
  exact rejects_iff.mpr ⟨r, Nat.le_refl r, e, he, of_decide_eq_true hrejects⟩

theorem InOrder.offer (h : s.InOrder) {o : Offer} (hstop : o.label.stop < s.stopCount) :
    (s.offer o.round o.label).InOrder := by
  rcases s.offer_cases o.round o.label with ⟨place, hadd⟩ | ⟨-, hsame⟩
  · obtain ⟨hfree, -, -, hpolicy, -, hround⟩ := add?_eq_some hadd
    refine ⟨h.valid.add? hstop hadd, fun k => ?_⟩
    rw [hround, hpolicy]
    split
    · have hown : (s.round o.round).rejects s.policy o.label = false :=
        Bool.eq_false_iff.mpr fun hrejects =>
          Bool.false_ne_true (hfree.symm.trans (rejects_of_rejects_round hrejects))
      exact (h.inOrder o.round).insert (h.valid o.round) hstop hown
    · exact h.inOrder k
  · rwa [hsame]

theorem InOrder.prune (h : s.InOrder) (r : Nat) : (s.prune r).1.InOrder := by
  refine ⟨fun k => ?_, fun k => ?_⟩
  · rw [round_prune]
    split
    · exact (h.valid r).prune _
    · exact h.valid k
  · rw [round_prune]
    split
    · exact (h.inOrder r).prune (h.valid r) _
    · exact h.inOrder k

theorem InOrder.clear (h : s.InOrder) : s.clear.InOrder := by
  refine ⟨fun k => ?_, fun k => ?_⟩
  · rw [round_clear]
    exact (h.valid k).clear
  · rw [round_clear]
    exact Round.InOrder.clear (h.valid k)

end LabelStore

/-! ## §5. Sequences of operations. -/

/-- What can be done to a store. -/
inductive StoreOp where
  /-- Offer a label to a round. -/
  | offer (o : Offer)
  /-- Prune a round. -/
  | prune (round : Nat)
  /-- Forget all labels. -/
  | clear
deriving DecidableEq, Repr

/-- Labels are offered at stops of the store. -/
def StoreOp.Within (stopCount : Nat) : StoreOp → Prop
  | .offer o => o.label.stop < stopCount
  | .prune _ => True
  | .clear => True

instance (stopCount : Nat) (op : StoreOp) : Decidable (op.Within stopCount) := by
  unfold StoreOp.Within
  cases op <;> infer_instance

namespace LabelStore

variable {s : LabelStore} {stopCount : Nat} {policy : TieBreak} {op : StoreOp}
  {ops : List StoreOp}

/-- The store after an operation. -/
def perform (s : LabelStore) : StoreOp → LabelStore
  | .offer o => s.offer o.round o.label
  | .prune round => (s.prune round).1
  | .clear => s.clear

/-- The store after operations were performed one by one on an empty one. -/
def ofOps (stopCount : Nat) (policy : TieBreak) (ops : List StoreOp) : LabelStore :=
  ops.foldl perform (empty stopCount policy)

theorem ofOps_concat (ops : List StoreOp) (op : StoreOp) :
    ofOps stopCount policy (ops ++ [op]) = (ofOps stopCount policy ops).perform op := by
  unfold ofOps
  rw [List.foldl_append, List.foldl_cons, List.foldl_nil]

/-- The settings of a store stay. -/
theorem perform_settings (s : LabelStore) (op : StoreOp) :
    (s.perform op).stopCount = s.stopCount ∧ (s.perform op).policy = s.policy := by
  cases op with
  | offer o =>
      rcases s.offer_cases o.round o.label with ⟨place, hadd⟩ | ⟨-, hsame⟩
      · obtain ⟨-, -, hcount, hpolicy, -⟩ := add?_eq_some hadd
        exact ⟨hcount, hpolicy⟩
      · show (s.offer o.round o.label).stopCount = _ ∧ (s.offer o.round o.label).policy = _
        rw [hsame]
        exact ⟨rfl, rfl⟩
  | prune round => exact ⟨rfl, rfl⟩
  | clear => exact ⟨rfl, rfl⟩

/-- Every operation keeps a store in order. -/
theorem InOrder.perform (h : s.InOrder) (hop : op.Within s.stopCount) :
    (s.perform op).InOrder := by
  cases op with
  | offer o => exact h.offer hop
  | prune round => exact h.prune round
  | clear => exact h.clear

/-- An operation adds at most one label to a round. -/
theorem labels_size_perform_le (s : LabelStore) (op : StoreOp) (k : Nat) :
    ((s.perform op).round k).labels.size ≤ (s.round k).labels.size + 1 := by
  cases op with
  | offer o =>
      show ((s.offer o.round o.label).round k).labels.size ≤ _
      rcases s.offer_cases o.round o.label with ⟨place, hadd⟩ | ⟨-, hsame⟩
      · obtain ⟨-, -, -, -, -, hround⟩ := add?_eq_some hadd
        rw [hround]
        split
        · next hk => simp [hk]
        · exact Nat.le_succ _
      · rw [hsame]
        exact Nat.le_succ _
  | prune round =>
      show ((s.prune round).1.round k).labels.size ≤ _
      rw [round_prune]
      split
      · next hk =>
          subst hk
          exact Nat.le_succ _
      · exact Nat.le_succ _
  | clear =>
      show (s.clear.round k).labels.size ≤ _
      rw [round_clear]
      exact Nat.zero_le _

/-- Every sequence of operations leaves a store in order, with its settings, and with no
more labels in a round than there were operations. -/
theorem inOrder_ofOps (policy : TieBreak) (hops : ∀ op ∈ ops, op.Within stopCount) :
    (ofOps stopCount policy ops).InOrder ∧
      (ofOps stopCount policy ops).stopCount = stopCount ∧
      (ofOps stopCount policy ops).policy = policy ∧
      ∀ k, ((ofOps stopCount policy ops).round k).labels.size ≤ ops.length := by
  -- The induction adds operations at the end, where they are performed.
  induction ops using List.reverseRecOn with
  | nil =>
      refine ⟨InOrder.empty stopCount policy, rfl, rfl, fun k => ?_⟩
      show ((empty stopCount policy).round k).labels.size ≤ 0
      rw [round_empty]
      exact Nat.le_refl 0
  | append_singleton ops op ih =>
      obtain ⟨hinOrder, hcount, hpolicy, hsize⟩ := ih fun x hx => hops x (List.mem_append_left _ hx)
      have hop : op.Within stopCount := hops op (List.mem_append_right _ List.mem_cons_self)
      obtain ⟨hcount', hpolicy'⟩ := (ofOps stopCount policy ops).perform_settings op
      rw [ofOps_concat]
      refine ⟨hinOrder.perform (hcount.symm ▸ hop), hcount'.trans hcount, hpolicy'.trans hpolicy,
        fun k => ?_⟩
      rw [List.length_append, List.length_singleton]
      exact Nat.le_trans (labels_size_perform_le _ op k) (Nat.succ_le_succ (hsize k))

end LabelStore

/-! ## §6. What pruning removes. -/

section Lists

variable {α β : Type}

/-- Members without anything of their own do not count. -/
theorem flatMap_filter_of_eq_nil {f : α → List β} {p : α → Bool} {xs : List α}
    (h : ∀ x ∈ xs, p x = false → f x = []) : (xs.filter p).flatMap f = xs.flatMap f := by
  induction xs with
  | nil => rfl
  | cons x xs ih =>
      have hrest := ih fun y hy => h y (List.mem_cons_of_mem _ hy)
      cases hx : p x with
      | true => rw [List.filter_cons_of_pos hx, List.flatMap_cons, List.flatMap_cons, hrest]
      | false =>
          have hnot : ¬ p x = true := Bool.eq_false_iff.mp hx
          rw [List.filter_cons_of_neg hnot, List.flatMap_cons, h x List.mem_cons_self hx, hrest,
            List.nil_append]

/-- What a filter keeps of each list and what it takes from each are all there is. -/
theorem length_flatMap_filter_add (f : α → List β) (p : α → β → Bool) (xs : List α) :
    (xs.flatMap fun x => (f x).filter (p x)).length +
      (xs.flatMap fun x => (f x).filter fun y => !p x y).length = (xs.flatMap f).length := by
  induction xs with
  | nil => rfl
  | cons x xs ih =>
      have hx := List.length_eq_length_filter_add (l := f x) (p x)
      simp only [List.flatMap_cons, List.length_append]
      omega

end Lists

/-- All best labels of a round are counted, each of them once. -/
theorem Round.Valid.bestCount_eq {stopCount : Nat} {r : Round} (hr : r.Valid stopCount) :
    r.bestCount = ((List.range stopCount).flatMap r.best.row).length := by
  have htouched : r.touched.Perm ((List.range stopCount).filter fun stop =>
      !(r.best.row stop).isEmpty) := by
    refine (List.perm_ext_iff_of_nodup hr.touched_nodup (List.nodup_range.filter _)).mpr ?_
    intro stop
    rw [List.mem_filter, List.mem_range, Bool.not_eq_true', List.isEmpty_eq_false_iff]
    constructor
    · exact fun hstop => ⟨hr.stop_lt_of_mem_touched hstop, hr.mem_touched.mp hstop⟩
    · exact fun hstop => hr.mem_touched.mpr hstop.2
  have hcount : r.bestCount = (r.touched.flatMap r.best.row).length := by
    unfold Round.bestCount
    rw [List.length_flatMap, List.sum_eq_foldl, List.foldl_map]
  rw [hcount, (htouched.flatMap_right r.best.row).length_eq, flatMap_filter_of_eq_nil]
  intro stop _ hnone
  simpa using hnone

namespace LabelStore

variable {s : LabelStore} {r stop : Nat}

/-- A best label of the stop in a round before `r` dominates the label. -/
def Overtaken (s : LabelStore) (r stop : Nat) (l : Label) : Prop :=
  ∃ k < r, ∃ held ∈ s.bestLabels k stop, held.2.criteria.Dominates l.criteria

instance (s : LabelStore) (r stop : Nat) (l : Label) : Decidable (s.Overtaken r stop l) :=
  inferInstanceAs (Decidable (∃ k < r, ∃ held ∈ s.bestLabels k stop, _))

/-- In its own round no best label is beaten. -/
theorem InOrder.isUnbeaten_iff (h : s.InOrder) {i : Nat}
    (hi : i ∈ (s.round r).best.row stop) :
    (s.round r).isUnbeaten (s.rounds.take r) stop i = true ↔
      ¬ s.Overtaken r stop ((s.round r).label i) := by
  have hown : ((s.round r).best.row stop).any (fun j =>
      j ≠ i && decide (((s.round r).label j).criteria.Dominates ((s.round r).label i).criteria)) =
      false := by
    rw [List.any_eq_false]
    intro j hj hbeaten
    simp only [Bool.and_eq_true, decide_eq_true_eq] at hbeaten
    exact (h.inOrder r).not_dominates (List.mem_map_of_mem hj) (List.mem_map_of_mem hi) hbeaten.2
  unfold Round.isUnbeaten Overtaken
  rw [← exists_take_rounds_iff (P := fun held =>
    held.criteria.Dominates ((s.round r).label i).criteria)]
  simp only [hown, Bool.not_false, Bool.true_and, Bool.not_eq_true', ← Bool.not_eq_true,
    List.any_eq_true, decide_eq_true_eq]

/-- The store `s'` is `s` without the best labels of round `r` that are overtaken, of which
there are `removed`. -/
structure IsPruned (s : LabelStore) (r : Nat) (s' : LabelStore) (removed : Nat) : Prop where
  /-- The others of the round stay, in the same order. -/
  kept : ∀ stop, s'.bestLabels r stop =
    (s.bestLabels r stop).filter fun e => ¬ s.Overtaken r stop e.2
  /-- No other round changes. -/
  others : ∀ k, k ≠ r → s'.round k = s.round k
  /-- Labels stay where they are kept. -/
  label?_eq : ∀ place, s'.label? place = s.label? place
  roundCount_eq : s'.roundCount = s.roundCount
  /-- Those that go are counted. -/
  removed_eq : removed = ((List.range s.stopCount).flatMap fun stop =>
    (s.bestLabels r stop).filter fun e => s.Overtaken r stop e.2).length

/-- Pruning a store whose lists are in order removes what earlier rounds have overtaken,
counts it, and changes nothing else. -/
theorem InOrder.isPruned (h : s.InOrder) (r : Nat) : s.IsPruned r (s.prune r).1 (s.prune r).2 := by
  have hround : (s.prune r).1.round r = (s.round r).prune (s.rounds.take r) := by
    rw [round_prune, if_pos rfl]
  have hrow : ((s.round r).prune (s.rounds.take r)).best.row = fun stop =>
      ((s.round r).best.row stop).filter fun i =>
        decide (¬ s.Overtaken r stop ((s.round r).label i)) := by
    funext stop
    rw [Round.row_prune (h.valid r)]
    refine List.filter_congr fun i hi => ?_
    rw [Bool.eq_iff_iff, decide_eq_true_eq]
    exact h.isUnbeaten_iff hi
  refine ⟨fun stop => ?_, fun k hk => ?_, s.label?_prune r, ?_, ?_⟩
  · simp only [bestLabels, hround]
    rw [hrow, List.filter_map]
    rfl
  · rw [round_prune, if_neg hk]
  · show (s.rounds.modify r _).length = _
    rw [List.length_modify]
    rfl
  · have hpruned : ((s.round r).prune (s.rounds.take r)).Valid s.stopCount := (h.valid r).prune _
    show (s.round r).bestCount - ((s.round r).prune (s.rounds.take r)).bestCount = _
    rw [(h.valid r).bestCount_eq, hpruned.bestCount_eq]
    have hremoved : ∀ stop, ((s.bestLabels r stop).filter fun e => s.Overtaken r stop e.2).length =
        (((s.round r).best.row stop).filter fun i =>
          !decide (¬ s.Overtaken r stop ((s.round r).label i))).length := by
      intro stop
      unfold bestLabels
      rw [List.filter_map, List.length_map]
      simp [Function.comp_def]
    have hadd := length_flatMap_filter_add (s.round r).best.row
      (fun stop i => decide (¬ s.Overtaken r stop ((s.round r).label i))) (List.range s.stopCount)
    rw [hrow, List.length_flatMap (f := fun stop => (s.bestLabels r stop).filter _)]
    simp only [hremoved]
    rw [← List.length_flatMap]
    omega

end LabelStore

end TransitRouting
