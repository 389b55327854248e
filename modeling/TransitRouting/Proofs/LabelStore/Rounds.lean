/-
  TransitRouting.Proofs.LabelStore.Rounds
  ───────────────────────────────────────
  What a round of the label store lists, and what one more label changes.

  A round keeps every label in an array and lists under each stop the places
  of the best ones.  A newcomer is kept in a place of its own, joins the best
  labels of its stop, and drives out those that it dominates; at every other
  stop nothing changes.

  Main statements:

    • `Round.Valid.insert` — the lists stay true when a label comes in;
    • `Round.mem_best_insert`, `Round.bestLabels_insert` — which places, and
      which labels, are best afterwards;
    • `Round.prune_eq_self` — a round without beaten labels is not pruned.
-/
import TransitRouting.LabelStore
import TransitRouting.Proofs.Schedule.Tables

namespace TransitRouting

/-! ## §1. Tables that are updated. -/

namespace Buckets

variable {α : Type}

/-- Updating a row that stays the same changes nothing. -/
theorem update_eq_self {b : Buckets α} {k : Nat} {f : List α → List α}
    (h : f (b.row k) = b.row k) : b.update k f = b := by
  cases b with
  | mk rows =>
      show Buckets.mk (rows.modify k f) = Buckets.mk rows
      congr 1
      apply Array.ext_getElem?
      intro i
      rw [Array.getElem?_modify]
      split
      · next hki =>
          subst hki
          by_cases hk : k < rows.size
          · have hrow : f rows[k] = rows[k] := by simpa [row, hk] using h
            simp [hk, hrow]
          · simp [hk]
      · rfl

/-- A row with values lies in the table. -/
theorem lt_size_of_mem_row {b : Buckets α} {k : Nat} {x : α} (h : x ∈ b.row k) :
    k < b.rows.size := by
  refine Nat.lt_of_not_le fun hle => ?_
  rw [row_of_size_le hle] at h
  cases h

end Buckets

/-! ## §2. Valid rounds. -/

namespace Round

/-- The lists of a round, for a number of stops, say what they should. -/
structure Valid (stopCount : Nat) (r : Round) : Prop where
  /-- There is a list for every stop. -/
  rows_size : r.best.rows.size = stopCount
  /-- Best labels are there. -/
  index_lt : ∀ {stop i}, i ∈ r.best.row stop → i < r.labels.size
  /-- They are listed under their own stop. -/
  stop_eq : ∀ {stop i}, i ∈ r.best.row stop → (r.label i).stop = stop
  /-- They are listed in the order in which they came. -/
  ascending : ∀ stop, (r.best.row stop).Pairwise (· < ·)
  /-- A stop is touched exactly if it has best labels. -/
  mem_touched : ∀ {stop}, stop ∈ r.touched ↔ r.best.row stop ≠ []
  /-- No stop is touched twice. -/
  touched_nodup : r.touched.Nodup

/-- Stops with labels are stops of the store. -/
theorem Valid.stop_lt_of_mem_touched {stopCount : Nat} {r : Round} (h : r.Valid stopCount)
    {stop : Nat} (hstop : stop ∈ r.touched) : stop < stopCount := by
  obtain ⟨i, hi⟩ := List.exists_mem_of_ne_nil _ (h.mem_touched.mp hstop)
  exact h.rows_size ▸ Buckets.lt_size_of_mem_row hi

theorem Valid.empty (stopCount : Nat) : (Round.empty stopCount).Valid stopCount where
  rows_size := by simp [Round.empty]
  index_lt := by
    intro stop i hi
    simp [Round.empty] at hi
  stop_eq := by
    intro stop i hi
    simp [Round.empty] at hi
  ascending := by
    intro stop
    simp [Round.empty]
  mem_touched := by
    intro stop
    simp [Round.empty]
  touched_nodup := List.nodup_nil

@[simp] theorem empty_row (stopCount stop : Nat) : (Round.empty stopCount).best.row stop = [] := by
  simp [Round.empty]

@[simp] theorem empty_labels (stopCount : Nat) : (Round.empty stopCount).labels = #[] := rfl

/-! ## §3. One more label. -/

@[simp] theorem insert_labels (r : Round) (l : Label) :
    (r.insert l).labels = r.labels.push l := rfl

theorem label_insert_of_lt {r : Round} {l : Label} {i : Nat} (h : i < r.labels.size) :
    (r.insert l).label i = r.label i := by
  simp [label, Array.getElem_push, h, Nat.lt_succ_of_lt h]

@[simp] theorem label_insert_self (r : Round) (l : Label) :
    (r.insert l).label r.labels.size = l := by
  simp [label]

theorem row_insert {stopCount : Nat} {r : Round} (hr : r.Valid stopCount) {l : Label}
    (hl : l.stop < stopCount) (stop : Nat) :
    (r.insert l).best.row stop =
      if l.stop = stop then
        (r.best.row stop).filter (fun i => ¬ l.criteria.Dominates (r.label i).criteria) ++
          [r.labels.size]
      else r.best.row stop := by
  by_cases hstop : stop < stopCount
  · exact Buckets.row_update _ _ _ _ (hr.rows_size ▸ hstop)
  · -- Outside the table there is nothing, before and after.
    have hne : l.stop ≠ stop := by omega
    rw [if_neg hne, Buckets.row_of_size_le (b := r.best) (by rw [hr.rows_size]; omega)]
    apply Buckets.row_of_size_le
    show (r.best.update _ _).rows.size ≤ stop
    rw [Buckets.size_update, hr.rows_size]
    omega

/-- The best places afterwards are the newcomer's, and those that were best
and are not dominated by it. -/
theorem mem_best_insert {stopCount : Nat} {r : Round} (hr : r.Valid stopCount) {l : Label}
    (hl : l.stop < stopCount) {stop i : Nat} :
    i ∈ (r.insert l).best.row stop ↔
      l.stop = stop ∧ i = r.labels.size ∨
        i ∈ r.best.row stop ∧
          ¬ (l.stop = stop ∧ l.criteria.Dominates (r.label i).criteria) := by
  rw [row_insert hr hl]
  by_cases hstop : l.stop = stop
  · simp [hstop, or_comm]
  · simp [hstop]

/-- The best labels of the newcomer's stop are those that it does not dominate,
and the newcomer; the other stops keep theirs. -/
theorem bestLabels_insert {stopCount : Nat} {r : Round} (hr : r.Valid stopCount) {l : Label}
    (hl : l.stop < stopCount) (stop : Nat) :
    (r.insert l).bestLabels stop =
      if l.stop = stop then
        (r.bestLabels stop).filter (fun e => ¬ l.criteria.Dominates e.criteria) ++ [l]
      else r.bestLabels stop := by
  -- Whatever was listed is still in its place.
  have hsame : ∀ places : List Nat, (∀ i ∈ places, i ∈ r.best.row stop) →
      places.map (r.insert l).label = places.map r.label := by
    intro places hplaces
    refine List.map_congr_left fun i hi => ?_
    exact label_insert_of_lt (hr.index_lt (hplaces i hi))
  unfold bestLabels
  rw [row_insert hr hl]
  split
  · rw [List.map_append, hsame _ fun i hi => List.mem_of_mem_filter hi, List.filter_map]
    simp [Function.comp_def]
  · exact hsame _ fun i hi => hi

/-- The newcomer's stop is touched, and so are those that were. -/
theorem mem_touched_insert {r : Round} {l : Label} {stop : Nat} :
    stop ∈ (r.insert l).touched ↔ stop ∈ r.touched ∨ stop = l.stop := by
  show stop ∈ (if l.stop ∈ r.touched then r.touched else r.touched ++ [l.stop]) ↔ _
  split
  · next hmem =>
      constructor
      · exact Or.inl
      · intro hgiven
        rcases hgiven with h | rfl
        · exact h
        · exact hmem
  · simp

theorem nodup_touched_insert {r : Round} (h : r.touched.Nodup) (l : Label) :
    (r.insert l).touched.Nodup := by
  show (if l.stop ∈ r.touched then r.touched else r.touched ++ [l.stop]).Nodup
  split
  · exact h
  · next hmem =>
      refine List.nodup_append.mpr ⟨h, List.nodup_singleton _, ?_⟩
      intro a ha b hb
      obtain rfl := List.mem_singleton.mp hb
      exact fun heq => hmem (heq ▸ ha)

theorem Valid.insert {stopCount : Nat} {r : Round} (hr : r.Valid stopCount) {l : Label}
    (hl : l.stop < stopCount) : (r.insert l).Valid stopCount where
  rows_size := by
    show (r.best.update _ _).rows.size = stopCount
    rw [Buckets.size_update, hr.rows_size]
  index_lt := by
    intro stop i hi
    rw [insert_labels, Array.size_push]
    rcases (mem_best_insert hr hl).mp hi with ⟨-, rfl⟩ | ⟨hi, -⟩
    · omega
    · have := hr.index_lt hi
      omega
  stop_eq := by
    intro stop i hi
    rcases (mem_best_insert hr hl).mp hi with ⟨hstop, rfl⟩ | ⟨hi, -⟩
    · rw [label_insert_self]
      exact hstop
    · rw [label_insert_of_lt (hr.index_lt hi)]
      exact hr.stop_eq hi
  ascending := by
    intro stop
    rw [row_insert hr hl]
    split
    · rw [List.pairwise_append]
      refine ⟨(hr.ascending stop).filter _, List.pairwise_singleton _ _, ?_⟩
      intro i hi j hj
      obtain rfl := List.mem_singleton.mp hj
      exact hr.index_lt (List.mem_of_mem_filter hi)
    · exact hr.ascending stop
  mem_touched := by
    intro stop
    rw [mem_touched_insert, hr.mem_touched, row_insert hr hl]
    split
    · next hstop => simp [hstop]
    · next hstop => simp [Ne.symm hstop]
  touched_nodup := nodup_touched_insert hr.touched_nodup l

/-! ## §4. Pruning. -/

/-- Places whose labels are unbeaten stay where they are. -/
theorem prune_eq_self {stopCount : Nat} {r : Round} (hr : r.Valid stopCount)
    {earlier : List Round}
    (h : ∀ stop, ∀ i ∈ r.best.row stop, r.isUnbeaten earlier stop i = true) :
    r.prune earlier = r := by
  have hfold : ∀ stops : List Nat,
      stops.foldl (fun best stop => best.update stop (·.filter (r.isUnbeaten earlier stop)))
        r.best = r.best := by
    intro stops
    induction stops with
    | nil => rfl
    | cons stop stops ih =>
        rw [List.foldl_cons, Buckets.update_eq_self (List.filter_eq_self.mpr (h stop)), ih]
  have htouched : r.touched.filter (fun stop => !(r.best.row stop).isEmpty) = r.touched := by
    rw [List.filter_eq_self]
    intro stop hstop
    have hrow := hr.mem_touched.mp hstop
    simpa using hrow
  unfold prune
  simp only [hfold, htouched]

end Round

end TransitRouting
