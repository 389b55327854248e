/-
  TransitRouting.Proofs.LabelStore.Offers
  ───────────────────────────────────────
  What a store holds after labels were offered to it.

  A label that is taken in gets a new place in its round.  No other place
  changes, no other round changes, and among the best labels only those of the
  same round and stop can be driven out.

  Main statements:

    • `LabelStore.add?_eq_some` — the round that a label is taken into, and
      all the others;
    • `LabelStore.label?_add?` — places are never written over;
    • `LabelStore.mem_bestLabels_add?` — which labels are best afterwards;
    • `LabelStore.offerAll_induction` — what every offer keeps, a sequence of
      offers keeps.
-/
import TransitRouting.Proofs.LabelStore.Rounds

namespace TransitRouting

namespace LabelStore

/-! ## §1. Rounds of a store. -/

theorem round_of_length_le {s : LabelStore} {k : Nat} (h : s.rounds.length ≤ k) :
    s.round k = Round.empty s.stopCount := by
  unfold round
  rw [List.getD_eq_getElem?_getD, List.getElem?_eq_none h]
  rfl

theorem round_of_lt_length {s : LabelStore} {k : Nat} (h : k < s.rounds.length) :
    s.round k = s.rounds[k] := by
  simp [round, h]

@[simp] theorem round_empty (stopCount : Nat) (policy : TieBreak) (k : Nat) :
    (empty stopCount policy).round k = Round.empty stopCount := by
  simp [round, empty]

theorem reach_length (s : LabelStore) (r : Nat) :
    (s.reach r).rounds.length = max s.rounds.length (r + 1) := by
  simp only [reach, List.length_append, List.length_replicate]
  omega

/-- Rounds that are reached without being written to have no labels. -/
@[simp] theorem round_reach (s : LabelStore) (r k : Nat) : (s.reach r).round k = s.round k := by
  by_cases hk : k < s.rounds.length
  · unfold round reach
    simp only [List.getD_eq_getElem?_getD]
    rw [List.getElem?_append_left hk]
  · rw [round_of_length_le (s := s) (by omega)]
    unfold round reach
    simp only [List.getD_eq_getElem?_getD]
    rw [List.getElem?_append_right (by omega), List.getElem?_replicate]
    split <;> rfl

theorem label?_eq (s : LabelStore) (place : LabelPlace) :
    s.label? place = (s.round place.round).labels[place.index]? := by
  unfold label?
  by_cases h : place.round < s.rounds.length
  · rw [round_of_lt_length h, List.getElem?_eq_getElem h]
    rfl
  · rw [round_of_length_le (by omega), List.getElem?_eq_none (by omega)]
    rfl

/-- Number of labels in the rounds before a given one. -/
def countBefore (s : LabelStore) : Nat → Nat
  | 0 => 0
  | round + 1 => s.countBefore round + (s.round round).labels.size

theorem countBefore_eq (s : LabelStore) (round : Nat) :
    s.countBefore round = (s.rounds.take round).foldl (fun n r => n + r.labels.size) 0 := by
  induction round with
  | zero => rfl
  | succ round ih =>
      unfold countBefore
      rw [ih, List.take_add_one, List.foldl_append]
      by_cases hlt : round < s.rounds.length
      · simp [LabelStore.round, hlt]
      · simp [LabelStore.round, hlt, Round.empty]

theorem le_foldl_size (rounds : List Round) (n : Nat) :
    n ≤ rounds.foldl (fun n r => n + r.labels.size) n := by
  induction rounds generalizing n with
  | nil => exact Nat.le_refl n
  | cons r rounds ih => exact Nat.le_trans (Nat.le_add_right n r.labels.size) (ih _)

/-- Labels of some rounds are no more than all. -/
theorem countBefore_le_size (s : LabelStore) (round : Nat) :
    s.countBefore round ≤ s.size := by
  unfold size
  rw [countBefore_eq, ← List.take_append_drop round s.rounds, List.foldl_append,
    List.take_append_drop]
  exact le_foldl_size _ _

theorem index_lt_of_label? {s : LabelStore} {place : LabelPlace} {l : Label}
    (h : s.label? place = some l) : place.index < (s.round place.round).labels.size := by
  rw [label?_eq] at h
  exact (Array.getElem?_eq_some_iff.mp h).1

/-- The best labels of a stop in a round, without their places. -/
theorem map_snd_bestLabels (s : LabelStore) (k stop : Nat) :
    (s.bestLabels k stop).map Prod.snd = (s.round k).bestLabels stop := by
  unfold bestLabels Round.bestLabels
  rw [List.map_map]
  rfl

theorem mem_bestLabels {s : LabelStore} {k stop : Nat} {place : LabelPlace} {e : Label} :
    (place, e) ∈ s.bestLabels k stop ↔
      place.round = k ∧ place.index ∈ (s.round k).best.row stop ∧
        e = (s.round k).label place.index := by
  cases place with
  | mk round index =>
      simp only [bestLabels, List.mem_map, Prod.mk.injEq, LabelPlace.mk.injEq]
      constructor
      · intro hgiven
        obtain ⟨i, hi, ⟨rfl, rfl⟩, rfl⟩ := hgiven
        exact ⟨rfl, hi, rfl⟩
      · intro hgiven
        obtain ⟨rfl, hi, rfl⟩ := hgiven
        exact ⟨index, hi, ⟨rfl, rfl⟩, rfl⟩

/-- The best labels of a stop in the rounds before a given one. -/
theorem exists_take_rounds_iff {s : LabelStore} {n stop : Nat} {P : Label → Prop} :
    (∃ e ∈ s.rounds.take n, ∃ held ∈ e.bestLabels stop, P held) ↔
      ∃ k < n, ∃ held ∈ s.bestLabels k stop, P held.2 := by
  have hlabels (k : Nat) : (∃ held ∈ s.bestLabels k stop, P held.2) ↔
      ∃ held ∈ (s.round k).bestLabels stop, P held := by
    rw [← map_snd_bestLabels]
    simp only [List.mem_map, exists_exists_and_eq_and]
  simp only [hlabels]
  constructor
  · intro hgiven
    obtain ⟨e, he, hheld⟩ := hgiven
    obtain ⟨k, hk, rfl⟩ := List.mem_iff_getElem.mp he
    simp only [List.length_take] at hk
    rw [List.getElem_take, ← round_of_lt_length (by omega)] at hheld
    exact ⟨k, by omega, hheld⟩
  · intro hgiven
    obtain ⟨k, hk, held, hmem, hheld⟩ := hgiven
    have hlt : k < s.rounds.length := by
      refine Nat.lt_of_not_le fun hle => ?_
      rw [round_of_length_le hle] at hmem
      simp [Round.bestLabels] at hmem
    refine ⟨s.round k, ?_, held, hmem, hheld⟩
    rw [round_of_lt_length hlt, List.mem_iff_getElem]
    exact ⟨k, by rw [List.length_take]; omega, List.getElem_take⟩

/-- Exactly the best labels of the stop in the rounds up to its own keep a
label out. -/
theorem rejects_iff {s : LabelStore} {r : Nat} {l : Label} :
    s.rejects r l = true ↔
      ∃ k ≤ r, ∃ held ∈ s.bestLabels k l.stop, held.2.criteria.Rejects s.policy l.criteria := by
  simp only [rejects, List.any_eq_true, Round.rejects, decide_eq_true_eq]
  rw [exists_take_rounds_iff (P := fun held => held.criteria.Rejects s.policy l.criteria)]
  simp only [Nat.lt_succ_iff]

/-! ## §2. One label. -/

/-- The round that a label is taken into, and all the others. -/
theorem add?_eq_some {s s' : LabelStore} {r : Nat} {l : Label} {place : LabelPlace}
    (h : s.add? r l = some (s', place)) :
    s.rejects r l = false ∧ place = ⟨r, (s.round r).labels.size⟩ ∧
      s'.stopCount = s.stopCount ∧ s'.policy = s.policy ∧
      s'.rounds.length = max s.rounds.length (r + 1) ∧
      ∀ k, s'.round k = if k = r then (s.round r).insert l else s.round k := by
  unfold add? at h
  split at h
  · cases h
  · next hrejects =>
      simp only [Option.some.injEq, Prod.mk.injEq] at h
      obtain ⟨rfl, rfl⟩ := h
      refine ⟨by simpa using hrejects, by rw [round_reach], rfl, rfl, ?_, ?_⟩
      · rw [List.length_modify, reach_length]
      · intro k
        show (((s.reach r).rounds.modify r (·.insert l)).getD k (Round.empty s.stopCount)) = _
        have hround : (s.reach r).rounds.getD k (Round.empty s.stopCount) = s.round k :=
          round_reach s r k
        have hlength := reach_length s r
        rw [List.getD_eq_getElem?_getD] at hround
        rw [List.getD_eq_getElem?_getD, List.getElem?_modify]
        by_cases hk : k = r
        · -- The round is there once it has been reached.
          subst hk
          rw [if_pos rfl, ← hround, List.getElem?_eq_getElem (by omega)]
          simp
        · simp [hk, Ne.symm hk, ← hround]

theorem add?_eq_none {s : LabelStore} {r : Nat} {l : Label} :
    s.add? r l = none ↔ s.rejects r l = true := by
  unfold add?
  split <;> simp_all

/-- A newcomer is found in its place, and every other label stays in its
own. -/
theorem label?_add? {s s' : LabelStore} {r : Nat} {l : Label} {place : LabelPlace}
    (h : s.add? r l = some (s', place)) (at' : LabelPlace) :
    s'.label? at' = if at' = place then some l else s.label? at' := by
  obtain ⟨-, rfl, -, -, -, hround⟩ := add?_eq_some h
  rw [label?_eq, label?_eq, hround]
  cases at' with
  | mk k i =>
      by_cases hk : k = r
      · subst hk
        simp only [↓reduceIte, Round.insert_labels, Array.getElem?_push, LabelPlace.mk.injEq,
          true_and]
      · simp [hk]

theorem label?_add?_of_some {s s' : LabelStore} {r : Nat} {l e : Label}
    {place at' : LabelPlace} (h : s.add? r l = some (s', place)) (he : s.label? at' = some e) :
    s'.label? at' = some e := by
  rw [label?_add? h, if_neg, he]
  intro heq
  subst heq
  obtain ⟨-, rfl, -⟩ := add?_eq_some h
  -- The newcomer's place was free.
  rw [label?_eq] at he
  simp at he

/-! ## §3. Valid stores. -/

/-- The rounds of a store say what they should. -/
def Valid (s : LabelStore) : Prop := ∀ k, (s.round k).Valid s.stopCount

theorem Valid.empty (stopCount : Nat) (policy : TieBreak) :
    (LabelStore.empty stopCount policy).Valid := by
  intro k
  rw [round_empty]
  exact Round.Valid.empty stopCount

theorem Valid.add? {s s' : LabelStore} (hs : s.Valid) {r : Nat} {l : Label} {place : LabelPlace}
    (hl : l.stop < s.stopCount) (h : s.add? r l = some (s', place)) : s'.Valid := by
  obtain ⟨-, -, hcount, -, -, hround⟩ := add?_eq_some h
  intro k
  rw [hround, hcount]
  split
  · exact (hs r).insert hl
  · exact hs k

/-- Best labels are kept where they are listed. -/
theorem Valid.label?_of_mem_bestLabels {s : LabelStore} (hs : s.Valid) {k stop : Nat}
    {place : LabelPlace} {e : Label} (h : (place, e) ∈ s.bestLabels k stop) :
    s.label? place = some e := by
  obtain ⟨hround, hi, rfl⟩ := mem_bestLabels.mp h
  have hlt := (hs k).index_lt hi
  rw [label?_eq, hround, Array.getElem?_eq_getElem hlt]
  simp [Round.label, hlt]

theorem Valid.stop_of_mem_bestLabels {s : LabelStore} (hs : s.Valid) {k stop : Nat}
    {place : LabelPlace} {e : Label} (h : (place, e) ∈ s.bestLabels k stop) : e.stop = stop := by
  obtain ⟨-, hi, rfl⟩ := mem_bestLabels.mp h
  exact (hs k).stop_eq hi

theorem Valid.mem_reachedStops {s : LabelStore} (hs : s.Valid) {k stop : Nat} :
    stop ∈ s.reachedStops k ↔ s.bestLabels k stop ≠ [] := by
  unfold reachedStops bestLabels
  rw [(hs k).mem_touched]
  simp

/-- The best labels afterwards are the newcomer, and those that were best and
are not driven out by it. -/
theorem mem_bestLabels_add? {s s' : LabelStore} (hs : s.Valid) {r : Nat} {l : Label}
    {place : LabelPlace} (hl : l.stop < s.stopCount) (h : s.add? r l = some (s', place))
    {k stop : Nat} {at' : LabelPlace} {e : Label} :
    (at', e) ∈ s'.bestLabels k stop ↔
      (k = r ∧ l.stop = stop) ∧ at' = place ∧ e = l ∨
        (at', e) ∈ s.bestLabels k stop ∧
          ¬ ((k = r ∧ l.stop = stop) ∧ l.criteria.Dominates e.criteria) := by
  obtain ⟨-, rfl, -, -, -, hround⟩ := add?_eq_some h
  rw [mem_bestLabels, mem_bestLabels, hround]
  by_cases hk : k = r
  · subst hk
    simp only [↓reduceIte, Round.mem_best_insert (hs k) hl, true_and]
    constructor
    · intro hgiven
      rcases hgiven with ⟨hat, ⟨hstop, hi⟩ | ⟨hi, hkept⟩, rfl⟩
      · refine Or.inl ⟨hstop, ?_, ?_⟩
        · cases at'
          simp_all
        · rw [hi, Round.label_insert_self]
      · rw [Round.label_insert_of_lt ((hs k).index_lt hi)]
        exact Or.inr ⟨⟨hat, hi, rfl⟩, hkept⟩
    · intro hgiven
      rcases hgiven with ⟨hstop, rfl, rfl⟩ | ⟨⟨hat, hi, rfl⟩, hkept⟩
      · exact ⟨rfl, Or.inl ⟨hstop, rfl⟩, (Round.label_insert_self _ _).symm⟩
      · exact ⟨hat, Or.inr ⟨hi, hkept⟩, (Round.label_insert_of_lt ((hs k).index_lt hi)).symm⟩
  · simp [hk]

theorem bestLabels_add?_of_ne {s s' : LabelStore} {r : Nat} {l : Label} {place : LabelPlace}
    (h : s.add? r l = some (s', place)) {k : Nat} (hk : k ≠ r) (stop : Nat) :
    s'.bestLabels k stop = s.bestLabels k stop := by
  obtain ⟨-, -, -, -, -, hround⟩ := add?_eq_some h
  unfold bestLabels
  rw [hround, if_neg hk]

/-! ## §4. Many labels. -/

/-- A label that is offered is taken in, or rejected without a trace. -/
theorem offer_cases (s : LabelStore) (r : Nat) (l : Label) :
    (∃ place, s.add? r l = some (s.offer r l, place)) ∨
      s.rejects r l = true ∧ s.offer r l = s := by
  cases hadd : s.add? r l with
  | none => exact Or.inr ⟨add?_eq_none.mp hadd, by simp [offer, hadd]⟩
  | some result => exact Or.inl ⟨result.2, by simp [offer, hadd]⟩

/-- Counting on, the labels are offered one by one, and if none is counted
then nothing has changed. -/
private theorem foldl_count (r : Nat) :
    ∀ (labels : List Label) (s : LabelStore) (added : Nat),
      let result := labels.foldl
        (fun (s, added) l =>
          match s.add? r l with
          | some (s', _) => (s', added + 1)
          | none => (s, added)) (s, added)
      result.1 = labels.foldl (fun s l => s.offer r l) s ∧ added ≤ result.2 ∧
        (result.2 = added → result.1 = s) := by
  intro labels
  induction labels with
  | nil => intro s added; exact ⟨rfl, Nat.le_refl _, fun _ => rfl⟩
  | cons l labels ih =>
      intro s added
      cases hadd : s.add? r l with
      | none =>
          have hoffer : s.offer r l = s := by simp [offer, hadd]
          simp only [List.foldl_cons, hadd, hoffer]
          exact ih s added
      | some result =>
          have hoffer : s.offer r l = result.1 := by simp [offer, hadd]
          simp only [List.foldl_cons, hadd, hoffer]
          obtain ⟨hstore, hcount, -⟩ := ih result.1 (added + 1)
          refine ⟨hstore, Nat.le_of_succ_le hcount, ?_⟩
          -- The count never goes back.
          intro hnone
          exact absurd hnone (Nat.ne_of_gt hcount)

theorem offerAll_store (s : LabelStore) (r : Nat) (labels : List Label) :
    (s.offerAll r labels).1 = labels.foldl (fun s l => s.offer r l) s :=
  (foldl_count r labels s 0).1

/-- If nothing was taken in, the store is what it was. -/
theorem offerAll_of_count_eq_zero {s : LabelStore} {r : Nat} {labels : List Label}
    (h : (s.offerAll r labels).2 = 0) : (s.offerAll r labels).1 = s :=
  (foldl_count r labels s 0).2.2 h

/-- What every label that is taken in keeps holds after all have been
offered. -/
theorem offerAll_induction {motive : LabelStore → Prop} {r : Nat} {labels : List Label}
    {s : LabelStore}
    (hstep : ∀ {s l s' place}, l ∈ labels → motive s → s.add? r l = some (s', place) → motive s')
    (hs : motive s) : motive (s.offerAll r labels).1 := by
  rw [offerAll_store]
  induction labels generalizing s with
  | nil => exact hs
  | cons l labels ih =>
      rw [List.foldl_cons]
      refine ih (fun hmem => hstep (List.mem_cons_of_mem _ hmem)) ?_
      rcases s.offer_cases r l with ⟨place, hadd⟩ | ⟨-, hsame⟩
      · exact hstep List.mem_cons_self hs hadd
      · rw [hsame]
        exact hs

/-- What offering one of the labels brings about, and every label that is taken
in keeps, holds after all have been offered. -/
theorem offerAll_of_mem {I P : LabelStore → Prop} {r : Nat} {labels : List Label}
    {s : LabelStore} {l : Label} (hl : l ∈ labels)
    (hinv : ∀ {s e s' place}, e ∈ labels → I s → s.add? r e = some (s', place) → I s')
    (hkeep : ∀ {s e s' place}, e ∈ labels → I s → P s → s.add? r e = some (s', place) →
      P s')
    (hoffer : ∀ {s}, I s → P (s.offer r l)) (hs : I s) :
    P (s.offerAll r labels).1 := by
  -- The list is taken apart where the label stands.
  obtain ⟨before, after, rfl⟩ := List.append_of_mem hl
  have hbefore : I (s.offerAll r before).1 :=
    offerAll_induction (fun hmem => hinv (List.mem_append_left _ hmem)) hs
  have hmid : I ((s.offerAll r before).1.offer r l) := by
    rcases (s.offerAll r before).1.offer_cases r l with ⟨place, hadd⟩ | ⟨-, hsame⟩
    · exact hinv hl hbefore hadd
    · rw [hsame]
      exact hbefore
  have hafter : I (((s.offerAll r before).1.offer r l).offerAll r after).1 ∧
      P (((s.offerAll r before).1.offer r l).offerAll r after).1 := by
    refine offerAll_induction (motive := fun s => I s ∧ P s) ?_ ⟨hmid, hoffer hbefore⟩
    intro s e s' place hmem h hadd
    have he : e ∈ before ++ l :: after :=
      List.mem_append_right _ (List.mem_cons_of_mem _ hmem)
    exact ⟨hinv he h.1 hadd, hkeep he h.1 h.2 hadd⟩
  rw [offerAll_store, offerAll_store] at hafter
  rw [offerAll_store, List.foldl_append, List.foldl_cons]
  exact hafter.2

end LabelStore

end TransitRouting
