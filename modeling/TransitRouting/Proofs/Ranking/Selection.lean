/-
  TransitRouting.Proofs.Ranking.Selection
  ───────────────────────────────────────
  What the ranking shows, and in which order.

  Journeys with the same merit are brought together by a sort, the first of each
  lot is kept, and what is left is sorted by preference.  Both sorts are stable.
  So the first of a lot is the one that was found first, and journeys that are
  equally good come out in the order of the first sort, by their groups.  That
  leaves no ties: what is shown is fixed by which journeys are shown.

  Main statements:

    • `Ranking.mem_select_iff` — the first journey of each merit is shown;
    • `Ranking.pairwise_select` — all journeys shown are in one strict order;
    • `Ranking.select_filter` — journeys from outside a class to which nobody in it
      loses do not change what is shown of the class;
    • `Ranking.isFront_select` — under `TieBreak.keepAll` the front of the
      journeys is shown, whatever the order in which they were found.
-/
import Mathlib.Data.List.Nodup
import TransitRouting.Proofs.Ranking.Survivors

namespace TransitRouting

/-! ## §1. Orders of merits. -/

namespace Merit

/-- The order of a response: by arrival, transfers, cost, later departure, and
groups. -/
def Precedes (a b : Merit) : Prop :=
  a.arrival < b.arrival ∨ a.arrival = b.arrival ∧
    (a.transfers < b.transfers ∨ a.transfers = b.transfers ∧
      (a.cost < b.cost ∨ a.cost = b.cost ∧
        (b.departure < a.departure ∨ a.departure = b.departure ∧
          a.groups.bits < b.groups.bits)))

instance (a b : Merit) : Decidable (a.Precedes b) :=
  inferInstanceAs (Decidable (_ ∨ _ ∧ (_ ∨ _ ∧ (_ ∨ _ ∧ (_ ∨ _ ∧ _)))))

theorem lexLE_cons {a b : Int} {rest : List (Int × Int)} :
    lexLE ((a, b) :: rest) = true ↔ a < b ∨ a = b ∧ lexLE rest = true := by
  show (decide (a < b) || decide (a = b) && lexLE rest) = true ↔ _
  rw [Bool.or_eq_true, Bool.and_eq_true, decide_eq_true_iff, decide_eq_true_iff]

theorem lexLE_nil : lexLE [] = true := rfl

theorem groupingLE_iff {a b : Merit} : a.groupingLE b = true ↔
    a.arrival.seconds < b.arrival.seconds ∨ a.arrival.seconds = b.arrival.seconds ∧
      (a.departure.seconds < b.departure.seconds ∨ a.departure.seconds = b.departure.seconds ∧
        (a.transfers < b.transfers ∨ a.transfers = b.transfers ∧
          (a.cost.hundredths.toInt < b.cost.hundredths.toInt ∨ a.cost.hundredths.toInt = b.cost.hundredths.toInt ∧
            a.groups.bits.toNat ≤ b.groups.bits.toNat))) := by
  unfold groupingLE
  simp only [lexLE_cons, lexLE_nil, and_true]
  omega

theorem preferenceLE_iff {a b : Merit} : a.preferenceLE b = true ↔
    a.arrival.seconds < b.arrival.seconds ∨ a.arrival.seconds = b.arrival.seconds ∧
      (a.transfers < b.transfers ∨ a.transfers = b.transfers ∧
        (a.cost.hundredths.toInt < b.cost.hundredths.toInt ∨ a.cost.hundredths.toInt = b.cost.hundredths.toInt ∧
          b.departure.seconds ≤ a.departure.seconds)) := by
  unfold preferenceLE
  simp only [lexLE_cons, lexLE_nil, and_true]
  omega

theorem precedes_iff {a b : Merit} : a.Precedes b ↔
    a.arrival.seconds < b.arrival.seconds ∨ a.arrival.seconds = b.arrival.seconds ∧
      (a.transfers < b.transfers ∨ a.transfers = b.transfers ∧
        (a.cost.hundredths.toInt < b.cost.hundredths.toInt ∨ a.cost.hundredths.toInt = b.cost.hundredths.toInt ∧
          (b.departure.seconds < a.departure.seconds ∨
            a.departure.seconds = b.departure.seconds ∧
              a.groups.bits.toNat < b.groups.bits.toNat))) := by
  have hcost : a.cost = b.cost ↔ a.cost.hundredths.toInt = b.cost.hundredths.toInt :=
    ⟨fun h => h ▸ rfl, fun h => Cost.ext (Int64.toInt_inj.mp h)⟩
  unfold Precedes
  rw [Time.lt_def, Time.ext_iff, Cost.lt_iff, hcost, Time.lt_def, Time.ext_iff,
    UInt32.lt_iff_toNat_lt]

theorem groupingLE_trans (a b c : Merit) (h : a.groupingLE b = true)
    (h' : b.groupingLE c = true) : a.groupingLE c = true := by
  rw [groupingLE_iff] at *
  omega

theorem groupingLE_total (a b : Merit) : (a.groupingLE b || b.groupingLE a) = true := by
  rw [Bool.or_eq_true, groupingLE_iff, groupingLE_iff]
  omega

theorem groupingLE_antisymm {a b : Merit} (h : a.groupingLE b = true)
    (h' : b.groupingLE a = true) : a = b := by
  rw [groupingLE_iff] at h h'
  have hdeparture : a.departure = b.departure := Time.ext (by omega)
  have harrival : a.arrival = b.arrival := Time.ext (by omega)
  have htransfers : a.transfers = b.transfers := by omega
  have hcost : a.cost = b.cost := Cost.ext (Int64.toInt_inj.mp (by omega))
  have hbits : a.groups.bits = b.groups.bits := UInt32.toNat_inj.mp (by omega)
  obtain ⟨_, _, _, _, ⟨_⟩⟩ := a
  obtain ⟨_, _, _, _, ⟨_⟩⟩ := b
  simp_all

theorem preferenceLE_trans (a b c : Merit) (h : a.preferenceLE b = true)
    (h' : b.preferenceLE c = true) : a.preferenceLE c = true := by
  rw [preferenceLE_iff] at *
  omega

theorem preferenceLE_total (a b : Merit) : (a.preferenceLE b || b.preferenceLE a) = true := by
  rw [Bool.or_eq_true, preferenceLE_iff, preferenceLE_iff]
  omega

theorem Precedes.asymm {a b : Merit} (h : a.Precedes b) : ¬ b.Precedes a := by
  rw [precedes_iff] at *
  omega

/-- Of two different merits in the order that brings equal ones together, the
first precedes if it is preferred, or both are equally good. -/
theorem precedes_of_preferenceLE {a b : Merit} (h : a.preferenceLE b = true)
    (hties : b.preferenceLE a = true → a.groupingLE b = true ∧ a ≠ b) : a.Precedes b := by
  by_cases hback : b.preferenceLE a = true
  · obtain ⟨hgrouping, hne⟩ := hties hback
    have hlt : ¬ b.groupingLE a = true := fun hle => hne (groupingLE_antisymm hgrouping hle)
    rw [preferenceLE_iff] at h hback
    rw [groupingLE_iff] at hgrouping hlt
    rw [precedes_iff]
    omega
  · rw [preferenceLE_iff] at h hback
    rw [precedes_iff]
    omega

end Merit

/-! ## §2. Stable sorting. -/

namespace Ranking

variable {α : Type} {le : α → α → Bool} {S : α → α → Prop} {l : List α}

/-- Sorting keeps the order of those that tie. -/
theorem pairwise_ties_mergeSort (htrans : ∀ a b c, le a b = true → le b c = true → le a c = true)
    (htotal : ∀ a b, (le a b || le b a) = true) (h : l.Pairwise fun a b => le b a = true → S a b) :
    (l.mergeSort le).Pairwise fun a b => le b a = true → S a b := by
  induction l with
  | nil =>
      rw [List.mergeSort_nil]
      exact h
  | cons a rest ih =>
      obtain ⟨hfirst, hrest⟩ := List.pairwise_cons.mp h
      obtain ⟨before, after, hsort, hsortRest, hbefore⟩ := List.mergeSort_cons htrans htotal a rest
      have hsorted := ih hrest
      rw [hsortRest] at hsorted
      rw [hsort]
      obtain ⟨hpairsBefore, hpairsAfter, hacross⟩ := List.pairwise_append.mp hsorted
      have hmem : ∀ b ∈ after, b ∈ rest := fun b hb =>
        List.mem_mergeSort.mp (hsortRest ▸ List.mem_append_right before hb)
      refine List.pairwise_append.mpr ⟨hpairsBefore, List.pairwise_cons.mpr
        ⟨fun b hb => hfirst b (hmem b hb), hpairsAfter⟩, fun b hb c hc => ?_⟩
      rcases List.mem_cons.mp hc with rfl | hc
      · -- What comes before the first element of the list does not tie with it.
        intro htie
        have hnot := hbefore b hb
        rw [htie] at hnot
        cases hnot
      · exact hacross b hb c hc

/-- Sorting does not move elements that tie past each other. -/
theorem filter_mergeSort (htrans : ∀ a b c, le a b = true → le b c = true → le a c = true)
    (htotal : ∀ a b, (le a b || le b a) = true) {p : α → Bool}
    (hties : ∀ a b, p a = true → p b = true → le a b = true) (l : List α) :
    (l.mergeSort le).filter p = l.filter p := by
  induction l with
  | nil => rw [List.mergeSort_nil]
  | cons a rest ih =>
      obtain ⟨before, after, hsort, hsortRest, hbefore⟩ := List.mergeSort_cons htrans htotal a rest
      rw [hsortRest, List.filter_append] at ih
      rw [hsort, List.filter_append]
      by_cases ha : p a = true
      · have hnone : before.filter p = [] := by
          refine List.filter_eq_nil_iff.mpr fun b hb hpb => ?_
          have hnot := hbefore b hb
          rw [hties a b ha hpb] at hnot
          cases hnot
        rw [List.filter_cons_of_pos ha, List.filter_cons_of_pos ha, ← ih, hnone]
        rfl
      · rw [List.filter_cons_of_neg ha, List.filter_cons_of_neg ha, ← ih]

/-! ## §3. The first of each lot. -/

variable {merit : α → Merit} {policy : TieBreak} {journeys : List α} {x : α}

/-- The journey is the first with its merit. -/
def IsFirst (merit : α → Merit) (journeys : List α) (x : α) : Prop :=
  journeys.find? (fun y => decide (merit y = merit x)) = some x

theorem isFirst_cons_of_eq {y : α} (h : merit y = merit x) :
    IsFirst merit (y :: journeys) x ↔ x = y := by
  unfold IsFirst
  rw [List.find?_cons_of_pos (by simpa using h), Option.some.injEq, eq_comm]

theorem isFirst_cons_of_ne {y : α} (h : merit y ≠ merit x) :
    IsFirst merit (y :: journeys) x ↔ IsFirst merit journeys x := by
  unfold IsFirst
  rw [List.find?_cons_of_neg (by simpa using h)]

theorem IsFirst.mem (h : IsFirst merit journeys x) : x ∈ journeys := List.mem_of_find?_eq_some h

/-- Every journey has a first one with its merit. -/
theorem exists_isFirst (h : x ∈ journeys) :
    ∃ y, IsFirst merit journeys y ∧ merit y = merit x := by
  have hsome : (journeys.find? fun y => decide (merit y = merit x)).isSome := by
    rw [List.find?_isSome]
    exact ⟨x, h, decide_eq_true rfl⟩
  obtain ⟨y, hy⟩ := Option.isSome_iff_exists.mp hsome
  have hmerit : merit y = merit x := by simpa using List.find?_some hy
  refine ⟨y, ?_, hmerit⟩
  unfold IsFirst
  rw [hmerit]
  exact hy

/-- Whether a journey of a class is the first depends on the class alone. -/
theorem isFirst_filter {p : Merit → Bool} :
    IsFirst merit (journeys.filter fun y => p (merit y)) x ↔
      p (merit x) = true ∧ IsFirst merit journeys x := by
  by_cases hx : p (merit x) = true
  · have hsame : IsFirst merit (journeys.filter fun y => p (merit y)) x ↔
        IsFirst merit journeys x := by
      unfold IsFirst
      rw [List.find?_filter]
      suffices hpred : (fun y => decide (p (merit y) = true ∧ decide (merit y = merit x) = true)) =
          fun y => decide (merit y = merit x) by rw [hpred]
      funext y
      rw [decide_eq_decide, decide_eq_true_iff, and_iff_right_iff_imp]
      intro hy
      rw [hy]
      exact hx
    rw [hsame]
    exact (and_iff_right hx).symm
  · refine ⟨fun h => absurd (List.mem_filter.mp h.mem).2 hx, fun h => absurd h.1 hx⟩

/-- Sorting does not change which journey is the first. -/
theorem isFirst_mergeSort :
    IsFirst merit (journeys.mergeSort fun a b => (merit a).groupingLE (merit b)) x ↔
      IsFirst merit journeys x := by
  unfold IsFirst
  rw [← List.head?_filter, ← List.head?_filter, filter_mergeSort]
  · exact fun a b c => Merit.groupingLE_trans _ _ _
  · exact fun a b => Merit.groupingLE_total _ _
  · intro a b ha hb
    rw [of_decide_eq_true ha, of_decide_eq_true hb]
    simpa using (merit x).groupingLE_total (merit x)

/-- Among sorted journeys the first of each lot is kept, but for the lot that
was the last before them. -/
theorem mem_dropRepeats_iff {last : Option Merit}
    (hsorted : journeys.Pairwise fun a b => (merit a).groupingLE (merit b) = true)
    (hlast : ∀ m, last = some m → ∀ y ∈ journeys, m.groupingLE (merit y) = true) :
    x ∈ dropRepeats merit last journeys ↔ last ≠ some (merit x) ∧ IsFirst merit journeys x := by
  induction journeys generalizing last with
  | nil => simp [dropRepeats, IsFirst]
  | cons y rest ih =>
      obtain ⟨hfirst, hrest⟩ := List.pairwise_cons.mp hsorted
      unfold dropRepeats
      by_cases hy : last = some (merit y)
      · -- The journey belongs to the lot that was the last.
        rw [if_pos hy, ih hrest fun m hm z hz => hlast m hm z (List.mem_cons_of_mem _ hz), hy]
        refine and_congr_right fun hne => ?_
        rw [isFirst_cons_of_ne fun heq => hne (congrArg some heq)]
      · -- The journey is the first of a lot, which is the last one for those that follow.
        rw [if_neg hy, List.mem_cons, ih hrest fun m hm z hz => Option.some.inj hm ▸ hfirst z hz]
        by_cases hx : merit y = merit x
        · rw [isFirst_cons_of_eq hx, hx]
          simp only [ne_eq, not_true_eq_false, false_and, or_false]
          exact (and_iff_right (hx ▸ hy)).symm
        · rw [isFirst_cons_of_ne hx]
          constructor
          · rintro (rfl | ⟨-, h⟩)
            · exact absurd rfl hx
            · refine ⟨fun hm => hx ?_, h⟩
              -- The order would put the lot of the journey on both sides.
              exact Merit.groupingLE_antisymm (hfirst x h.mem)
                (hlast _ hm y List.mem_cons_self)
          · rintro ⟨-, h⟩
            exact Or.inr ⟨fun heq => hx (Option.some.inj heq), h⟩

theorem pairwise_dropRepeats {last : Option Merit}
    (hsorted : journeys.Pairwise fun a b => (merit a).groupingLE (merit b) = true) :
    (dropRepeats merit last journeys).Pairwise fun a b =>
      (merit a).groupingLE (merit b) = true ∧ merit a ≠ merit b := by
  induction journeys generalizing last with
  | nil => exact List.Pairwise.nil
  | cons y rest ih =>
      obtain ⟨hfirst, hrest⟩ := List.pairwise_cons.mp hsorted
      unfold dropRepeats
      split
      · exact ih hrest
      · refine List.pairwise_cons.mpr ⟨fun z hz => ?_, ih hrest⟩
        rw [mem_dropRepeats_iff hrest fun m hm z hz => Option.some.inj hm ▸ hfirst z hz] at hz
        exact ⟨hfirst z hz.2.mem, fun heq => hz.1 (congrArg some heq)⟩

theorem pairwise_grouping_mergeSort (journeys : List α) :
    (journeys.mergeSort fun a b => (merit a).groupingLE (merit b)).Pairwise fun a b =>
      (merit a).groupingLE (merit b) = true := by
  refine List.pairwise_mergeSort ?_ ?_ journeys
  · exact fun a b c => Merit.groupingLE_trans _ _ _
  · exact fun a b => Merit.groupingLE_total _ _

/-- The first journey of each merit is kept. -/
theorem mem_distinct_iff : x ∈ distinct merit journeys ↔ IsFirst merit journeys x := by
  unfold distinct
  split
  · next hlength =>
      match journeys, hlength with
      | [], _ => simp [IsFirst]
      | [y], _ =>
          refine ⟨fun h => ?_, IsFirst.mem⟩
          rw [List.mem_singleton.mp h, isFirst_cons_of_eq rfl]
  · rw [mem_dropRepeats_iff (pairwise_grouping_mergeSort journeys) (by simp), isFirst_mergeSort]
    simp

theorem pairwise_distinct (journeys : List α) :
    (distinct merit journeys).Pairwise fun a b =>
      (merit a).groupingLE (merit b) = true ∧ merit a ≠ merit b := by
  unfold distinct
  split
  · next hlength =>
      match journeys, hlength with
      | [], _ => exact List.Pairwise.nil
      | [y], _ => exact List.pairwise_singleton _ y
  · exact pairwise_dropRepeats (pairwise_grouping_mergeSort journeys)

/-! ## §4. What is shown. -/

/-- Of the journeys that are kept, the first of each merit is shown. -/
theorem mem_select_iff :
    x ∈ select merit policy journeys ↔ IsFirst merit (undominated merit policy journeys) x := by
  unfold select rank
  rw [List.mem_mergeSort, mem_distinct_iff]

/-- What is shown was found. -/
theorem mem_of_mem_select (h : x ∈ select merit policy journeys) : x ∈ journeys :=
  mem_of_mem_undominated (mem_select_iff.mp h).mem

/-- If anything was found, something is shown. -/
theorem exists_mem_select (h : journeys ≠ []) : ∃ x, x ∈ select merit policy journeys := by
  have hkept : ∃ y, y ∈ undominated merit policy journeys := by
    rw [undominated_eq_ofList]
    exact Frontier.exists_mem_ofList h
  obtain ⟨y, hy⟩ := hkept
  obtain ⟨x, hx, -⟩ : ∃ x, IsFirst merit (undominated merit policy journeys) x ∧ merit x = merit y :=
    exists_isFirst hy
  exact ⟨x, mem_select_iff.mpr hx⟩

/-- The journeys that are shown are in one strict order. -/
theorem pairwise_select (policy : TieBreak) (journeys : List α) :
    (select merit policy journeys).Pairwise fun a b => (merit a).Precedes (merit b) := by
  have htrans : ∀ a b c : α, (merit a).preferenceLE (merit b) = true →
      (merit b).preferenceLE (merit c) = true → (merit a).preferenceLE (merit c) = true :=
    fun a b c => Merit.preferenceLE_trans _ _ _
  have htotal : ∀ a b : α,
      ((merit a).preferenceLE (merit b) || (merit b).preferenceLE (merit a)) = true :=
    fun a b => Merit.preferenceLE_total _ _
  unfold select rank
  have hsorted := List.pairwise_mergeSort htrans htotal
    (distinct merit (undominated merit policy journeys))
  have hties : ((distinct merit (undominated merit policy journeys)).mergeSort fun a b =>
      (merit a).preferenceLE (merit b)).Pairwise fun a b =>
        (merit b).preferenceLE (merit a) = true →
          (merit a).groupingLE (merit b) = true ∧ merit a ≠ merit b := by
    refine pairwise_ties_mergeSort htrans htotal ((pairwise_distinct _).imp ?_)
    exact fun h _ => h
  exact (hsorted.and hties).imp fun h => Merit.precedes_of_preferenceLE h.1 h.2

/-- Lists in the order of a response are equal if they have the same members. -/
theorem eq_of_pairwise_precedes {xs ys : List α}
    (hxs : xs.Pairwise fun a b => (merit a).Precedes (merit b))
    (hys : ys.Pairwise fun a b => (merit a).Precedes (merit b))
    (hmem : ∀ x, x ∈ xs ↔ x ∈ ys) : xs = ys := by
  -- A strict order lists nobody twice, so it is enough to count members once.
  have hnodup : ∀ {l : List α}, (l.Pairwise fun a b => (merit a).Precedes (merit b)) → l.Nodup :=
    fun hl => hl.imp fun h heq => (heq ▸ h).asymm (heq ▸ h)
  have hperm := (List.perm_ext_iff_of_nodup (hnodup hxs) (hnodup hys)).mpr hmem
  exact hperm.eq_of_pairwise (fun a b _ _ h h' => absurd h' h.asymm) hxs hys

/-- If whatever makes a journey of a class superfluous is in the class, the
journeys outside do not change what is shown of the class. -/
theorem select_filter {p : Merit → Bool}
    (hp : ∀ {a b : Merit}, a.Dominates b ∨ a.SameValues b → p b = true → p a = true)
    (policy : TieBreak) (journeys : List α) :
    select merit policy (journeys.filter fun x => p (merit x)) =
      (select merit policy journeys).filter fun x => p (merit x) := by
  have hkept : undominated merit policy (journeys.filter fun x => p (merit x)) =
      (undominated merit policy journeys).filter fun x => p (merit x) := by
    rw [undominated_eq_ofList, undominated_eq_ofList, Frontier.ofList_filter]
    · exact fun h => hp (Or.inl (rivalry_dominates.mp h))
    · intro a b h
      rcases rivalry_rejects.mp h with h | h
      · exact hp (Or.inl h)
      · exact hp (Or.inr h.1)
  refine eq_of_pairwise_precedes (pairwise_select _ _) ((pairwise_select _ _).filter _) fun x => ?_
  rw [List.mem_filter, mem_select_iff, mem_select_iff, hkept, isFirst_filter, and_comm]

/-! ## §5. The front of the journeys. -/

/-- A merit is on the front: a journey has it and none dominates it. -/
def OnFront (merit : α → Merit) (journeys : List α) (m : Merit) : Prop :=
  m ∈ journeys.map merit ∧ ∀ y ∈ journeys, ¬ (merit y).Dominates m

instance (merit : α → Merit) (journeys : List α) (m : Merit) :
    Decidable (OnFront merit journeys m) :=
  inferInstanceAs (Decidable (_ ∧ _))

/-- Under `keepAll` the first journey of each merit on the front is shown. -/
theorem mem_select_keepAll_iff :
    x ∈ select merit .keepAll journeys ↔
      OnFront merit journeys (merit x) ∧ IsFirst merit journeys x := by
  rw [mem_select_iff, undominated_keepAll]
  refine (isFirst_filter (p := fun m => decide (∀ y ∈ journeys, ¬ (merit y).Dominates m))).trans ?_
  rw [decide_eq_true_iff]
  refine ⟨fun h => ⟨⟨List.mem_map_of_mem h.2.mem, h.1⟩, h.2⟩, fun h => ⟨h.1.2, h.2⟩⟩

/-- Under `keepAll` the merits on the front are shown. -/
theorem mem_map_select_keepAll_iff {m : Merit} :
    m ∈ (select merit .keepAll journeys).map merit ↔ OnFront merit journeys m := by
  constructor
  · intro h
    obtain ⟨x, hx, rfl⟩ := List.mem_map.mp h
    exact (mem_select_keepAll_iff.mp hx).1
  · intro h
    obtain ⟨y, hy, rfl⟩ := List.mem_map.mp h.1
    obtain ⟨x, hx, hmerit⟩ := exists_isFirst hy
    refine List.mem_map.mpr ⟨x, mem_select_keepAll_iff.mpr ⟨?_, hx⟩, hmerit⟩
    rw [hmerit]
    exact h

/-- Under `keepAll` every journey is matched by one that is shown. -/
theorem exists_mem_select_keepAll (hx : x ∈ journeys) :
    ∃ y ∈ select merit .keepAll journeys,
      merit y = merit x ∨ (merit y).Dominates (merit x) := by
  obtain ⟨y, hy, hyx⟩ :=
    Frontier.answers_of_mem (r := rivalry merit .keepAll) rivalry_trans rejects_keepAll hx
  rw [← undominated_eq_ofList] at hy
  obtain ⟨z, hz, hmerit⟩ := exists_isFirst hy
  refine ⟨z, mem_select_iff.mpr hz, ?_⟩
  rw [hmerit]
  rcases hyx with rfl | hyx
  · exact Or.inl rfl
  · exact Or.inr (rivalry_dominates.mp hyx)

/-- Under `keepAll` the journeys that are shown are the front, in one strict
order: there is one for each merit that a journey has and none dominates, namely
the first that was found.  So the merits that are shown do not depend on the
order in which the journeys were found. -/
theorem isFront_select (journeys : List α) :
    ((select merit .keepAll journeys).Pairwise fun a b => (merit a).Precedes (merit b)) ∧
      (∀ m, m ∈ (select merit .keepAll journeys).map merit ↔ OnFront merit journeys m) ∧
      (∀ x ∈ select merit .keepAll journeys, IsFirst merit journeys x) ∧
      ∀ others, others.Perm journeys →
        (select merit .keepAll others).map merit = (select merit .keepAll journeys).map merit := by
  refine ⟨pairwise_select _ _, fun m => mem_map_select_keepAll_iff,
    fun x hx => (mem_select_keepAll_iff.mp hx).2, fun others hperm => ?_⟩
  have hordered : ∀ js : List α,
      ((select merit .keepAll js).map merit).Pairwise fun a b => (id a).Precedes (id b) :=
    fun js => List.pairwise_map.mpr (pairwise_select .keepAll js)
  refine eq_of_pairwise_precedes (hordered others) (hordered journeys) fun m => ?_
  rw [mem_map_select_keepAll_iff, mem_map_select_keepAll_iff]
  unfold OnFront
  rw [(hperm.map merit).mem_iff]
  simp only [hperm.mem_iff]

/-- Found in two orders, of four journeys the same are shown: the bus journey is,
the one by rail and bus is not. -/
theorem isFront_select_byBus :
    [Merit.byRailAndBus, .byBus, .byCheapRail, .byBus].Perm
        [Merit.byCheapRail, .byBus, .byBus, .byRailAndBus] ∧
      (select id .keepAll [Merit.byRailAndBus, .byBus, .byCheapRail, .byBus]).map id =
        (select id .keepAll [Merit.byCheapRail, .byBus, .byBus, .byRailAndBus]).map id ∧
      Merit.byBus ∈
        (select id .keepAll [Merit.byCheapRail, .byBus, .byBus, .byRailAndBus]).map id ∧
      Merit.byRailAndBus ∉
        (select id .keepAll [Merit.byCheapRail, .byBus, .byBus, .byRailAndBus]).map id := by
  have hperm : [Merit.byRailAndBus, .byBus, .byCheapRail, .byBus].Perm
      [Merit.byCheapRail, .byBus, .byBus, .byRailAndBus] := by decide +kernel
  have hfront : OnFront id [Merit.byCheapRail, .byBus, .byBus, .byRailAndBus] .byBus ∧
      ¬ OnFront id [Merit.byCheapRail, .byBus, .byBus, .byRailAndBus] .byRailAndBus := by
    decide +kernel
  refine ⟨hperm, (isFront_select _).2.2.2 _ hperm, ((isFront_select _).2.1 _).mpr hfront.1, ?_⟩
  exact fun h => hfront.2 (((isFront_select _).2.1 _).mp h)

end Ranking

end TransitRouting
