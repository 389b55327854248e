/-
  TransitRouting.Proofs.Ranking.Survivors
  ───────────────────────────────────────
  Which journeys the ranking drops for others.

  A journey that is dropped was rejected by one that may itself be dropped
  later.  Dominance is handed on from the one to the other.  A tie is not: under
  `TieBreak.firstFound` the first of two journeys with the same values keeps the
  second out even if it has used more groups, and then whoever dominates the
  first need not dominate the second.

  Main statements:

    • `Merit.Dominates.trans` — dominance of merits is a strict order;
    • `Ranking.undominated_keepAll` — under `TieBreak.keepAll` exactly the
      journeys that none dominates are kept;
    • `Ranking.exists_rejects_of_not_mem` — unless it lost a tie to one that was
      dropped itself, a journey that is missing is rejected by one that is kept.
-/
import TransitRouting.Journey.Ranking
import TransitRouting.Proofs.Frontier

namespace TransitRouting

/-! ## §1. Dominance of merits is a strict order. -/

namespace Merit

theorem not_dominates_self (a : Merit) : ¬ a.Dominates a := by
  intro h
  obtain ⟨-, -, h | h | h | h⟩ := h
  · exact Int.lt_irrefl _ h
  · exact Int.lt_irrefl _ h
  · exact Nat.lt_irrefl _ h
  · exact Cost.lt_irrefl _ h

theorem Dominates.trans {a b c : Merit} (h : a.Dominates b) (h' : b.Dominates c) :
    a.Dominates c := by
  obtain ⟨hg, ⟨hd, ha, ht, hc⟩, hlt⟩ := h
  obtain ⟨hg', ⟨hd', ha', ht', hc'⟩, -⟩ := h'
  refine ⟨GroupSet.subset_trans hg hg', ⟨Time.le_trans hd' hd, Time.le_trans ha ha',
    Nat.le_trans ht ht', Cost.le_trans hc hc'⟩, ?_⟩
  rcases hlt with h | h | h | h
  · exact Or.inl (Int.lt_of_le_of_lt hd' h)
  · exact Or.inr (Or.inl (Int.lt_of_lt_of_le h ha'))
  · exact Or.inr (Or.inr (Or.inl (Nat.lt_of_lt_of_le h ht')))
  · exact Or.inr (Or.inr (Or.inr (Cost.lt_of_lt_of_le h hc')))

/-- Whoever dominates a merit dominates every other one with the same values, if
the groups allow it. -/
theorem Dominates.of_sameValues {a b c : Merit} (h : a.Dominates b) (hbc : b.SameValues c)
    (hgroups : a.groups ⊆ c.groups) : a.Dominates c := by
  obtain ⟨-, hle, hlt⟩ := h
  obtain ⟨hd, ha, ht, hc⟩ := hbc
  rw [hd, ha, ht, hc] at hle hlt
  exact ⟨hgroups, hle, hlt⟩

/-- Under `keepAll` only dominance keeps a merit out. -/
theorem rejects_keepAll_iff {a b : Merit} : a.Rejects .keepAll b ↔ a.Dominates b := by
  unfold Rejects
  simp only [and_false, or_false]

end Merit

/-! ## §2. What is kept. -/

namespace Ranking

variable {α : Type} {merit : α → Merit} {policy : TieBreak} {journeys : List α} {x y : α}

@[simp] theorem rivalry_dominates :
    (rivalry merit policy).dominates x y = true ↔ (merit x).Dominates (merit y) :=
  decide_eq_true_iff

@[simp] theorem rivalry_rejects :
    (rivalry merit policy).rejects x y = true ↔ (merit x).Rejects policy (merit y) :=
  decide_eq_true_iff

theorem rivalry_trans {a b c : α} (h : (rivalry merit policy).dominates a b = true)
    (h' : (rivalry merit policy).dominates b c = true) :
    (rivalry merit policy).dominates a c = true :=
  rivalry_dominates.mpr ((rivalry_dominates.mp h).trans (rivalry_dominates.mp h'))

/-- The journeys that are kept form a frontier. -/
theorem undominated_eq_ofList (policy : TieBreak) (journeys : List α) :
    undominated merit policy journeys = Frontier.ofList (rivalry merit policy) journeys := by
  unfold undominated
  split
  · next hlength => exact (Frontier.ofList_of_length_le_one hlength).symm
  · rfl

theorem mem_of_mem_undominated (h : x ∈ undominated merit policy journeys) : x ∈ journeys := by
  rw [undominated_eq_ofList] at h
  exact Frontier.mem_of_mem_ofList h

/-- Under `keepAll` only dominance rejects. -/
theorem rejects_keepAll :
    (rivalry merit .keepAll).rejects = (rivalry merit .keepAll).dominates := by
  funext a b
  rw [Bool.eq_iff_iff, rivalry_rejects, rivalry_dominates, Merit.rejects_keepAll_iff]

/-- Under `keepAll` exactly the journeys that none dominates are kept, in the
order in which they were found. -/
theorem undominated_keepAll (journeys : List α) :
    undominated merit .keepAll journeys =
      journeys.filter fun x => decide (∀ y ∈ journeys, ¬ (merit y).Dominates (merit x)) := by
  have hirrefl : ∀ a, (rivalry merit .keepAll).dominates a a = false := fun a =>
    Bool.eq_false_iff.mpr fun h => (merit a).not_dominates_self (rivalry_dominates.mp h)
  rw [undominated_eq_ofList, Frontier.ofList_eq_filter rivalry_trans hirrefl rejects_keepAll]
  refine List.filter_congr fun x _ => ?_
  rw [Bool.eq_iff_iff, Frontier.isUnbeaten_iff, decide_eq_true_iff]
  simp only [Bool.eq_false_iff, ne_eq, rivalry_dominates]

/-! ## §3. What becomes of the others. -/

/-- The journey has the same values as one found before it that has used all its
groups, and that one is dominated by a journey that is kept and has used a group
that it has not. -/
def LostTie (merit : α → Merit) (kept before : List α) (x : α) : Prop :=
  ∃ held ∈ before, (merit held).SameValues (merit x) ∧ (merit x).groups ⊆ (merit held).groups ∧
    ∃ y ∈ kept, (merit y).Dominates (merit held) ∧ ¬ (merit y).groups ⊆ (merit x).groups

/-- Unless a tie was lost to a journey that was dropped itself, every journey
that is missing from those that are kept is rejected by one of them.  Under
`keepAll` there are no ties to lose. -/
theorem exists_rejects_of_not_mem {before after : List α}
    (hx : x ∉ undominated merit policy (before ++ x :: after))
    (htie : policy = .firstFound →
      ¬ LostTie merit (undominated merit policy (before ++ x :: after)) before x) :
    ∃ y ∈ undominated merit policy (before ++ x :: after),
      (merit y).Rejects policy (merit x) := by
  have hanswered := Frontier.answers_or_rejected (r := rivalry merit policy) rivalry_trans before
    after x
  rw [← undominated_eq_ofList] at hanswered
  rcases hanswered with ⟨y, hy, hyx⟩ | ⟨held, hheld, hrejects, y, hy, hyheld⟩
  · -- The journey was taken in and had to leave again.
    rcases hyx with rfl | hyx
    · exact absurd hy hx
    · exact ⟨y, hy, Or.inl (rivalry_dominates.mp hyx)⟩
  · -- The journey was rejected by one found before it.
    have hrejects := rivalry_rejects.mp hrejects
    rcases hyheld with rfl | hyheld
    · exact ⟨y, hy, hrejects⟩
    · have hbeats : (merit y).Dominates (merit held) := rivalry_dominates.mp hyheld
      refine ⟨y, hy, Or.inl ?_⟩
      rcases hrejects with hdominates | ⟨hsame, hgroups⟩
      · exact hbeats.trans hdominates
      · cases policy with
        | keepAll => exact hgroups.elim
        | firstFound =>
            rcases hgroups with hless | hmore
            · exact hbeats.of_sameValues hsame (GroupSet.subset_trans hbeats.1 hless)
            · refine hbeats.of_sameValues hsame (Decidable.byContradiction fun hnot => ?_)
              exact htie rfl ⟨held, hheld, hsame, hmore, y, hy, hbeats, hnot⟩

end Ranking

/-! ## §4. A tie that is lost. -/

namespace Merit

/-- Half an hour by rail. -/
def byRail : Merit := ⟨Time.saturate 0, Time.saturate 1800, 1, ⟨250000⟩, GroupSet.single 0⟩

/-- The same by bus. -/
def byBus : Merit := { byRail with groups := GroupSet.single 1 }

/-- The same partly by rail and partly by bus. -/
def byRailAndBus : Merit := { byRail with groups := (GroupSet.single 0).insert 1 }

/-- A cheaper way by rail. -/
def byCheapRail : Merit := { byRail with cost := ⟨240000⟩ }

end Merit

namespace Ranking

/-- The rail and bus journey loses its tie to the rail journey.  The rail journey
then leaves for a cheaper one, but that one dominates both. -/
theorem exists_rejects_byRailAndBus :
    Merit.byRailAndBus ∉ undominated id .firstFound
        ([Merit.byRail] ++ Merit.byRailAndBus :: [Merit.byCheapRail]) ∧
      ¬ LostTie id (undominated id .firstFound
        ([Merit.byRail] ++ Merit.byRailAndBus :: [Merit.byCheapRail])) [Merit.byRail]
        Merit.byRailAndBus ∧
      ∃ y ∈ undominated id .firstFound
          ([Merit.byRail] ++ Merit.byRailAndBus :: [Merit.byCheapRail]),
        Merit.Rejects .firstFound y Merit.byRailAndBus := by
  have hmissing : Merit.byRailAndBus ∉ undominated id .firstFound
      ([Merit.byRail] ++ Merit.byRailAndBus :: [Merit.byCheapRail]) := by decide +kernel
  have hmore : ¬ Merit.byRailAndBus.groups ⊆ Merit.byRail.groups := by decide +kernel
  have htie : ¬ LostTie id (undominated id .firstFound
      ([Merit.byRail] ++ Merit.byRailAndBus :: [Merit.byCheapRail])) [Merit.byRail]
      Merit.byRailAndBus := by
    intro ⟨held, hheld, _, hgroups, _⟩
    rw [List.mem_singleton.mp hheld] at hgroups
    exact hmore hgroups
  exact ⟨hmissing, htie, exists_rejects_of_not_mem hmissing fun _ => htie⟩

/-- The bus journey loses its tie to the rail and bus journey, which then leaves
for a cheaper rail journey.  Nothing that is kept rejects the bus journey. -/
theorem not_rejected_byBus :
    Merit.byBus ∈ [Merit.byRailAndBus, Merit.byBus, Merit.byCheapRail] ∧
      Merit.byBus ∉ undominated id .firstFound
        [Merit.byRailAndBus, Merit.byBus, Merit.byCheapRail] ∧
      ∀ y ∈ undominated id .firstFound [Merit.byRailAndBus, Merit.byBus, Merit.byCheapRail],
        ¬ Merit.Rejects .firstFound y Merit.byBus := by
  decide +kernel

end Ranking

end TransitRouting
