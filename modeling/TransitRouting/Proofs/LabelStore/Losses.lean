/-
  TransitRouting.Proofs.LabelStore.Losses
  ───────────────────────────────────────
  Which labels are lost for others.

  A label that is not among the best in the end was turned away, or taken in and
  driven out, by one that may itself have been driven out later.  Dominance is
  handed on from the one to the other.  A tie is not: under
  `TieBreak.firstFound` the first of two labels with the same values keeps the
  second out even if it has used more groups, and then whoever dominates the
  first need not dominate the second.

  Main statements:

    • `Criteria.Dominates.of_rejects` — whoever dominates a label dominates all
      that this one rejects, save for a lost tie;
    • `LabelStore.rejected_of_not_hasKept` — unless it lost a tie to one that was
      driven out itself, a label that is missing from the best labels of a store,
      or from those at the destination, is rejected by one of them;
    • `LabelStore.no_rejects_byBus` — a tie that is lost so.
-/
import TransitRouting.Proofs.LabelStore.Sequences

namespace TransitRouting

/-! ## §1. What is handed on. -/

namespace Criteria

/-- Whoever dominates an arrival dominates every other one with the same values, if
the groups allow it. -/
theorem Dominates.of_sameValues {a b c : Criteria} (h : a.Dominates b) (hbc : b.SameValues c)
    (hgroups : a.groups ⊆ c.groups) : a.Dominates c := by
  obtain ⟨-, hle, hlt⟩ := h
  obtain ⟨ha, ht, hc⟩ := hbc
  rw [ha, ht, hc] at hle hlt
  exact ⟨hgroups, hle, hlt⟩

/-- The arrival has the same values as `held`, which has used all its groups, and
`held` is dominated by `beater`, which has used a group that the arrival has not. -/
def LosesTie (x held beater : Criteria) : Prop :=
  held.SameValues x ∧ x.groups ⊆ held.groups ∧ beater.Dominates held ∧
    ¬ beater.groups ⊆ x.groups

instance (x held beater : Criteria) : Decidable (x.LosesTie held beater) :=
  inferInstanceAs (Decidable (_ ∧ _ ∧ _ ∧ ¬ _))

/-- Whoever dominates an arrival dominates what that rejects, unless a tie was
lost.  Under `keepAll` there are no ties to lose. -/
theorem Dominates.of_rejects {policy : TieBreak} {beater held x : Criteria}
    (hbeats : beater.Dominates held) (hrejects : held.Rejects policy x)
    (htie : policy = .firstFound → ¬ x.LosesTie held beater) : beater.Dominates x := by
  rcases hrejects with hdominates | ⟨hsame, hgroups⟩
  · exact hbeats.trans hdominates
  · refine hbeats.of_sameValues hsame ?_
    cases policy with
    | keepAll =>
        have hequal : held.groups = x.groups := hgroups
        exact hequal ▸ hbeats.1
    | firstFound =>
        rcases hgroups with hless | hmore
        · exact GroupSet.subset_trans hbeats.1 hless
        · refine Decidable.byContradiction fun hnot => ?_
          exact htie rfl ⟨hsame, hmore, hbeats, hnot⟩

end Criteria

/-! ## §2. Offers that are lost. -/

namespace Offer

/-- An offer made before, which concerned this one, tied with it and was driven out
by one that is kept, but could not drive this one out. -/
def LostTie (before : List Offer) (keeps : Offer → Prop) (o : Offer) : Prop :=
  ∃ held ∈ before, held.Precedes o ∧ ∃ y, keeps y ∧ y.Precedes held ∧
    o.label.criteria.LosesTie held.label.criteria y.label.criteria

theorem rivalry_trans {policy : TieBreak} {a b c : Offer}
    (h : (rivalry policy).dominates a b = true) (h' : (rivalry policy).dominates b c = true) :
    (rivalry policy).dominates a c = true := by
  rw [rivalry_dominates] at h h' ⊢
  exact ⟨h.1.trans h'.1, h.2.trans h'.2⟩

end Offer

namespace LabelStore

variable {s : LabelStore} {members before after : List Offer} {o : Offer}

/-- The label of the offer is one of the best of its stop in its round. -/
def HasKept (s : LabelStore) (o : Offer) : Prop :=
  ∃ held ∈ s.bestLabels o.round o.label.stop, held.2 = o.label

instance (s : LabelStore) (o : Offer) : Decidable (s.HasKept o) :=
  inferInstanceAs (Decidable (∃ held ∈ s.bestLabels _ _, _ = _))

/-- The store keeps the offers that are members. -/
theorem Mirrors.hasKept_iff (h : s.Mirrors members) : s.HasKept o ↔ o ∈ members := by
  unfold HasKept
  rw [h.exists_iff]
  constructor
  · intro hgiven
    obtain ⟨⟨round, label⟩, hx, ⟨rfl, -⟩, rfl⟩ := hgiven
    exact hx
  · intro ho
    exact ⟨o, ho, ⟨rfl, rfl⟩, rfl⟩

/-- An offer that the store does not keep in the end is rejected by one that it
keeps, unless a tie was lost. -/
theorem exists_hasKept_of_not_hasKept {stopCount : Nat} {policy : TieBreak}
    (hstops : ∀ x ∈ before ++ o :: after, x.label.stop < stopCount)
    (hrounds : (before ++ o :: after).Pairwise fun a b => a.round ≤ b.round)
    (hlost : ¬ (ofOffers stopCount policy (before ++ o :: after)).HasKept o)
    (htie : policy = .firstFound →
      ¬ o.LostTie before (ofOffers stopCount policy (before ++ o :: after)).HasKept) :
    ∃ y, (ofOffers stopCount policy (before ++ o :: after)).HasKept y ∧ y.Precedes o ∧
      y.label.criteria.Rejects policy o.label.criteria := by
  have hmirrors : (ofOffers stopCount policy (before ++ o :: after)).Mirrors
      (Frontier.ofList (Offer.rivalry policy) (before ++ o :: after)) :=
    mirrors_ofOffers hstops hrounds
  have hmissing : o ∉ Frontier.ofList (Offer.rivalry policy) (before ++ o :: after) :=
    fun ho => hlost (hmirrors.hasKept_iff.mpr ho)
  obtain ⟨y, hy, hyo⟩ := by
    refine Frontier.exists_rejects_of_missing Offer.rivalry_trans Offer.rejects_of_dominates
      hmissing ?_
    -- Whoever drove out the label that turned this one away answers for it.
    intro held hheld hrejects y hy hdominates
    obtain ⟨hprecedes, hrejects⟩ := Offer.rivalry_rejects.mp hrejects
    obtain ⟨hprecedes', hbeats⟩ := Offer.rivalry_dominates.mp hdominates
    refine Offer.rivalry_rejects.mpr ⟨hprecedes'.trans hprecedes, Or.inl ?_⟩
    refine hbeats.of_rejects hrejects fun hfirst hloses => htie hfirst ?_
    exact ⟨held, hheld, hprecedes, y, hmirrors.hasKept_iff.mpr hy, hprecedes', hloses⟩
  exact ⟨y, hmirrors.hasKept_iff.mpr hy, Offer.rivalry_rejects.mp hyo⟩

end LabelStore

/-! ## §3. Destination labels that are lost. -/

namespace Label

variable {policy : TieBreak} {a b c : Label}

@[simp] theorem rivalry_dominates :
    (rivalry policy).dominates a b = true ↔ a.criteria.Dominates b.criteria :=
  decide_eq_true_iff

@[simp] theorem rivalry_rejects :
    (rivalry policy).rejects a b = true ↔ a.criteria.Rejects policy b.criteria :=
  decide_eq_true_iff

theorem rivalry_trans (h : (rivalry policy).dominates a b = true)
    (h' : (rivalry policy).dominates b c = true) : (rivalry policy).dominates a c = true :=
  rivalry_dominates.mpr ((rivalry_dominates.mp h).trans (rivalry_dominates.mp h'))

theorem rejects_of_dominates (h : (rivalry policy).dominates a b = true) :
    (rivalry policy).rejects a b = true :=
  rivalry_rejects.mpr (Or.inl (rivalry_dominates.mp h))

/-- A label offered before tied with this one and was driven out by one that is
kept, but could not drive this one out. -/
def LostTie (before kept : List Label) (l : Label) : Prop :=
  ∃ held ∈ before, ∃ y ∈ kept, l.criteria.LosesTie held.criteria y.criteria

instance (before kept : List Label) (l : Label) : Decidable (l.LostTie before kept) :=
  inferInstanceAs (Decidable (∃ held ∈ before, ∃ y ∈ kept, _))

/-- A label that is not kept at the destination is rejected by one that is, unless a
tie was lost. -/
theorem exists_rejects_of_not_kept {before after : List Label} {l : Label}
    (hlost : l ∉ Frontier.ofList (rivalry policy) (before ++ l :: after))
    (htie : policy = .firstFound →
      ¬ l.LostTie before (Frontier.ofList (rivalry policy) (before ++ l :: after))) :
    ∃ held ∈ Frontier.ofList (rivalry policy) (before ++ l :: after),
      held.criteria.Rejects policy l.criteria := by
  obtain ⟨y, hy, hyl⟩ := by
    refine Frontier.exists_rejects_of_missing rivalry_trans rejects_of_dominates hlost ?_
    intro held hheld hrejects y hy hdominates
    refine rivalry_rejects.mpr (Or.inl ?_)
    refine (rivalry_dominates.mp hdominates).of_rejects (rivalry_rejects.mp hrejects) ?_
    exact fun hfirst hloses => htie hfirst ⟨held, hheld, y, hy, hloses⟩
  exact ⟨y, hy, rivalry_rejects.mp hyl⟩

end Label

/-! ## §4. No label is lost, save in a tie. -/

namespace LabelStore

/-- Unless a tie was lost to a label that was driven out itself, every label that
was offered and is not among the best of its stop and round in the end is rejected
by a best label of the stop, from its round or an earlier one.  The same holds of
the labels at the destination.  Under `keepAll` there are no ties to lose. -/
theorem rejected_of_not_hasKept (policy : TieBreak) :
    (∀ (stopCount : Nat) (before after : List Offer) (o : Offer),
      (∀ x ∈ before ++ o :: after, x.label.stop < stopCount) →
      ((before ++ o :: after).Pairwise fun a b => a.round ≤ b.round) →
      ¬ (ofOffers stopCount policy (before ++ o :: after)).HasKept o →
      (policy = .firstFound →
        ¬ o.LostTie before (ofOffers stopCount policy (before ++ o :: after)).HasKept) →
      ∃ k ≤ o.round,
        ∃ held ∈ (ofOffers stopCount policy (before ++ o :: after)).bestLabels k o.label.stop,
          held.2.criteria.Rejects policy o.label.criteria) ∧
    ∀ (before after : List Label) (l : Label),
      l ∉ Frontier.ofList (Label.rivalry policy) (before ++ l :: after) →
      (policy = .firstFound →
        ¬ l.LostTie before (Frontier.ofList (Label.rivalry policy) (before ++ l :: after))) →
      ∃ held ∈ Frontier.ofList (Label.rivalry policy) (before ++ l :: after),
        held.criteria.Rejects policy l.criteria := by
  constructor
  · intro stopCount before after o hstops hrounds hlost htie
    obtain ⟨y, ⟨held, hheld, hlabel⟩, ⟨hround, hstop⟩, hrejects⟩ :=
      exists_hasKept_of_not_hasKept hstops hrounds hlost htie
    rw [hstop] at hheld
    rw [← hlabel] at hrejects
    exact ⟨y.round, hround, held, hheld, hrejects⟩
  · intro before after l hlost htie
    exact Label.exists_rejects_of_not_kept hlost htie

end LabelStore

/-! ## §5. A tie that is lost. -/

namespace Label

/-- Half an hour after midnight at the first stop, after one transfer. -/
def halfHour (cost : Int64) (groups : GroupSet) : Label :=
  ⟨0, ⟨Time.saturate 1800, 1, ⟨cost⟩, groups⟩, default, none⟩

/-- By rail. -/
def byRail : Label := halfHour 250000 (GroupSet.single 0)

/-- By bus. -/
def byBus : Label := halfHour 250000 (GroupSet.single 1)

/-- Partly by rail and partly by bus. -/
def byRailAndBus : Label := halfHour 250000 ((GroupSet.single 0).insert 1)

/-- By rail at a lower cost. -/
def byCheapRail : Label := halfHour 240000 (GroupSet.single 0)

end Label

namespace LabelStore

/-- The labels are offered to the second round. -/
def offersOf (labels : List Label) : List Offer := labels.map fun l => ⟨1, l⟩

/-- The rail and bus label loses its tie to the rail label.  The rail label then
leaves for a cheaper one, but that one dominates both. -/
theorem rejected_byRailAndBus :
    let before := offersOf [Label.byRail]
    let lost : Offer := ⟨1, Label.byRailAndBus⟩
    let after := offersOf [Label.byCheapRail]
    ¬ (ofOffers 1 .firstFound (before ++ lost :: after)).HasKept lost ∧
      (∃ k ≤ 1, ∃ held ∈ (ofOffers 1 .firstFound (before ++ lost :: after)).bestLabels k 0,
        held.2.criteria.Rejects .firstFound Label.byRailAndBus.criteria) ∧
      ∃ held ∈ Frontier.ofList (Label.rivalry .firstFound)
          ([Label.byRail] ++ Label.byRailAndBus :: [Label.byCheapRail]),
        held.criteria.Rejects .firstFound Label.byRailAndBus.criteria := by
  intro before lost after
  have hmore : ¬ Label.byRailAndBus.criteria.groups ⊆ Label.byRail.criteria.groups := by
    decide +kernel
  have hlost : ¬ (ofOffers 1 .firstFound (before ++ lost :: after)).HasKept lost := by
    decide +kernel
  have hties : ∀ keeps, ¬ lost.LostTie before keeps := by
    intro keeps hgiven
    obtain ⟨held, hheld, -, y, -, -, -, hgroups, -⟩ := hgiven
    rw [List.mem_singleton.mp hheld] at hgroups
    exact hmore hgroups
  obtain ⟨hstore, hdestination⟩ := rejected_of_not_hasKept .firstFound
  refine ⟨hlost, ?_, ?_⟩
  · exact hstore 1 before after lost (by decide +kernel) (by decide +kernel) hlost
      fun _ => hties _
  · exact hdestination [Label.byRail] [Label.byCheapRail] Label.byRailAndBus
      (by decide +kernel) fun _ => by decide +kernel

/-- The bus label loses its tie to the rail and bus label, which then leaves for a
cheaper rail label.  No best label rejects the bus label, neither in a store nor at
the destination. -/
theorem no_rejects_byBus :
    let labels := [Label.byRailAndBus, Label.byBus, Label.byCheapRail]
    ((∀ o ∈ offersOf labels, o.label.stop < 1) ∧
      ((offersOf labels).Pairwise fun a b => a.round ≤ b.round) ∧
      ⟨1, Label.byBus⟩ ∈ offersOf labels ∧
      ¬ (ofOffers 1 .firstFound (offersOf labels)).HasKept ⟨1, Label.byBus⟩ ∧
      ∀ k ≤ 1, ∀ held ∈ (ofOffers 1 .firstFound (offersOf labels)).bestLabels k 0,
        ¬ held.2.criteria.Rejects .firstFound Label.byBus.criteria) ∧
    Label.byBus ∉ Frontier.ofList (Label.rivalry .firstFound) labels ∧
      ∀ held ∈ Frontier.ofList (Label.rivalry .firstFound) labels,
        ¬ held.criteria.Rejects .firstFound Label.byBus.criteria := by
  decide +kernel

end LabelStore

end TransitRouting
