/-
  TransitRouting.Proofs.LabelStore.Pareto
  ───────────────────────────────────────
  Which labels stay best, and how early stops are reached.

  As long as labels are offered to the last round only, no best label is
  dominated by another one of its stop from its own round or an earlier one.
  So there is nothing to prune, and a stop that has been reached by some time
  stays reached by then: a label that leaves makes room for an earlier one.

  Main statements:

    • `LabelStore.Pareto.add?` — a newcomer to the last round keeps the best
      labels free of dominated ones;
    • `LabelStore.prune_eq_self` — such a store is not changed by pruning;
    • `LabelStore.ReachedBy.offerAll` — what is reached stays reached;
    • `LabelStore.reachedBy_of_mem` — every label that was offered is matched;
    • `LabelStore.isEarliest_bestArrival?` — what the store answers.
-/
import TransitRouting.Proofs.LabelStore.Offers

namespace TransitRouting

/-! ## §1. Best labels that nothing dominates. -/

namespace LabelStore

/-- No best label is dominated by one of its stop from its own round or an
earlier one. -/
def Pareto (s : LabelStore) : Prop :=
  ∀ j k, j ≤ k → ∀ stop, ∀ a ∈ s.bestLabels j stop, ∀ b ∈ s.bestLabels k stop,
    ¬ a.2.criteria.Dominates b.2.criteria

/-- The rounds after `r` have no best labels. -/
def EmptyAfter (s : LabelStore) (r : Nat) : Prop :=
  ∀ k, r < k → ∀ stop, s.bestLabels k stop = []

theorem bestLabels_empty (stopCount : Nat) (policy : TieBreak) (k stop : Nat) :
    (empty stopCount policy).bestLabels k stop = [] := by
  simp [bestLabels]

theorem Pareto.empty (stopCount : Nat) (policy : TieBreak) :
    (LabelStore.empty stopCount policy).Pareto := by
  intro j k _ stop a ha
  rw [bestLabels_empty] at ha
  cases ha

theorem EmptyAfter.empty (stopCount : Nat) (policy : TieBreak) (r : Nat) :
    (LabelStore.empty stopCount policy).EmptyAfter r :=
  fun k _ stop => bestLabels_empty stopCount policy k stop

theorem EmptyAfter.mono {s : LabelStore} {q r : Nat} (h : s.EmptyAfter q) (hqr : q ≤ r) :
    s.EmptyAfter r :=
  fun k hk stop => h k (Nat.lt_of_le_of_lt hqr hk) stop

theorem EmptyAfter.add? {s s' : LabelStore} {r : Nat} {l : Label} {place : LabelPlace}
    (h : s.EmptyAfter r) (hadd : s.add? r l = some (s', place)) : s'.EmptyAfter r := by
  intro k hk stop
  rw [bestLabels_add?_of_ne hadd (by omega)]
  exact h k hk stop

/-- A newcomer to the last round keeps the best labels free of dominated
ones. -/
theorem Pareto.add? {s s' : LabelStore} {r : Nat} {l : Label} {place : LabelPlace}
    (hp : s.Pareto) (hs : s.Valid) (hafter : s.EmptyAfter r) (hl : l.stop < s.stopCount)
    (hadd : s.add? r l = some (s', place)) : s'.Pareto := by
  have hfree := (add?_eq_some hadd).1
  intro j k hjk stop hgiven ha hother hb hdom
  obtain ⟨ap, a⟩ := hgiven
  obtain ⟨bp, b⟩ := hother
  rcases (mem_bestLabels_add? hs hl hadd).mp ha with ⟨⟨rfl, rfl⟩, -, rfl⟩ | ⟨ha, -⟩
  · rcases (mem_bestLabels_add? hs hl hadd).mp hb with ⟨-, -, rfl⟩ | ⟨hb, hkept⟩
    · exact Criteria.not_dominates_self _ hdom
    · rcases Nat.lt_or_eq_of_le hjk with hlt | rfl
      · -- Nothing comes after the last round.
        rw [hafter k hlt] at hb
        cases hb
      · -- What the newcomer dominates has left.
        exact hkept ⟨⟨rfl, rfl⟩, hdom⟩
  · rcases (mem_bestLabels_add? hs hl hadd).mp hb with ⟨⟨rfl, rfl⟩, -, rfl⟩ | ⟨hb, -⟩
    · -- One that is dominated would not have been taken in.
      have hrejects : s.rejects k b = true :=
        rejects_iff.mpr ⟨j, hjk, (ap, a), ha, Or.inl hdom⟩
      rw [hfree] at hrejects
      cases hrejects
    · exact hp j k hjk stop _ ha _ hb hdom

/-- No best label is beaten by another one, or by one of an earlier round. -/
theorem Pareto.isUnbeaten {s : LabelStore} (hp : s.Pareto) {r stop i : Nat}
    (hi : i ∈ (s.round r).best.row stop) :
    (s.round r).isUnbeaten (s.rounds.take r) stop i = true := by
  have hmem : ((⟨r, i⟩ : LabelPlace), (s.round r).label i) ∈ s.bestLabels r stop :=
    mem_bestLabels.mpr ⟨rfl, hi, rfl⟩
  simp only [Round.isUnbeaten, Bool.and_eq_true, Bool.not_eq_true', List.any_eq_false,
    List.any_eq_true, decide_eq_true_eq]
  constructor
  · intro j hj hbeaten
    obtain ⟨-, hdom⟩ := hbeaten
    exact hp r r (Nat.le_refl r) stop (⟨r, j⟩, (s.round r).label j)
      (mem_bestLabels.mpr ⟨rfl, hj, rfl⟩) _ hmem hdom
  · intro e he hbeaten
    obtain ⟨k, hk, held, hheld, hdom⟩ := exists_take_rounds_iff.mp ⟨e, he, hbeaten⟩
    exact hp k r (Nat.le_of_lt hk) stop held hheld _ hmem hdom

/-- Putting a round back where it was changes nothing. -/
theorem modify_round_eq_self (s : LabelStore) (r : Nat) :
    s.rounds.modify r (fun _ => s.round r) = s.rounds := by
  apply List.ext_getElem?
  intro k
  rw [List.getElem?_modify]
  split
  · next hk =>
      subst hk
      by_cases hlt : r < s.rounds.length
      · simp [round, hlt]
      · -- There is no such round.
        simp [hlt]
  · simp

/-- Without dominated best labels there is nothing to prune. -/
theorem prune_eq_self {s : LabelStore} (hs : s.Valid) (hp : s.Pareto) (r : Nat) :
    s.prune r = (s, 0) := by
  have hround : (s.round r).prune (s.rounds.take r) = s.round r :=
    Round.prune_eq_self (hs r) fun _ _ hi => hp.isUnbeaten hi
  unfold prune
  simp only [hround, Nat.sub_self, modify_round_eq_self]

end LabelStore

/-! ## §2. How early a stop is reached. -/

namespace LabelStore

/-- A best label of the stop, from a round up to `r`, is there by `t`. -/
def ReachedBy (s : LabelStore) (stop r : Nat) (t : Time) : Prop :=
  ∃ k ≤ r, ∃ e ∈ s.bestLabels k stop, e.2.arrival ≤ t

instance (s : LabelStore) (stop r : Nat) (t : Time) : Decidable (s.ReachedBy stop r t) :=
  inferInstanceAs (Decidable (∃ k ≤ r, ∃ e ∈ s.bestLabels k stop, _))

theorem ReachedBy.mono {s : LabelStore} {stop q r : Nat} {t u : Time}
    (h : s.ReachedBy stop q t) (hqr : q ≤ r) (htu : t ≤ u) : s.ReachedBy stop r u := by
  obtain ⟨k, hk, e, he, hle⟩ := h
  exact ⟨k, Nat.le_trans hk hqr, e, he, Time.le_trans hle htu⟩

theorem ReachedBy.add? {s s' : LabelStore} {stop q r : Nat} {t : Time} {l : Label}
    {place : LabelPlace} (h : s.ReachedBy stop q t) (hs : s.Valid) (hl : l.stop < s.stopCount)
    (hadd : s.add? r l = some (s', place)) : s'.ReachedBy stop q t := by
  obtain ⟨k, hk, ⟨ep, e⟩, he, hle⟩ := h
  by_cases hout : (k = r ∧ l.stop = stop) ∧ l.criteria.Dominates e.criteria
  · -- The newcomer takes the place of the label that leaves.
    have hnew : (place, l) ∈ s'.bestLabels k stop :=
      (mem_bestLabels_add? hs hl hadd).mpr (Or.inl ⟨hout.1, rfl, rfl⟩)
    exact ⟨k, hk, _, hnew, Time.le_trans hout.2.2.1.1 hle⟩
  · exact ⟨k, hk, _, (mem_bestLabels_add? hs hl hadd).mpr (Or.inr ⟨he, hout⟩), hle⟩

/-- A label that is offered is matched, whether it is taken in or not. -/
theorem reachedBy_offer {s : LabelStore} {r : Nat} {l : Label} (hs : s.Valid)
    (hl : l.stop < s.stopCount) : (s.offer r l).ReachedBy l.stop r l.arrival := by
  rcases s.offer_cases r l with ⟨place, hadd⟩ | ⟨hrejects, hsame⟩
  · have hnew : (place, l) ∈ (s.offer r l).bestLabels r l.stop :=
      (mem_bestLabels_add? hs hl hadd).mpr (Or.inl ⟨⟨rfl, rfl⟩, rfl, rfl⟩)
    exact ⟨r, Nat.le_refl r, _, hnew, Time.le_refl _⟩
  · rw [hsame]
    -- Whatever rejects the label is as early.
    obtain ⟨k, hk, held, hheld, hdom | ⟨hvalues, -⟩⟩ := rejects_iff.mp hrejects
    · exact ⟨k, hk, held, hheld, hdom.2.1.1⟩
    · exact ⟨k, hk, held, hheld, Int.le_of_eq (congrArg Time.seconds hvalues.1)⟩

/-! ## §3. Sound stores. -/

/-- A store whose lists are true and whose last round is `r`. -/
structure SoundTo (s : LabelStore) (r : Nat) : Prop where
  /-- The lists say what they should. -/
  valid : s.Valid
  /-- No best label is dominated. -/
  pareto : s.Pareto
  /-- There are no labels after round `r`. -/
  emptyAfter : s.EmptyAfter r

theorem SoundTo.empty (stopCount : Nat) (policy : TieBreak) (r : Nat) :
    (LabelStore.empty stopCount policy).SoundTo r :=
  ⟨Valid.empty stopCount policy, Pareto.empty stopCount policy,
    EmptyAfter.empty stopCount policy r⟩

theorem SoundTo.mono {s : LabelStore} {q r : Nat} (h : s.SoundTo q) (hqr : q ≤ r) :
    s.SoundTo r :=
  ⟨h.valid, h.pareto, h.emptyAfter.mono hqr⟩

theorem SoundTo.add? {s s' : LabelStore} {r : Nat} {l : Label} {place : LabelPlace}
    (h : s.SoundTo r) (hl : l.stop < s.stopCount) (hadd : s.add? r l = some (s', place)) :
    s'.SoundTo r :=
  ⟨h.valid.add? hl hadd, h.pareto.add? h.valid h.emptyAfter hl hadd, h.emptyAfter.add? hadd⟩

/-- Offering labels of stops in range keeps a store sound, and with it whatever
every label that is taken in keeps. -/
theorem SoundTo.offerAll_induction {motive : LabelStore → Prop} {s : LabelStore} {r : Nat}
    {labels : List Label} (hs : s.SoundTo r) (hstops : ∀ l ∈ labels, l.stop < s.stopCount)
    (hstep : ∀ {u l u' place}, l ∈ labels → u.SoundTo r → l.stop < u.stopCount → motive u →
      u.add? r l = some (u', place) → motive u')
    (h : motive s) :
    (s.offerAll r labels).1.SoundTo r ∧ (s.offerAll r labels).1.stopCount = s.stopCount ∧
      motive (s.offerAll r labels).1 := by
  refine LabelStore.offerAll_induction
    (motive := fun u => u.SoundTo r ∧ u.stopCount = s.stopCount ∧ motive u) ?_ ⟨hs, rfl, h⟩
  intro u l u' place hl hgiven hadd
  obtain ⟨hu, hcount, hmotive⟩ := hgiven
  have hstop : l.stop < u.stopCount := hcount ▸ hstops l hl
  exact ⟨hu.add? hstop hadd, (add?_eq_some hadd).2.2.1.trans hcount,
    hstep hl hu hstop hmotive hadd⟩

/-- What is reached stays reached. -/
theorem ReachedBy.offerAll {s : LabelStore} {stop q r : Nat} {t : Time} {labels : List Label}
    (h : s.ReachedBy stop q t) (hs : s.SoundTo r) (hstops : ∀ l ∈ labels, l.stop < s.stopCount) :
    (s.offerAll r labels).1.ReachedBy stop q t := by
  have hall := hs.offerAll_induction (motive := fun u => u.ReachedBy stop q t) hstops
    (fun _ hu hstop hreached hadd => hreached.add? hu.valid hstop hadd) h
  exact hall.2.2

/-- Every label that was offered is matched by a best one. -/
theorem reachedBy_of_mem {s : LabelStore} {r : Nat} {labels : List Label} {l : Label}
    (hl : l ∈ labels) (hs : s.SoundTo r) (hstops : ∀ l ∈ labels, l.stop < s.stopCount) :
    (s.offerAll r labels).1.ReachedBy l.stop r l.arrival := by
  refine offerAll_of_mem (I := fun u => u.SoundTo r ∧ u.stopCount = s.stopCount)
    (P := fun u => u.ReachedBy l.stop r l.arrival) hl ?_ ?_ ?_ ⟨hs, rfl⟩
  · intro u e u' place he hgiven hadd
    obtain ⟨hu, hcount⟩ := hgiven
    exact ⟨hu.add? (hcount ▸ hstops e he) hadd, (add?_eq_some hadd).2.2.1.trans hcount⟩
  · intro u e u' place he hgiven hreached hadd
    obtain ⟨hu, hcount⟩ := hgiven
    exact hreached.add? hu.valid (hcount ▸ hstops e he) hadd
  · intro u hgiven
    obtain ⟨hu, hcount⟩ := hgiven
    exact reachedBy_offer hu.valid (hcount ▸ hstops l hl)

/-! ## §4. The earliest arrival. -/

/-- The store answers with the earliest arrival among the best labels of the
stop in the rounds up to `r`. -/
theorem bestArrival?_eq_some {s : LabelStore} {stop r : Nat} {t : Time} :
    s.bestArrival? stop r = some t ↔
      (∃ k ≤ r, ∃ e ∈ s.bestLabels k stop, e.2.arrival = t) ∧
        ∀ k ≤ r, ∀ e ∈ s.bestLabels k stop, t ≤ e.2.arrival := by
  unfold bestArrival?
  simp only [List.min?_eq_some_iff, List.mem_map, List.mem_flatMap, List.mem_range,
    Nat.lt_succ_iff]
  constructor
  · intro hgiven
    obtain ⟨⟨e, ⟨k, hk, he⟩, rfl⟩, hleast⟩ := hgiven
    exact ⟨⟨k, hk, e, he, rfl⟩, fun j hj f hf => hleast _ ⟨f, ⟨j, hj, hf⟩, rfl⟩⟩
  · intro hgiven
    obtain ⟨⟨k, hk, e, he, rfl⟩, hleast⟩ := hgiven
    refine ⟨⟨e, ⟨k, hk, he⟩, rfl⟩, ?_⟩
    intro u hgiven
    obtain ⟨f, ⟨j, hj, hf⟩, rfl⟩ := hgiven
    exact hleast j hj f hf

theorem bestArrival?_eq_none {s : LabelStore} {stop r : Nat} :
    s.bestArrival? stop r = none ↔ ∀ k ≤ r, s.bestLabels k stop = [] := by
  unfold bestArrival?
  simp only [List.min?_eq_none_iff, List.map_eq_nil_iff, List.flatMap_eq_nil_iff,
    List.mem_range, Nat.lt_succ_iff]

/-- If best labels arrive at times with a property, and each such time is
matched, then the answer is the earliest of these times. -/
theorem isEarliest_bestArrival? {s : LabelStore} {stop r : Nat} {holds : Time → Prop}
    (hsound : ∀ k ≤ r, ∀ e ∈ s.bestLabels k stop, holds e.2.arrival)
    (hmatched : ∀ t, holds t → s.ReachedBy stop r t) :
    Time.IsEarliest holds (s.bestArrival? stop r) := by
  cases hbest : s.bestArrival? stop r with
  | none =>
      intro t ht
      obtain ⟨k, hk, e, he, -⟩ := hmatched t ht
      rw [bestArrival?_eq_none.mp hbest k hk] at he
      cases he
  | some t =>
      obtain ⟨⟨k, hk, e, he, harrival⟩, hleast⟩ := bestArrival?_eq_some.mp hbest
      refine ⟨harrival ▸ hsound k hk e he, ?_⟩
      intro u hu
      obtain ⟨j, hj, f, hf, hle⟩ := hmatched u hu
      exact Time.le_trans (hleast j hj f hf) hle

end LabelStore

end TransitRouting
