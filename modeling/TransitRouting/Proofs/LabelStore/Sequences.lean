/-
  TransitRouting.Proofs.LabelStore.Sequences
  ──────────────────────────────────────────
  What a store holds after a whole sequence of offers.

  A label is kept out by the rounds up to its own, but drives out labels of its
  own round only.  As long as the rounds do not go back, that makes no
  difference: a label from a later round is never offered before one from an
  earlier round.  The best labels of all rounds and stops together are then one
  frontier, and where losing is handed on, that frontier can be read off the
  offers without following how it came about.

  Main statements:

    • `LabelStore.bestLabels_ofOffers` — each list of best labels is a part of
      one frontier of offers;
    • `LabelStore.bestLabels_ofOffers_keepAll` — under `TieBreak.keepAll` these
      are exactly the labels that nothing offered at their stop, up to their
      round, dominates, and that came before their equals.
-/
import TransitRouting.Proofs.Frontier
import TransitRouting.Proofs.LabelStore.Pareto

namespace TransitRouting

/-! ## §1. Offers. -/

/-- A label and the round to which it is offered. -/
structure Offer where
  /-- The round. -/
  round : Nat
  /-- The label. -/
  label : Label
deriving DecidableEq, Repr

namespace Offer

/-- The first offer was made for the stop of the second, to its round or to an
earlier one. -/
def Precedes (a b : Offer) : Prop := a.round ≤ b.round ∧ a.label.stop = b.label.stop

instance (a b : Offer) : Decidable (a.Precedes b) := inferInstanceAs (Decidable (_ ∧ _))

theorem Precedes.trans {a b c : Offer} (h : a.Precedes b) (h' : b.Precedes c) : a.Precedes c :=
  ⟨Nat.le_trans h.1 h'.1, h.2.trans h'.2⟩

/-- Offers compete with those that they precede, on the criteria of their
labels. -/
def rivalry (policy : TieBreak) : Rivalry Offer :=
  { dominates := fun a b => decide (a.Precedes b ∧ a.label.criteria.Dominates b.label.criteria)
    rejects := fun held offered => decide
      (held.Precedes offered ∧ held.label.criteria.Rejects policy offered.label.criteria) }

variable {policy : TieBreak} {a b : Offer}

@[simp] theorem rivalry_dominates : (rivalry policy).dominates a b = true ↔
    a.Precedes b ∧ a.label.criteria.Dominates b.label.criteria :=
  decide_eq_true_iff

@[simp] theorem rivalry_rejects : (rivalry policy).rejects a b = true ↔
    a.Precedes b ∧ a.label.criteria.Rejects policy b.label.criteria :=
  decide_eq_true_iff

/-- The offer is for a round and a stop. -/
def isFor (r stop : Nat) (o : Offer) : Bool := decide (o.round = r ∧ o.label.stop = stop)

@[simp] theorem isFor_iff {r stop : Nat} {o : Offer} :
    o.isFor r stop = true ↔ o.round = r ∧ o.label.stop = stop :=
  decide_eq_true_iff

end Offer

/-- Under `keepAll` a tie is settled between equals only. -/
theorem Criteria.rejects_keepAll_iff {a b : Criteria} :
    a.Rejects .keepAll b ↔ a.Dominates b ∨ a = b := by
  unfold Criteria.Rejects
  constructor
  · intro h
    rcases h with h | ⟨⟨harrival, htransfers, hcost⟩, hgroups⟩
    · exact Or.inl h
    · right
      cases a
      cases b
      simp_all [TieBreak.Settles]
  · intro h
    rcases h with h | rfl
    · exact Or.inl h
    · exact Or.inr ⟨⟨rfl, rfl, rfl⟩, rfl⟩

theorem Offer.rejects_of_dominates {policy : TieBreak} {a b : Offer}
    (h : (rivalry policy).dominates a b = true) : (rivalry policy).rejects a b = true := by
  rw [rivalry_dominates] at h
  exact rivalry_rejects.mpr ⟨h.1, Or.inl h.2⟩

/-- Under `keepAll` losing is handed on. -/
theorem Offer.rivalry_keepAll_coherent : (Offer.rivalry .keepAll).Coherent where
  irrefl := by
    intro a
    refine Bool.eq_false_iff.mpr fun h => ?_
    exact Criteria.not_dominates_self _ (Offer.rivalry_dominates.mp h).2
  rejects_of_dominates := Offer.rejects_of_dominates
  rejects_trans := by
    intro a b c hab hbc
    obtain ⟨hbefore, hab⟩ := Offer.rivalry_rejects.mp hab
    obtain ⟨hbefore', hbc⟩ := Offer.rivalry_rejects.mp hbc
    refine Offer.rivalry_rejects.mpr ⟨hbefore.trans hbefore', ?_⟩
    rw [Criteria.rejects_keepAll_iff] at hab hbc ⊢
    rcases hab with hab | hab
    · rcases hbc with hbc | hbc
      · exact Or.inl (hab.trans hbc)
      · exact Or.inl (hbc ▸ hab)
    · rw [hab]
      exact hbc
  dominates_of_rejects := by
    intro a b c hab hbc
    obtain ⟨hbefore, hab⟩ := Offer.rivalry_rejects.mp hab
    obtain ⟨hbefore', hbc⟩ := Offer.rivalry_dominates.mp hbc
    refine Offer.rivalry_dominates.mpr ⟨hbefore.trans hbefore', ?_⟩
    rcases Criteria.rejects_keepAll_iff.mp hab with hab | hab
    · exact hab.trans hbc
    · rw [hab]
      exact hbc

/-! ## §2. The store after a sequence of offers. -/

namespace LabelStore

/-- The store after offers were made one by one to an empty one. -/
def ofOffers (stopCount : Nat) (policy : TieBreak) (offers : List Offer) : LabelStore :=
  offers.foldl (fun s o => s.offer o.round o.label) (empty stopCount policy)

variable {stopCount : Nat} {policy : TieBreak} {offers : List Offer}

theorem ofOffers_concat (offers : List Offer) (o : Offer) :
    ofOffers stopCount policy (offers ++ [o]) =
      (ofOffers stopCount policy offers).offer o.round o.label := by
  unfold ofOffers
  rw [List.foldl_append, List.foldl_cons, List.foldl_nil]

/-- The lists of the store are true, and its settings stay. -/
theorem ofOffers_valid (policy : TieBreak) (hstops : ∀ o ∈ offers, o.label.stop < stopCount) :
    (ofOffers stopCount policy offers).Valid ∧
      (ofOffers stopCount policy offers).stopCount = stopCount ∧
      (ofOffers stopCount policy offers).policy = policy := by
  induction offers using List.reverseRecOn with
  | nil => exact ⟨Valid.empty stopCount policy, rfl, rfl⟩
  | append_singleton offers o ih =>
      obtain ⟨hvalid, hcount, hpolicy⟩ := ih fun x hx => hstops x (List.mem_append_left _ hx)
      have hstop : o.label.stop < stopCount :=
        hstops o (List.mem_append_right _ List.mem_cons_self)
      rw [ofOffers_concat]
      rcases (ofOffers stopCount policy offers).offer_cases o.round o.label with
        ⟨place, hadd⟩ | ⟨-, hsame⟩
      · obtain ⟨-, -, hcount', hpolicy', -, -⟩ := add?_eq_some hadd
        exact ⟨hvalid.add? (hcount.symm ▸ hstop) hadd, hcount'.trans hcount,
          hpolicy'.trans hpolicy⟩
      · rw [hsame]
        exact ⟨hvalid, hcount, hpolicy⟩

/-- The best labels of a stop in a round after one more label was taken in. -/
theorem map_bestLabels_add? {s s' : LabelStore} (hs : s.Valid) {r : Nat} {l : Label}
    {place : LabelPlace} (hl : l.stop < s.stopCount) (h : s.add? r l = some (s', place))
    (k stop : Nat) :
    (s'.bestLabels k stop).map Prod.snd =
      if k = r ∧ l.stop = stop then
        ((s.bestLabels k stop).map Prod.snd).filter
          (fun e => ¬ l.criteria.Dominates e.criteria) ++ [l]
      else (s.bestLabels k stop).map Prod.snd := by
  obtain ⟨-, -, -, -, -, hround⟩ := add?_eq_some h
  rw [map_snd_bestLabels, map_snd_bestLabels, hround]
  by_cases hk : k = r
  · subst hk
    rw [if_pos rfl, Round.bestLabels_insert (hs k) hl]
    simp only [true_and]
  · rw [if_neg hk, if_neg fun h => hk h.1]

/-! ## §3. The best labels are one frontier. -/

/-- The best labels of every stop and round are those of the members that were
offered for them, in the order of the members. -/
def Mirrors (s : LabelStore) (members : List Offer) : Prop :=
  ∀ r stop, (s.bestLabels r stop).map Prod.snd =
    (members.filter (·.isFor r stop)).map (·.label)

variable {s : LabelStore} {members : List Offer} {o : Offer}

theorem Mirrors.exists_iff (h : s.Mirrors members) {r stop : Nat} {e : Label} :
    (∃ held ∈ s.bestLabels r stop, held.2 = e) ↔
      ∃ x ∈ members, (x.round = r ∧ x.label.stop = stop) ∧ x.label = e := by
  have hmem : e ∈ (s.bestLabels r stop).map Prod.snd ↔
      e ∈ (members.filter (·.isFor r stop)).map (·.label) := by
    rw [h r stop]
  simp only [List.mem_map, List.mem_filter, Offer.isFor_iff, and_assoc] at hmem
  simp only [hmem, and_assoc]

/-- The store keeps out whatever a member rejects. -/
theorem Mirrors.rejects_iff (h : s.Mirrors members) :
    s.rejects o.round o.label = true ↔
      ∃ x ∈ members, (Offer.rivalry s.policy).rejects x o = true := by
  rw [LabelStore.rejects_iff]
  constructor
  · intro hgiven
    obtain ⟨k, hk, held, hheld, hrejects⟩ := hgiven
    obtain ⟨x, hx, ⟨rfl, hstop⟩, hlabel⟩ := h.exists_iff.mp ⟨held, hheld, rfl⟩
    refine ⟨x, hx, Offer.rivalry_rejects.mpr ⟨⟨hk, hstop⟩, ?_⟩⟩
    rw [hlabel]
    exact hrejects
  · intro hgiven
    obtain ⟨x, hx, hgiven⟩ := hgiven
    obtain ⟨⟨hround, hstop⟩, hrejects⟩ := Offer.rivalry_rejects.mp hgiven
    obtain ⟨held, hheld, hlabel⟩ := h.exists_iff.mpr ⟨x, hx, ⟨rfl, hstop⟩, rfl⟩
    refine ⟨x.round, hround, held, hheld, ?_⟩
    rw [hlabel]
    exact hrejects

/-- Among members of rounds up to the newcomer's, those that it drives out of
its own list are those that it dominates. -/
theorem Mirrors.add? (h : s.Mirrors members) (hs : s.Valid) (hstop : o.label.stop < s.stopCount)
    (hrounds : ∀ x ∈ members, x.round ≤ o.round) {s' : LabelStore} {place : LabelPlace}
    (hadd : s.add? o.round o.label = some (s', place)) :
    s'.Mirrors (members.filter (fun x => !(Offer.rivalry s.policy).dominates o x) ++ [o]) := by
  intro r stop
  rw [map_bestLabels_add? hs hstop hadd, h r stop, List.filter_append, List.map_append,
    List.filter_filter]
  by_cases hfor : o.isFor r stop = true
  · -- The list of the newcomer.
    obtain ⟨rfl, rfl⟩ := Offer.isFor_iff.mp hfor
    have hdominates : ∀ x ∈ members,
        (x.isFor o.round o.label.stop && !(Offer.rivalry s.policy).dominates o x) =
          (!decide (o.label.criteria.Dominates x.label.criteria) &&
            x.isFor o.round o.label.stop) := by
      intro x _
      rw [Bool.eq_iff_iff]
      simp only [Bool.and_eq_true, Bool.not_eq_true', Offer.isFor_iff, Bool.eq_false_iff, ne_eq,
        Offer.rivalry_dominates, decide_eq_true_eq, Offer.Precedes]
      constructor
      · intro hgiven
        obtain ⟨⟨hround, hxstop⟩, hkept⟩ := hgiven
        exact ⟨fun hdom => hkept ⟨⟨by omega, hxstop.symm⟩, hdom⟩, hround, hxstop⟩
      · intro hgiven
        obtain ⟨hkept, hxfor⟩ := hgiven
        exact ⟨hxfor, fun hdom => hkept hdom.2⟩
    rw [if_pos ⟨rfl, rfl⟩, List.filter_cons_of_pos hfor, List.filter_nil, List.filter_map,
      List.filter_filter, List.filter_congr hdominates]
    simp
  · -- Whoever the newcomer dominates has its stop and, as rounds do not go back, its round.
    have hother : ∀ x ∈ members,
        (x.isFor r stop && !(Offer.rivalry s.policy).dominates o x) = x.isFor r stop := by
      intro x hx
      cases hdominates : (Offer.rivalry s.policy).dominates o x with
      | false => rw [Bool.not_false, Bool.and_true]
      | true =>
          obtain ⟨⟨hround, hxstop⟩, -⟩ := Offer.rivalry_dominates.mp hdominates
          have heq : x.round = o.round := Nat.le_antisymm (hrounds x hx) hround
          rw [Bool.not_true, Bool.and_false, eq_comm, Bool.eq_false_iff]
          intro hxfor
          obtain ⟨rfl, rfl⟩ := Offer.isFor_iff.mp hxfor
          exact hfor (Offer.isFor_iff.mpr ⟨heq.symm, hxstop⟩)
    have hnot : ¬ (r = o.round ∧ o.label.stop = stop) :=
      fun hgiven => hfor (Offer.isFor_iff.mpr ⟨hgiven.1.symm, hgiven.2⟩)
    rw [if_neg hnot, List.filter_cons_of_neg hfor, List.filter_nil, List.map_nil,
      List.append_nil, List.filter_congr hother]

/-- Store and frontier take or refuse the same offers. -/
theorem Mirrors.offer (h : s.Mirrors members) (hs : s.Valid) (hstop : o.label.stop < s.stopCount)
    (hrounds : ∀ x ∈ members, x.round ≤ o.round) :
    (s.offer o.round o.label).Mirrors (Frontier.offer (Offer.rivalry s.policy) members o) := by
  rcases s.offer_cases o.round o.label with ⟨place, hadd⟩ | ⟨hrejects, hsame⟩
  · have hfree : ¬ ∃ x ∈ members, (Offer.rivalry s.policy).rejects x o = true := by
      rw [← h.rejects_iff, (add?_eq_some hadd).1]
      exact Bool.noConfusion
    rw [Frontier.offer_of_not_rejected hfree]
    exact h.add? hs hstop hrounds hadd
  · rw [hsame, Frontier.offer_of_rejected (h.rejects_iff.mp hrejects)]
    exact h

/-- As long as the rounds do not go back, the best labels are those of a frontier
of all offers. -/
theorem mirrors_ofOffers (hstops : ∀ o ∈ offers, o.label.stop < stopCount)
    (hrounds : offers.Pairwise fun a b => a.round ≤ b.round) :
    (ofOffers stopCount policy offers).Mirrors
      (Frontier.ofList (Offer.rivalry policy) offers) := by
  -- The induction adds offers at the end, where both sides take them.
  induction offers using List.reverseRecOn with
  | nil =>
      intro r stop
      show ((empty stopCount policy).bestLabels r stop).map Prod.snd = []
      rw [bestLabels_empty]
      rfl
  | append_singleton offers o ih =>
      obtain ⟨hbefore, -, hlast⟩ := List.pairwise_append.mp hrounds
      have hstops' : ∀ x ∈ offers, x.label.stop < stopCount :=
        fun x hx => hstops x (List.mem_append_left _ hx)
      have hstop : o.label.stop < stopCount :=
        hstops o (List.mem_append_right _ List.mem_cons_self)
      obtain ⟨hvalid, hcount, hpolicy⟩ := ofOffers_valid policy hstops'
      have hle : ∀ x ∈ Frontier.ofList (Offer.rivalry policy) offers, x.round ≤ o.round :=
        fun x hx => hlast x (Frontier.mem_of_mem_ofList hx) o List.mem_cons_self
      have hstep := (ih hstops' hbefore).offer hvalid (hcount.symm ▸ hstop) hle
      rw [hpolicy] at hstep
      rw [ofOffers_concat, Frontier.ofList_concat]
      exact hstep

/-! ## §4. The best labels read off the offers. -/

/-- Nothing offered for the stop, in the round of the offer in place `i` or an
earlier one, dominates its label, and nothing offered there before it has the
same criteria. -/
def Best (offers : List Offer) (o : Offer) (i : Nat) : Prop :=
  (∀ x ∈ offers, x.Precedes o → ¬ x.label.criteria.Dominates o.label.criteria) ∧
    ∀ x ∈ offers.take i, x.Precedes o → x.label.criteria ≠ o.label.criteria

instance (offers : List Offer) (o : Offer) (i : Nat) : Decidable (Best offers o i) :=
  inferInstanceAs (Decidable ((∀ x ∈ offers, _) ∧ ∀ x ∈ offers.take i, _))

/-- Under `keepAll` the frontier keeps the offers with the best labels. -/
theorem isKept_keepAll_iff {i : Nat} :
    Frontier.isKept (Offer.rivalry .keepAll) offers o i = true ↔ Best offers o i := by
  rw [Frontier.isKept_iff, Frontier.isUnbeaten_iff]
  simp only [Bool.eq_false_iff, ne_eq, Offer.rivalry_dominates, Offer.rivalry_rejects,
    Criteria.rejects_keepAll_iff, not_and, not_or, Best]
  constructor
  · intro h
    exact ⟨h.1, fun x hx hbefore => (h.2 x hx hbefore).2⟩
  · intro h
    exact ⟨h.1, fun x hx hbefore => ⟨h.1 x (List.mem_of_mem_take hx) hbefore, h.2 x hx hbefore⟩⟩

/-- Under `keepAll` the best labels of a stop in a round are exactly the labels
offered there that nothing offered for the stop up to that round, earlier or
later, dominates, and that came before their equals, in the order in which they
were offered. -/
theorem bestLabels_ofOffers_keepAll (hstops : ∀ o ∈ offers, o.label.stop < stopCount)
    (hrounds : offers.Pairwise fun a b => a.round ≤ b.round) (r stop : Nat) :
    ((ofOffers stopCount .keepAll offers).bestLabels r stop).map Prod.snd =
      (offers.zipIdx.filter fun p =>
        (p.1.round = r ∧ p.1.label.stop = stop) ∧ Best offers p.1 p.2).map (·.1.label) := by
  have hsame : ∀ p : Offer × Nat,
      (p.1.isFor r stop && Frontier.isKept (Offer.rivalry .keepAll) offers p.1 p.2) =
        decide ((p.1.round = r ∧ p.1.label.stop = stop) ∧ Best offers p.1 p.2) := by
    intro p
    rw [Bool.eq_iff_iff, Bool.and_eq_true, Offer.isFor_iff, isKept_keepAll_iff, decide_eq_true_iff]
  rw [mirrors_ofOffers hstops hrounds r stop,
    Frontier.ofList_eq_zipIdx_filter Offer.rivalry_keepAll_coherent, List.filter_map,
    List.filter_filter, List.map_map]
  simp only [Function.comp_def, hsame]

/-- Offers for one stop: the second overtakes the first, the third equals the
second, and the fourth, a round later, is later but cheaper. -/
def overtakingOffers : List Offer :=
  let offer (round : Nat) (seconds : Int) (cost : Int64) : Offer :=
    ⟨round, ⟨0, ⟨Time.saturate seconds, round, ⟨cost⟩, GroupSet.empty⟩, default, none⟩⟩
  [offer 0 60 10, offer 0 30 10, offer 0 30 10, offer 1 90 5]

theorem bestLabels_ofOffers_overtaking :
    (∀ o ∈ overtakingOffers, o.label.stop < 1) ∧
      (overtakingOffers.Pairwise fun a b => a.round ≤ b.round) ∧
      ((ofOffers 1 .keepAll overtakingOffers).bestLabels 0 0).map (·.2.arrival) =
        [Time.saturate 30] := by
  have hstops : ∀ o ∈ overtakingOffers, o.label.stop < 1 := by decide
  have hrounds : overtakingOffers.Pairwise fun a b => a.round ≤ b.round := by decide
  refine ⟨hstops, hrounds, ?_⟩
  have hbest := congrArg (List.map Label.arrival)
    (bestLabels_ofOffers_keepAll hstops hrounds 0 0)
  rw [List.map_map] at hbest
  exact hbest.trans (by decide)

end LabelStore

end TransitRouting
