/-
  TransitRouting.Proofs.Frontier
  ──────────────────────────────
  What becomes of the candidates that are offered to a frontier.

  A member may leave again, but only for a newcomer that dominates it.  As long
  as dominance is transitive, whatever was a member once is therefore answered
  for ever: it is still a member, or a member dominates it.

  Main statements:

    • `Frontier.answers_or_rejected` — every candidate is answered in the end,
      or an earlier one that is answered rejected it;
    • `Frontier.ofList_eq_zipIdx_filter` — if losing is handed on, the frontier
      is the candidates that none dominates and none before them rejects, in the
      order in which they came;
    • `Frontier.ofList_filter` — candidates from outside a class to which nobody
      in it loses do not change what is kept of the class;
    • `Frontier.inOrder_ofList` — no member dominates an earlier one or is rejected
      by it;
    • `Frontier.ofList_strict` — it does not matter whether a newcomer makes its
      equals leave, for these would have rejected it.
-/
import Mathlib.Data.List.Induction
import TransitRouting.Frontier

namespace TransitRouting

/-- Losing is handed on: whoever loses to a candidate loses to all that this one
loses to. -/
structure Rivalry.Coherent {α : Type} (r : Rivalry α) : Prop where
  /-- None dominates itself. -/
  irrefl : ∀ a, r.dominates a a = false
  /-- Dominance rejects. -/
  rejects_of_dominates : ∀ {a b}, r.dominates a b = true → r.rejects a b = true
  /-- Rejection is handed on. -/
  rejects_trans : ∀ {a b c}, r.rejects a b = true → r.rejects b c = true → r.rejects a c = true
  /-- What a candidate dominates, those that reject it dominate. -/
  dominates_of_rejects : ∀ {a b c}, r.rejects a b = true → r.dominates b c = true →
    r.dominates a c = true

theorem Rivalry.Coherent.dominates_trans {α : Type} {r : Rivalry α} (h : r.Coherent) {a b c : α}
    (hab : r.dominates a b = true) (hbc : r.dominates b c = true) : r.dominates a c = true :=
  h.dominates_of_rejects (h.rejects_of_dominates hab) hbc

/-- The same rivalry, but those stay that would have rejected the newcomer. -/
def Rivalry.strict {α : Type} (r : Rivalry α) : Rivalry α :=
  { dominates := fun a b => r.dominates a b && !r.rejects b a, rejects := r.rejects }

/-- If whoever is as good as another rejects it and makes it leave, losing to one that is
better is handed on. -/
theorem Rivalry.coherent_strict {α : Type} {r : Rivalry α} (hsame : r.rejects = r.dominates)
    (hrefl : ∀ a, r.dominates a a = true)
    (htrans : ∀ {a b c}, r.dominates a b = true → r.dominates b c = true →
      r.dominates a c = true) : r.strict.Coherent := by
  refine ⟨?_, ?_, ?_, ?_⟩
  · intro a
    simp [strict, hsame, hrefl]
  · intro a b hab
    simp only [strict, hsame, Bool.and_eq_true] at hab ⊢
    exact hab.1
  · intro a b c hab hbc
    simp only [strict, hsame] at hab hbc ⊢
    exact htrans hab hbc
  · intro a b c hab hbc
    simp only [strict, hsame, Bool.and_eq_true, Bool.not_eq_true'] at hab hbc ⊢
    refine ⟨htrans hab hbc.1, Bool.eq_false_iff.mpr fun hca => ?_⟩
    -- Otherwise the third would be as good as the second.
    have hcb := htrans hca hab
    rw [hbc.2] at hcb
    cases hcb

namespace Frontier

variable {α : Type} {r : Rivalry α} {kept candidates : List α} {x y : α}

/-! ## §1. One offer. -/

theorem offer_of_rejected (h : ∃ y ∈ kept, r.rejects y x = true) : offer r kept x = kept := by
  unfold offer
  rw [(offer?_eq_none_iff r).mpr h]
  rfl

theorem offer_of_not_rejected (h : ¬ ∃ y ∈ kept, r.rejects y x = true) :
    offer r kept x = kept.filter (fun y => !r.dominates x y) ++ [x] := by
  have hany : ¬ kept.any (r.rejects · x) = true := fun hany => h (List.any_eq_true.mp hany)
  unfold offer offer?
  rw [if_neg hany]
  rfl

theorem mem_offer (h : y ∈ offer r kept x) : y = x ∨ y ∈ kept := by
  by_cases hrejected : ∃ y ∈ kept, r.rejects y x = true
  · rw [offer_of_rejected hrejected] at h
    exact Or.inr h
  · rw [offer_of_not_rejected hrejected] at h
    rcases List.mem_append.mp h with h | h
    · exact Or.inr (List.mem_filter.mp h).1
    · exact Or.inl (List.mem_singleton.mp h)

/-- Whoever is offered is a member then, unless a member rejects it. -/
theorem mem_offer_self (h : ¬ ∃ y ∈ kept, r.rejects y x = true) : x ∈ offer r kept x := by
  rw [offer_of_not_rejected h]
  exact List.mem_append_right _ List.mem_cons_self

/-- A member stays unless the newcomer dominates it. -/
theorem mem_offer_of_not_dominates (hy : y ∈ kept) (h : r.dominates x y = false) :
    y ∈ offer r kept x := by
  by_cases hrejected : ∃ y ∈ kept, r.rejects y x = true
  · rw [offer_of_rejected hrejected]
    exact hy
  · rw [offer_of_not_rejected hrejected]
    exact List.mem_append_left _ (List.mem_filter.mpr ⟨hy, by rw [h]; rfl⟩)

/-- The frontier after one more candidate. -/
theorem ofList_concat (candidates : List α) (x : α) :
    ofList r (candidates ++ [x]) = offer r (ofList r candidates) x := by
  unfold ofList
  rw [List.foldl_append, List.foldl_cons, List.foldl_nil]

/-- The frontier makes no members. -/
theorem mem_of_mem_foldl (h : y ∈ candidates.foldl (offer r) kept) :
    y ∈ kept ∨ y ∈ candidates := by
  induction candidates generalizing kept with
  | nil => exact Or.inl h
  | cons x rest ih =>
      rcases ih h with hkept | hrest
      · rcases mem_offer hkept with rfl | hkept
        · exact Or.inr List.mem_cons_self
        · exact Or.inl hkept
      · exact Or.inr (List.mem_cons_of_mem _ hrest)

theorem mem_of_mem_ofList (h : x ∈ ofList r candidates) : x ∈ candidates :=
  (mem_of_mem_foldl h).resolve_left List.not_mem_nil

/-- Whatever is offered, somebody is kept. -/
theorem exists_mem_ofList (h : candidates ≠ []) : ∃ y, y ∈ ofList r candidates := by
  obtain ⟨before, x, rfl⟩ := (List.eq_nil_or_concat candidates).resolve_left h
  rw [List.concat_eq_append, ofList_concat]
  by_cases hrejected : ∃ y ∈ ofList r before, r.rejects y x = true
  · rw [offer_of_rejected hrejected]
    obtain ⟨y, hy, -⟩ := hrejected
    exact ⟨y, hy⟩
  · exact ⟨x, mem_offer_self hrejected⟩

/-- One candidate alone is kept. -/
theorem ofList_of_length_le_one (h : candidates.length ≤ 1) : ofList r candidates = candidates := by
  match candidates, h with
  | [], _ => rfl
  | [x], _ =>
      show offer r [] x = [] ++ [x]
      exact offer_of_not_rejected (by simp)

/-! ## §2. Members in order. -/

/-- No member dominates one that came before it, and none is rejected by such a one. -/
def InOrder (r : Rivalry α) (kept : List α) : Prop :=
  kept.Pairwise fun a b => r.dominates b a = false ∧ r.rejects a b = false

/-- Whoever joins comes last, is rejected by nobody, and those that it dominates leave. -/
theorem InOrder.offer (h : InOrder r kept) (x : α) : InOrder r (Frontier.offer r kept x) := by
  by_cases hrejected : ∃ y ∈ kept, r.rejects y x = true
  · rw [offer_of_rejected hrejected]
    exact h
  · rw [offer_of_not_rejected hrejected]
    refine List.pairwise_append.mpr ⟨h.filter _, List.pairwise_singleton _ _, ?_⟩
    intro y hy newcomer hnewcomer
    obtain rfl := List.mem_singleton.mp hnewcomer
    obtain ⟨hmem, hstays⟩ := List.mem_filter.mp hy
    refine ⟨by simpa using hstays, ?_⟩
    exact Bool.eq_false_iff.mpr fun hrejects => hrejected ⟨y, hmem, hrejects⟩

theorem inOrder_ofList (r : Rivalry α) (candidates : List α) : InOrder r (ofList r candidates) := by
  unfold ofList
  refine List.foldlRecOn (motive := InOrder r) _ _ List.Pairwise.nil ?_
  intro kept hkept x _
  exact hkept.offer x

/-! ## §3. Candidates stay answered. -/

/-- A member is the candidate or dominates it. -/
def Answers (r : Rivalry α) (kept : List α) (x : α) : Prop :=
  ∃ y ∈ kept, y = x ∨ r.dominates y x = true

/-- If only dominance rejects, a candidate is answered when it has been offered. -/
theorem answers_offer (hrejects : r.rejects = r.dominates) (kept : List α) (x : α) :
    Answers r (offer r kept x) x := by
  by_cases hrejected : ∃ y ∈ kept, r.rejects y x = true
  · rw [offer_of_rejected hrejected]
    obtain ⟨y, hy, hyx⟩ := hrejected
    rw [hrejects] at hyx
    exact ⟨y, hy, Or.inr hyx⟩
  · exact ⟨x, mem_offer_self hrejected, Or.inl rfl⟩

variable (htrans : ∀ {a b c : α}, r.dominates a b = true → r.dominates b c = true →
  r.dominates a c = true)

include htrans

/-- If the member that answers leaves, the newcomer answers. -/
theorem Answers.offer (h : Answers r kept x) (c : α) : Answers r (offer r kept c) x := by
  obtain ⟨y, hy, hyx⟩ := h
  by_cases hrejected : ∃ y ∈ kept, r.rejects y c = true
  · rw [offer_of_rejected hrejected]
    exact ⟨y, hy, hyx⟩
  · cases hcy : r.dominates c y with
    | false => exact ⟨y, mem_offer_of_not_dominates hy hcy, hyx⟩
    | true =>
        refine ⟨c, mem_offer_self hrejected, Or.inr ?_⟩
        rcases hyx with rfl | hyx
        · exact hcy
        · exact htrans hcy hyx

theorem Answers.foldl (h : Answers r kept x) (candidates : List α) :
    Answers r (candidates.foldl (Frontier.offer r) kept) x := by
  induction candidates generalizing kept with
  | nil => exact h
  | cons c rest ih => exact ih (h.offer htrans c)

/-- A candidate is answered in the end, unless one that came before it rejected
it.  That one is answered in the end. -/
theorem answers_or_rejected (before after : List α) (x : α) :
    Answers r (ofList r (before ++ x :: after)) x ∨
      ∃ held ∈ before, r.rejects held x = true ∧
        Answers r (ofList r (before ++ x :: after)) held := by
  have hfold : ofList r (before ++ x :: after) =
      after.foldl (Frontier.offer r) (Frontier.offer r (ofList r before) x) := by
    unfold ofList
    rw [List.foldl_append, List.foldl_cons]
  rw [hfold]
  by_cases hrejected : ∃ held ∈ ofList r before, r.rejects held x = true
  · -- The candidate is turned away, but the member that did so is there to answer.
    right
    obtain ⟨held, hheld, hrejects⟩ := hrejected
    have hnow : Answers r (ofList r before) held := ⟨held, hheld, Or.inl rfl⟩
    exact ⟨held, mem_of_mem_ofList hheld, hrejects, (hnow.offer htrans x).foldl htrans after⟩
  · left
    have hnow : Answers r (Frontier.offer r (ofList r before) x) x :=
      ⟨x, mem_offer_self hrejected, Or.inl rfl⟩
    exact hnow.foldl htrans after

/-- A candidate that is missing in the end is rejected by a member, if whoever
dominates one that rejected it rejects it as well. -/
theorem exists_rejects_of_missing
    (hdominates : ∀ {a b : α}, r.dominates a b = true → r.rejects a b = true)
    {before after : List α} {x : α} (hx : x ∉ ofList r (before ++ x :: after))
    (hties : ∀ held ∈ before, r.rejects held x = true →
      ∀ y ∈ ofList r (before ++ x :: after), r.dominates y held = true →
        r.rejects y x = true) :
    ∃ y ∈ ofList r (before ++ x :: after), r.rejects y x = true := by
  rcases answers_or_rejected htrans before after x with
    ⟨y, hy, hyx⟩ | ⟨held, hheld, hrejects, y, hy, hyheld⟩
  · -- The candidate was taken in and had to leave again.
    rcases hyx with rfl | hyx
    · exact absurd hy hx
    · exact ⟨y, hy, hdominates hyx⟩
  · -- The candidate was rejected by one that came before it.
    rcases hyheld with rfl | hyheld
    · exact ⟨y, hy, hrejects⟩
    · exact ⟨y, hy, hties held hheld hrejects y hy hyheld⟩

/-- If only dominance rejects, every candidate is answered in the end. -/
theorem answers_foldl_of_mem (hrejects : r.rejects = r.dominates) (hx : x ∈ candidates)
    (kept : List α) : Answers r (candidates.foldl (Frontier.offer r) kept) x := by
  obtain ⟨before, after, rfl⟩ := List.append_of_mem hx
  rw [List.foldl_append, List.foldl_cons]
  exact (answers_offer hrejects _ x).foldl htrans after

theorem answers_of_mem (hrejects : r.rejects = r.dominates) (hx : x ∈ candidates) :
    Answers r (ofList r candidates) x :=
  answers_foldl_of_mem htrans hrejects hx []

/-! ## §4. The frontier as a filter. -/

omit htrans

/-- No candidate dominates it. -/
def isUnbeaten (r : Rivalry α) (candidates : List α) (x : α) : Bool :=
  !candidates.any (r.dominates · x)

theorem isUnbeaten_iff :
    isUnbeaten r candidates x = true ↔ ∀ y ∈ candidates, r.dominates y x = false := by
  simp [isUnbeaten]

theorem isUnbeaten_concat (candidates : List α) (c x : α) :
    isUnbeaten r (candidates ++ [c]) x =
      (isUnbeaten r candidates x && !r.dominates c x) := by
  unfold isUnbeaten
  rw [List.any_append, List.any_cons, List.any_nil, Bool.or_false, Bool.not_or]

theorem not_isUnbeaten_of_dominates (hy : y ∈ candidates) (h : r.dominates y x = true) :
    ¬ isUnbeaten r candidates x = true := by
  intro hfree
  have hnot := isUnbeaten_iff.mp hfree y hy
  exact Bool.noConfusion (hnot.symm.trans h)

/-- No candidate dominates the one in place `i`, and none before it rejects it. -/
def isKept (r : Rivalry α) (candidates : List α) (x : α) (i : Nat) : Bool :=
  isUnbeaten r candidates x && !(candidates.take i).any (r.rejects · x)

theorem isKept_iff {i : Nat} :
    isKept r candidates x i = true ↔
      isUnbeaten r candidates x = true ∧ ∀ y ∈ candidates.take i, r.rejects y x = false := by
  simp [isKept]

/-- For candidates that came before, the newcomer matters only if it dominates
them. -/
theorem isKept_concat_of_le {i : Nat} (hi : i ≤ candidates.length) (c x : α) :
    isKept r (candidates ++ [c]) x i = (isKept r candidates x i && !r.dominates c x) := by
  unfold isKept
  rw [isUnbeaten_concat, List.take_append_of_le_length hi, Bool.and_assoc, Bool.and_assoc,
    Bool.and_comm (!r.dominates c x)]

/-- Whoever is rejected by a candidate is rejected by a member. -/
theorem exists_rejects_of_mem (hr : r.Coherent) {z : α} (hz : z ∈ candidates)
    (hzx : r.rejects z x = true) : ∃ y ∈ ofList r candidates, r.rejects y x = true := by
  obtain ⟨before, after, rfl⟩ := List.append_of_mem hz
  -- Whoever answers a candidate rejects what the candidate rejects.
  have hanswers : ∀ {held : α}, Answers r (ofList r (before ++ z :: after)) held →
      r.rejects held x = true →
      ∃ y ∈ ofList r (before ++ z :: after), r.rejects y x = true := by
    intro held hheld hrejects
    obtain ⟨y, hy, rfl | hyheld⟩ := hheld
    · exact ⟨y, hy, hrejects⟩
    · exact ⟨y, hy, hr.rejects_trans (hr.rejects_of_dominates hyheld) hrejects⟩
  rcases answers_or_rejected hr.dominates_trans before after z with h | ⟨held, -, hheldz, h⟩
  · exact hanswers h hzx
  · exact hanswers h (hr.rejects_trans hheldz hzx)

/-- Those candidates are kept that none dominates and none before them rejects,
in the order in which they came. -/
theorem ofList_eq_zipIdx_filter (hr : r.Coherent) (candidates : List α) :
    ofList r candidates =
      (candidates.zipIdx.filter fun p => isKept r candidates p.1 p.2).map Prod.fst := by
  -- The induction adds candidates at the end, where the frontier takes them.
  induction candidates using List.reverseRecOn with
  | nil => rfl
  | append_singleton candidates c ih =>
      have hbefore : ∀ p ∈ candidates.zipIdx, isKept r (candidates ++ [c]) p.1 p.2 =
          (isKept r candidates p.1 p.2 && !r.dominates c p.1) := by
        intro p hp
        have hlt := List.snd_lt_of_mem_zipIdx hp
        exact isKept_concat_of_le (by omega) c p.1
      rw [ofList_concat, List.zipIdx_append, List.filter_append, List.map_append,
        List.filter_congr hbefore]
      by_cases hrejected : ∃ y ∈ ofList r candidates, r.rejects y c = true
      · obtain ⟨y, hy, hyc⟩ := id hrejected
        have hy' := mem_of_mem_ofList hy
        have hc : ¬ isKept r (candidates ++ [c]) c candidates.length = true := by
          intro hkept
          have hnot := (isKept_iff.mp hkept).2 y (by rw [List.take_left]; exact hy')
          exact Bool.noConfusion (hnot.symm.trans hyc)
        -- Whatever the newcomer dominates is dominated by the member that rejects it.
        have hsame : ∀ p ∈ candidates.zipIdx,
            (isKept r candidates p.1 p.2 && !r.dominates c p.1) = isKept r candidates p.1 p.2 := by
          intro p _
          cases hcp : r.dominates c p.1 with
          | false => rw [Bool.not_false, Bool.and_true]
          | true =>
              have hyp := hr.dominates_of_rejects hyc hcp
              rw [Bool.not_true, Bool.and_false, eq_comm, Bool.eq_false_iff]
              exact fun hkept => not_isUnbeaten_of_dominates hy' hyp (isKept_iff.mp hkept).1
        rw [offer_of_rejected hrejected, List.filter_congr hsame, ih]
        simp [hc]
      · -- No candidate rejects the newcomer, for then a member would.
        have hfree : ∀ z ∈ candidates, r.rejects z c = false := by
          intro z hz
          refine Bool.eq_false_iff.mpr fun hzc => hrejected ?_
          exact exists_rejects_of_mem hr hz hzc
        have hc : isKept r (candidates ++ [c]) c candidates.length = true := by
          refine isKept_iff.mpr ⟨isUnbeaten_iff.mpr ?_, ?_⟩
          · intro z hz
            rcases List.mem_append.mp hz with hz | hz
            · refine Bool.eq_false_iff.mpr fun hzc => ?_
              exact Bool.noConfusion ((hfree z hz).symm.trans (hr.rejects_of_dominates hzc))
            · rw [List.mem_singleton.mp hz]
              exact hr.irrefl c
          · intro z hz
            rw [List.take_left] at hz
            exact hfree z hz
        rw [offer_of_not_rejected hrejected, ih, List.filter_map, List.filter_filter]
        simp [hc, Bool.and_comm]

/-- If only dominance rejects, the candidates that none dominates are kept, in
the order in which they came. -/
theorem ofList_eq_filter (htrans : ∀ {a b c : α}, r.dominates a b = true →
      r.dominates b c = true → r.dominates a c = true)
    (hirrefl : ∀ a, r.dominates a a = false) (hrejects : r.rejects = r.dominates)
    (candidates : List α) :
    ofList r candidates = candidates.filter (isUnbeaten r candidates) := by
  have hr : r.Coherent := by
    refine ⟨hirrefl, ?_, ?_, ?_⟩
    · intro a b hab
      rw [hrejects]
      exact hab
    · rw [hrejects]
      exact htrans
    · rw [hrejects]
      exact htrans
  have hkept : ∀ p : α × Nat, isKept r candidates p.1 p.2 = isUnbeaten r candidates p.1 := by
    intro p
    rw [Bool.eq_iff_iff, isKept_iff, and_iff_left_iff_imp]
    intro hfree y hy
    rw [hrejects]
    exact isUnbeaten_iff.mp hfree y (List.mem_of_mem_take hy)
  rw [ofList_eq_zipIdx_filter hr]
  simp only [hkept]
  show (candidates.zipIdx.filter (isUnbeaten r candidates ∘ Prod.fst)).map Prod.fst = _
  rw [← List.filter_map, List.zipIdx_map_fst]

/-! ## §5. Classes that are closed under losing. -/

variable {p : α → Bool}

/-- If whoever dominates a member of a class is in the class, a newcomer from
outside changes nothing in the class. -/
theorem filter_offer_of_neg (hdominates : ∀ {a b}, r.dominates a b = true → p b = true → p a = true)
    (hx : ¬ p x = true) : (offer r kept x).filter p = kept.filter p := by
  by_cases hbeaten : ∃ y ∈ kept, r.rejects y x = true
  · rw [offer_of_rejected hbeaten]
  · rw [offer_of_not_rejected hbeaten, List.filter_append, List.filter_cons_of_neg hx,
      List.filter_nil, List.append_nil, List.filter_filter]
    -- Those that leave are outside of the class as well.
    refine List.filter_congr fun y _ => ?_
    cases hxy : r.dominates x y with
    | false => rw [Bool.not_false, Bool.and_true]
    | true =>
        rw [Bool.not_true, Bool.and_false, eq_comm, Bool.eq_false_iff]
        exact fun hy => hx (hdominates hxy hy)

/-- If whoever rejects a member of a class is in the class, for a newcomer from
inside only the class matters. -/
theorem filter_offer_of_pos (hrejects : ∀ {a b}, r.rejects a b = true → p b = true → p a = true)
    (hx : p x = true) : (offer r kept x).filter p = offer r (kept.filter p) x := by
  by_cases hbeaten : ∃ y ∈ kept, r.rejects y x = true
  · rw [offer_of_rejected hbeaten]
    obtain ⟨y, hy, hyx⟩ := hbeaten
    exact (offer_of_rejected ⟨y, List.mem_filter.mpr ⟨hy, hrejects hyx hx⟩, hyx⟩).symm
  · have hbeaten' : ¬ ∃ y ∈ kept.filter p, r.rejects y x = true :=
      fun ⟨y, hy, hyx⟩ => hbeaten ⟨y, (List.mem_filter.mp hy).1, hyx⟩
    rw [offer_of_not_rejected hbeaten, offer_of_not_rejected hbeaten', List.filter_append,
      List.filter_cons_of_pos hx, List.filter_nil, List.filter_filter, List.filter_filter]
    simp only [Bool.and_comm]

/-- Newcomers from outside a class change nothing in it. -/
theorem filter_foldl_of_neg (hdominates : ∀ {a b}, r.dominates a b = true → p b = true → p a = true)
    (h : ∀ x ∈ candidates, ¬ p x = true) :
    (candidates.foldl (offer r) kept).filter p = kept.filter p := by
  induction candidates generalizing kept with
  | nil => rfl
  | cons x rest ih =>
      rw [List.foldl_cons, ih fun y hy => h y (List.mem_cons_of_mem _ hy)]
      exact filter_offer_of_neg hdominates (h x List.mem_cons_self)

/-- Candidates from outside a class do not change what is kept of the class. -/
theorem ofList_filter (hdominates : ∀ {a b}, r.dominates a b = true → p b = true → p a = true)
    (hrejects : ∀ {a b}, r.rejects a b = true → p b = true → p a = true) (candidates : List α) :
    ofList r (candidates.filter p) = (ofList r candidates).filter p := by
  induction candidates using List.reverseRecOn with
  | nil => rfl
  | append_singleton candidates c ih =>
      rw [ofList_concat, List.filter_append]
      by_cases hc : p c = true
      · rw [List.filter_cons_of_pos hc, List.filter_nil, ofList_concat, ih,
          filter_offer_of_pos hrejects hc]
      · rw [List.filter_cons_of_neg hc, List.filter_nil, List.append_nil, ih,
          filter_offer_of_neg hdominates hc]

/-! ## §6. Newcomers and their equals. -/

/-- Nobody who would reject the newcomer is there when it makes others leave. -/
theorem offer_strict (r : Rivalry α) (kept : List α) (x : α) :
    offer r.strict kept x = offer r kept x := by
  by_cases hrejected : ∃ y ∈ kept, r.rejects y x = true
  · rw [offer_of_rejected hrejected]
    exact offer_of_rejected hrejected
  · rw [offer_of_not_rejected hrejected]
    have hstrict : offer r.strict kept x =
        kept.filter (fun y => !(r.dominates x y && !r.rejects y x)) ++ [x] :=
      offer_of_not_rejected hrejected
    rw [hstrict]
    congr 1
    refine List.filter_congr fun y hy => ?_
    have hfree : r.rejects y x = false :=
      Bool.eq_false_iff.mpr fun hrejects => hrejected ⟨y, hy, hrejects⟩
    rw [hfree, Bool.not_false, Bool.and_true]

theorem ofList_strict (r : Rivalry α) (candidates : List α) :
    ofList r.strict candidates = ofList r candidates := by
  have hsame : offer r.strict = offer r := funext fun kept => funext (offer_strict r kept)
  unfold ofList
  rw [hsame]

end Frontier

end TransitRouting
