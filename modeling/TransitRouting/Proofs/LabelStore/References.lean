/-
  TransitRouting.Proofs.LabelStore.References
  ───────────────────────────────────────────
  References to labels stay good.

  Riders and labels refer back to the label they came from: by its round, in 16
  bits, and by its place among the labels of the round, in 32.  In the meantime
  that label may be driven out or pruned, and more labels may come to its round,
  to later ones and to earlier ones.  None of this touches the place where it is
  kept: a label that is taken in comes to a place that was free, nothing else
  moves, and only clearing makes places free again.

  Main statements:

    • `LabelStore.labelStep_perform`, `FlaggedStore.labelStep_perform` — what one
      operation does to the labels, without flags and with them;
    • `gains_of_steps` — what any number of operations do to references;
    • `StoreOp.gains_references` — both stores keep every reference that they
      have given, and give none twice.
-/
import TransitRouting.Proofs.LabelStore.Reuse

namespace TransitRouting

/-! ## §1. References. -/

/-- A reference to a label, in 48 bits. -/
structure LabelRef where
  /-- The round in which the label was made. -/
  round : UInt16
  /-- Its place among the labels of that round. -/
  index : UInt32
deriving DecidableEq, Repr

/-- The place that is referred to. -/
def LabelRef.place (ref : LabelRef) : LabelPlace := ⟨ref.round.toNat, ref.index.toNat⟩

namespace LabelPlace

/-- The reference to a place.  Of numbers that are too large the low bits are left. -/
def ref (place : LabelPlace) : LabelRef := ⟨UInt16.ofNat place.round, UInt32.ofNat place.index⟩

/-- It makes no difference whether a label is numbered by 32 bits in the first place. -/
theorem ref_mod (round index : Nat) :
    (mk round (index % FlaggedRound.numberCount)).ref = (mk round index).ref := by
  unfold ref
  rw [show FlaggedRound.numberCount = 2 ^ 32 from rfl, UInt32.ofNat_mod_size]

/-- The bits suffice for the place. -/
def Fits (place : LabelPlace) : Prop :=
  place.round < UInt16.size ∧ place.index < UInt32.size

theorem Fits.place_ref {place : LabelPlace} (h : place.Fits) : place.ref.place = place := by
  unfold ref LabelRef.place
  rw [UInt16.toNat_ofNat_of_lt' h.1, UInt32.toNat_ofNat_of_lt' h.2]

/-- A place that fits has a reference of its own. -/
theorem Fits.place_eq_iff {place : LabelPlace} (h : place.Fits) {ref : LabelRef} :
    ref.place = place ↔ ref = place.ref := by
  constructor
  · rintro rfl
    simp [LabelPlace.ref, LabelRef.place]
  · rintro rfl
    exact h.place_ref

end LabelPlace

/-- What references lead to before something was done and after, where some references were
given, each for a label. -/
structure Gains (before after : LabelRef → Option Label) (given : List (LabelRef × Label)) :
    Prop where
  /-- Each of them leads to its label, and all others where they led before. -/
  eq_some_iff : ∀ ref l, after ref = some l ↔ before ref = some l ∨ (ref, l) ∈ given
  /-- None of them led anywhere before. -/
  fresh : ∀ e ∈ given, before e.1 = none
  /-- No two of them are the same. -/
  distinct : (given.map Prod.fst).Nodup

namespace Gains

variable {before mid after : LabelRef → Option Label} {given : List (LabelRef × Label)}

theorem refl (before : LabelRef → Option Label) : Gains before before [] where
  eq_some_iff := by simp
  fresh := by simp
  distinct := List.nodup_nil

/-- First one reference is given, then the others. -/
theorem cons (h : Gains mid after given) {ref : LabelRef} {l : Label} (hfree : before ref = none)
    (hmid : ∀ r, mid r = if r = ref then some l else before r) :
    Gains before after ((ref, l) :: given) where
  eq_some_iff := by
    intro r x
    rw [h.eq_some_iff, List.mem_cons, Prod.mk.injEq, hmid]
    by_cases hr : r = ref
    · subst hr
      simp [hfree, eq_comm]
    · simp [hr]
  fresh := by
    intro e he
    rcases List.mem_cons.mp he with rfl | he
    · exact hfree
    · have hnone := h.fresh e he
      rw [hmid] at hnone
      split at hnone
      · cases hnone
      · exact hnone
  distinct := by
    refine List.nodup_cons.mpr ⟨fun hmem => ?_, h.distinct⟩
    -- Given again, the reference would have led nowhere in the meantime.
    obtain ⟨e, he, heq⟩ := List.mem_map.mp hmem
    have hnone := h.fresh e he
    rw [heq, hmid, if_pos rfl] at hnone
    cases hnone

end Gains

/-! ## §2. One operation. -/

namespace LabelStore

variable {s s' : LabelStore}

/-- What a reference leads to. -/
def referent? (s : LabelStore) (ref : LabelRef) : Option Label := s.label? ref.place

theorem referent?_congr (h : ∀ p, s'.label? p = s.label? p) : s'.referent? = s.referent? :=
  funext fun ref => h ref.place

/-- The place for the next label of a round. -/
def nextPlace (s : LabelStore) (round : Nat) : LabelPlace :=
  ⟨round, (s.round round).labels.size⟩

/-- The next place is free. -/
theorem label?_nextPlace (s : LabelStore) (round : Nat) : s.label? (s.nextPlace round) = none := by
  rw [label?_eq]
  exact Array.getElem?_eq_none (Nat.le_refl _)

/-- Rounds that are reached without being written to change no label, and no place for one. -/
theorem label?_reach (s : LabelStore) (round : Nat) (place : LabelPlace) :
    (s.reach round).label? place = s.label? place := by
  rw [label?_eq, label?_eq, round_reach]

theorem nextPlace_reach (s : LabelStore) (reached round : Nat) :
    (s.reach reached).nextPlace round = s.nextPlace round := by
  unfold nextPlace
  rw [round_reach]

/-- From one store to another by an operation with its answer, as far as the labels are
concerned.  No label is forgotten. -/
inductive LabelStep (s s' : LabelStore) : StoreOp → StoreAnswer → Prop
  /-- A label comes to the next place of its round, and the reference to this place is given. -/
  | taken {o : Offer} {place : LabelPlace} (href : place.ref = (s.nextPlace o.round).ref)
      (hlabels : ∀ p, s'.label? p =
        if p = s.nextPlace o.round then some o.label else s.label? p) :
      LabelStep s s' (.offer o) (.offered (some place))
  /-- A label is refused. -/
  | refused {o : Offer} (hlabels : ∀ p, s'.label? p = s.label? p) :
      LabelStep s s' (.offer o) (.offered none)
  /-- Some labels are no longer best, but all are where they were. -/
  | pruned {round removed : Nat} (hlabels : ∀ p, s'.label? p = s.label? p) :
      LabelStep s s' (.prune round) (.pruned removed)

/-- Labels stay in their places. -/
theorem LabelStep.label?_of_some {op : StoreOp} {answer : StoreAnswer}
    (h : LabelStep s s' op answer) {place : LabelPlace} {l : Label}
    (hl : s.label? place = some l) : s'.label? place = some l := by
  cases h with
  | taken _ hlabels =>
      rw [hlabels, if_neg, hl]
      rintro rfl
      rw [label?_nextPlace] at hl
      cases hl
  | refused hlabels => rw [hlabels, hl]
  | pruned hlabels => rw [hlabels, hl]

theorem labelStep_perform (s : LabelStore) {op : StoreOp} (hop : op ≠ .clear) :
    LabelStep s (s.perform op) op (s.answer op) := by
  cases op with
  | offer o =>
      show LabelStep s (s.offer o.round o.label) _
        (.offered ((s.add? o.round o.label).map (·.2)))
      rcases s.offer_cases o.round o.label with ⟨place, hadd⟩ | ⟨hrejects, hsame⟩
      · obtain ⟨-, rfl, -⟩ := add?_eq_some hadd
        rw [hadd]
        exact .taken rfl (label?_add? hadd)
      · rw [add?_eq_none.mpr hrejects, hsame]
        exact .refused fun _ => rfl
  | prune round => exact .pruned (s.label?_prune round)
  | clear => exact absurd rfl hop

end LabelStore

namespace FlaggedStore

variable {s : FlaggedStore}

theorem label?_erase (s : FlaggedStore) (place : LabelPlace) :
    s.erase.label? place = (s.rounds[place.round]?).bind (·.round.labels[place.index]?) := by
  show ((s.rounds.map (·.round))[place.round]?).bind (·.labels[place.index]?) = _
  rw [List.getElem?_map, Option.bind_map]
  rfl

/-- The label of a round comes to its next place, and no other label moves. -/
theorem label?_modify {k : Nat} {r : FlaggedRound} (hr : s.rounds[k]? = some r) (l : Label)
    (place : LabelPlace) :
    ({ s with rounds := s.rounds.modify k (·.insert l) } : FlaggedStore).erase.label? place =
      if place = s.erase.nextPlace k then some l else s.erase.label? place := by
  rw [label?_erase, label?_erase, List.getElem?_modify]
  unfold LabelStore.nextPlace
  rw [round_erase hr]
  cases place with
  | mk round index =>
      by_cases hround : k = round
      · subst hround
        simp [hr, FlaggedRound.insert, Array.getElem?_push]
      · simp [hround, Ne.symm hround]

theorem labelStep_perform (s : FlaggedStore) {op : StoreOp} (hop : op ≠ .clear) :
    LabelStore.LabelStep s.erase (s.perform op).erase op (s.answer op) := by
  cases op with
  | offer o =>
      show LabelStore.LabelStep s.erase (s.add o.round o.label).1.erase _
        (.offered (s.add o.round o.label).2)
      unfold add
      split
      · exact .refused fun _ => rfl
      · -- The round is reached before the label comes in, which moves no label either.
        have hlt : o.round < (s.reach o.round).rounds.length := by
          rw [reach_length]
          omega
        refine .taken ?_ fun p => ?_
        · rw [LabelPlace.ref_mod, erase_reach, LabelStore.round_reach]
          rfl
        · rw [label?_modify (List.getElem?_eq_getElem hlt), erase_reach,
            LabelStore.nextPlace_reach, LabelStore.label?_reach]
  | prune round =>
      refine .pruned fun p => ?_
      show (s.prune round).erase.label? p = _
      rw [erase_prune, LabelStore.label?_prune]
  | clear => exact absurd rfl hop

end FlaggedStore

/-! ## §3. Any number of operations. -/

/-- The reference that an operation gives back, with the label that was offered for it. -/
def StoreOp.reference? : StoreOp → StoreAnswer → Option (LabelRef × Label)
  | .offer o, .offered (some place) => some (place.ref, o.label)
  | _, _ => none

/-- The references that operations give back, each with the label that was offered for it. -/
def referencesOf (ops : List StoreOp) (answers : List StoreAnswer) : List (LabelRef × Label) :=
  (ops.zip answers).filterMap fun e => e.1.reference? e.2

/-- Labels are offered to rounds that fit in references, and are never forgotten. -/
def StoreOp.Lasting : StoreOp → Prop
  | .offer o => o.round < UInt16.size
  | .prune _ => True
  | .clear => False

instance : (op : StoreOp) → Decidable op.Lasting
  | .offer o => Nat.decLt o.round UInt16.size
  | .prune _ => .isTrue trivial
  | .clear => .isFalse id

theorem StoreOp.Lasting.ne_clear {op : StoreOp} (h : op.Lasting) : op ≠ .clear := by
  rintro rfl
  exact h

section Machines

variable {σ : Type} (store : σ → LabelStore) {answer : σ → StoreOp → StoreAnswer}
  {perform : σ → StoreOp → σ} {ops : List StoreOp}

/-- Labels stay in their places. -/
theorem label?_of_steps
    (hstep : ∀ s {op}, op ≠ .clear → (store s).LabelStep (store (perform s op)) op (answer s op))
    (hops : ∀ op ∈ ops, op.Lasting) {s : σ} {place : LabelPlace} {l : Label}
    (hl : (store s).label? place = some l) :
    (store (ops.foldl perform s)).label? place = some l := by
  induction ops generalizing s with
  | nil => exact hl
  | cons op ops ih =>
      refine ih (fun x hx => hops x (List.mem_cons_of_mem _ hx)) ?_
      exact (hstep s (hops op List.mem_cons_self).ne_clear).label?_of_some hl

/-- References are given for the labels that are taken in, as long as there are not too many
labels for the bits of a reference. -/
theorem gains_of_steps
    (hstep : ∀ s {op}, op ≠ .clear → (store s).LabelStep (store (perform s op)) op (answer s op))
    (hops : ∀ op ∈ ops, op.Lasting) (s : σ)
    (hsize : ∀ k, ((store (ops.foldl perform s)).round k).labels.size < UInt32.size) :
    Gains (store s).referent? (store (ops.foldl perform s)).referent?
      (referencesOf ops (answersOf answer perform s ops)) := by
  -- The induction follows the operations: what the first one does, then the others.
  induction ops generalizing s with
  | nil => exact Gains.refl _
  | cons op ops ih =>
      have hrest : ∀ x ∈ ops, x.Lasting := fun x hx => hops x (List.mem_cons_of_mem _ hx)
      have hlasting := hops op List.mem_cons_self
      have hgains := ih hrest (perform s op) hsize
      have hkept {place : LabelPlace} {l : Label}
          (hl : (store (perform s op)).label? place = some l) :=
        label?_of_steps store hstep hrest hl
      have h := hstep s hlasting.ne_clear
      show Gains _ _ (((op, answer s op) :: ops.zip _).filterMap _)
      rw [List.filterMap_cons]
      generalize answer s op = given at h
      cases h with
      | @taken o place href hlabels =>
          have hnext : (store (perform s (.offer o))).label? ((store s).nextPlace o.round) =
              some o.label := by rw [hlabels, if_pos rfl]
          -- The label is still there at the end, so its place is one of those that are counted.
          have hfits : ((store s).nextPlace o.round).Fits :=
            ⟨hlasting, Nat.lt_trans (LabelStore.index_lt_of_label? (hkept hnext)) (hsize _)⟩
          show Gains _ _ ((place.ref, o.label) :: referencesOf ops _)
          rw [href]
          refine hgains.cons ?_ fun ref => ?_
          · unfold LabelStore.referent?
            rw [hfits.place_ref, LabelStore.label?_nextPlace]
          · unfold LabelStore.referent?
            rw [hlabels]
            simp only [hfits.place_eq_iff]
      | refused hlabels => exact LabelStore.referent?_congr hlabels ▸ hgains
      | pruned hlabels => exact LabelStore.referent?_congr hlabels ▸ hgains

end Machines

namespace LabelStore

/-- The references that operations on a store give back. -/
def references (s : LabelStore) (ops : List StoreOp) : List (LabelRef × Label) :=
  referencesOf ops (answersOf answer perform s ops)

end LabelStore

namespace FlaggedStore

/-- The references that operations on a store give back. -/
def references (s : FlaggedStore) (ops : List StoreOp) : List (LabelRef × Label) :=
  referencesOf ops (answersOf answer perform s ops)

end FlaggedStore

/-- Labels are offered and rounds are pruned, in any order, on any store.  If rounds and labels
can be numbered by the bits of references, then afterwards each reference that was given leads
to the label that was offered, whatever came after it and whether or not that label is still one
of the best; each older reference leads where it led before; and no two references that were
given are the same, and none is an older one.  This holds without flags and with them. -/
theorem StoreOp.gains_references {ops : List StoreOp} (hops : ∀ op ∈ ops, op.Lasting) :
    (∀ s : LabelStore,
      (∀ k, ((ops.foldl LabelStore.perform s).round k).labels.size < UInt32.size) →
        Gains s.referent? (ops.foldl LabelStore.perform s).referent? (s.references ops)) ∧
      ∀ s : FlaggedStore,
        (∀ k, ((ops.foldl FlaggedStore.perform s).erase.round k).labels.size < UInt32.size) →
          Gains s.erase.referent? (ops.foldl FlaggedStore.perform s).erase.referent?
            (s.references ops) := by
  refine ⟨fun s hsize => ?_, fun s hsize => ?_⟩
  · exact gains_of_steps id LabelStore.labelStep_perform hops s hsize
  · exact gains_of_steps FlaggedStore.erase FlaggedStore.labelStep_perform hops s hsize

/-- An arrival at stop 0 is offered to a round. -/
def StoreOp.arrival (round : Nat) (seconds : Int) : StoreOp :=
  .offer ⟨round, ⟨0, ⟨Time.saturate seconds, 0, ⟨10⟩, GroupSet.empty⟩, default, none⟩⟩

/-- Labels that lose their rank: the second arrival drives out the first, and is pruned when
the third one, of an earlier round, has overtaken it. -/
def overtakenOps : List StoreOp :=
  [.arrival 1 60, .arrival 1 30, .arrival 0 10, .prune 1]

/-- No label of round 1 is one of the best any more, and yet all references are good. -/
theorem StoreOp.gains_references_overtaken :
    let s := LabelStore.empty 1 .firstFound
    let after := overtakenOps.foldl LabelStore.perform s
    let flagged := FlaggedStore.empty 1 .firstFound
    let afterFlagged := overtakenOps.foldl FlaggedStore.perform flagged
    (∀ op ∈ overtakenOps, op.Lasting) ∧
      (∀ k, (after.round k).labels.size < UInt32.size) ∧
      after.bestLabels 1 0 = [] ∧
      (s.references overtakenOps).map (fun e => (e.1, e.2.arrival.seconds)) =
        [(⟨1, 0⟩, 60), (⟨1, 1⟩, 30), (⟨0, 0⟩, 10)] ∧
      (∀ e ∈ s.references overtakenOps, after.referent? e.1 = some e.2) ∧
      (∀ k, (afterFlagged.erase.round k).labels.size < UInt32.size) ∧
      (∀ e ∈ flagged.references overtakenOps, afterFlagged.erase.referent? e.1 = some e.2) := by
  intro s after flagged afterFlagged
  have hlasting : ∀ op ∈ overtakenOps, op.Lasting := by decide
  have hwithin : ∀ op ∈ overtakenOps, op.Within 1 := by decide
  have hsize : ∀ k, (after.round k).labels.size < UInt32.size := fun k =>
    Nat.lt_of_le_of_lt ((LabelStore.inOrder_ofOps .firstFound hwithin).2.2.2 k) (by decide)
  have herase : afterFlagged.erase = after := (FlaggedStore.erase_ofOps hwithin (by decide)).2
  have hsizeFlagged : ∀ k, (afterFlagged.erase.round k).labels.size < UInt32.size := by
    rw [herase]
    exact hsize
  obtain ⟨hplain, hflagged⟩ := gains_references hlasting
  refine ⟨hlasting, hsize, by decide, by decide, fun e he => ?_, hsizeFlagged, fun e he => ?_⟩
  · exact ((hplain s hsize).eq_some_iff e.1 e.2).mpr (Or.inr he)
  · exact ((hflagged flagged hsizeFlagged).eq_some_iff e.1 e.2).mpr (Or.inr he)

/-- Clearing frees the places, so a reference from before it may be given again. -/
example : ((LabelStore.empty 1 .firstFound).references
    [.arrival 0 10, .clear, .arrival 0 20]).map Prod.fst = [⟨0, 0⟩, ⟨0, 0⟩] := by decide

end TransitRouting
