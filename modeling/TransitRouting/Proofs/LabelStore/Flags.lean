/-
  TransitRouting.Proofs.LabelStore.Flags
  ──────────────────────────────────────
  A store that keeps a flag for each stop and numbers labels in 32 bits.

  Whether a stop of a round is touched can be looked up in the list of touched
  stops, or faster in a table of flags.  The flags and the list are written to
  separately: a label that comes in sets a flag, pruning resets those of stops
  that are left without labels, and clearing resets those that it finds in the
  list.  They stay in step, so the flags can be forgotten, and the numbers do
  not run over as long as there are fewer than 2³² operations.

  Main statements:

    • `FlaggedRound.InStep.insert`, `FlaggedRound.InStep.prune`,
      `FlaggedRound.InStep.clear` — flags and list stay in step;
    • `FlaggedStore.erase_perform` — without its flags the store does what a
      store without flags does;
    • `FlaggedStore.ofOps_sound` — what every sequence of operations keeps.
-/
import TransitRouting.Proofs.LabelStore.Operations

namespace TransitRouting

/-! ## §1. Flags. -/

/-- The table with new flags for some stops. -/
def setFlags (flags : Array Bool) (stops : List Nat) (value : Nat → Bool) : Array Bool :=
  stops.foldl (fun flags stop => flags.setIfInBounds stop (value stop)) flags

@[simp] theorem size_setFlags (flags : Array Bool) (stops : List Nat) (value : Nat → Bool) :
    (setFlags flags stops value).size = flags.size := by
  unfold setFlags
  induction stops generalizing flags with
  | nil => rfl
  | cons stop stops ih => rw [List.foldl_cons, ih, Array.size_setIfInBounds]

theorem getD_setIfInBounds {flags : Array Bool} {stop : Nat} (hstop : stop < flags.size)
    (value : Bool) (other : Nat) :
    (flags.setIfInBounds stop value).getD other false =
      if stop = other then value else flags.getD other false := by
  rw [Array.getD_eq_getD_getElem?, Array.getD_eq_getD_getElem?, Array.getElem?_setIfInBounds]
  split
  · rfl
  · rfl

theorem getD_setFlags {flags : Array Bool} {stops : List Nat}
    (hstops : ∀ stop ∈ stops, stop < flags.size) (value : Nat → Bool) (stop : Nat) :
    (setFlags flags stops value).getD stop false =
      if stop ∈ stops then value stop else flags.getD stop false := by
  unfold setFlags
  induction stops generalizing flags with
  | nil => rfl
  | cons first stops ih =>
      have hfirst := hstops first List.mem_cons_self
      rw [List.foldl_cons, ih fun k hk => by
        rw [Array.size_setIfInBounds]
        exact hstops k (List.mem_cons_of_mem _ hk)]
      rw [getD_setIfInBounds hfirst]
      by_cases hmem : stop ∈ stops
      · simp [hmem]
      · by_cases heq : first = stop
        · simp [heq]
        · simp [hmem, heq, Ne.symm heq]

/-! ## §2. Rounds with flags. -/

/-- A round, and for each stop whether it is touched. -/
structure FlaggedRound where
  /-- The round. -/
  round : Round
  /-- The flags, by stop. -/
  flags : Array Bool
deriving Inhabited

namespace FlaggedRound

/-- How many labels of a round can be told apart by 32 bits. -/
def numberCount : Nat := 4294967296

/-- A round without labels. -/
def empty (stopCount : Nat) : FlaggedRound :=
  ⟨Round.empty stopCount, Array.replicate stopCount false⟩

/-- The flag of a stop. -/
def isFlagged (r : FlaggedRound) (stop : Nat) : Bool := r.flags.getD stop false

/-- Lists the stop as touched, unless its flag says that it is. -/
def touch (r : FlaggedRound) (stop : Nat) : FlaggedRound :=
  if r.isFlagged stop then r
  else
    { round := { r.round with touched := r.round.touched ++ [stop] }
      flags := r.flags.setIfInBounds stop true }

/-- The round with one more best label, whose number has 32 bits. -/
def insert (r : FlaggedRound) (l : Label) : FlaggedRound :=
  let touched := r.touch l.stop
  let index := r.round.labels.size % numberCount
  { round :=
      { labels := r.round.labels.push l
        best := r.round.best.update l.stop fun places =>
          places.filter (fun i => ¬ l.criteria.Dominates (r.round.label i).criteria) ++ [index]
        touched := touched.round.touched }
    flags := touched.flags }

/-- The round with only those best labels that are unbeaten. -/
def prune (earlier : List Round) (r : FlaggedRound) : FlaggedRound :=
  let pruned := r.round.prune earlier
  { round := pruned
    flags := setFlags r.flags r.round.touched fun stop => !(pruned.best.row stop).isEmpty }

/-- The round without its labels. -/
def clear (r : FlaggedRound) : FlaggedRound :=
  { round := r.round.clear
    flags := setFlags r.flags r.round.touched fun _ => false }

/-- Exactly the touched stops are flagged. -/
structure InStep (stopCount : Nat) (r : FlaggedRound) : Prop where
  flags_size : r.flags.size = stopCount
  isFlagged_iff : ∀ stop, r.isFlagged stop = true ↔ stop ∈ r.round.touched

variable {stopCount : Nat} {r : FlaggedRound}

theorem InStep.empty (stopCount : Nat) : (FlaggedRound.empty stopCount).InStep stopCount where
  flags_size := Array.size_replicate
  isFlagged_iff := by
    intro stop
    have hflag : (FlaggedRound.empty stopCount).isFlagged stop = false := by
      by_cases hstop : stop < stopCount <;> simp [FlaggedRound.empty, isFlagged, hstop]
    rw [hflag]
    exact iff_of_false Bool.false_ne_true List.not_mem_nil

theorem InStep.touch (h : r.InStep stopCount) {stop : Nat} (hstop : stop < stopCount) :
    (r.touch stop).InStep stopCount := by
  unfold FlaggedRound.touch
  split
  · exact h
  · refine ⟨Array.size_setIfInBounds.trans h.flags_size, fun other => ?_⟩
    show (r.flags.setIfInBounds stop true).getD other false = true ↔
      other ∈ r.round.touched ++ [stop]
    rw [getD_setIfInBounds (h.flags_size.symm ▸ hstop), List.mem_append, List.mem_singleton]
    split
    · next heq => exact iff_of_true rfl (Or.inr heq.symm)
    · next hne =>
        rw [or_iff_left fun heq => hne heq.symm]
        exact h.isFlagged_iff other

theorem InStep.insert (h : r.InStep stopCount) {l : Label} (hl : l.stop < stopCount) :
    (r.insert l).InStep stopCount :=
  ⟨(h.touch hl).flags_size, (h.touch hl).isFlagged_iff⟩

theorem InStep.prune (h : r.InStep stopCount) (hr : r.round.Valid stopCount)
    (earlier : List Round) : (r.prune earlier).InStep stopCount where
  flags_size := (size_setFlags _ _ _).trans h.flags_size
  isFlagged_iff := by
    intro stop
    show (setFlags r.flags r.round.touched _).getD stop false = true ↔
      stop ∈ r.round.touched.filter fun stop => !((r.round.prune earlier).best.row stop).isEmpty
    rw [getD_setFlags fun k hk => h.flags_size ▸ hr.stop_lt_of_mem_touched hk, List.mem_filter]
    split
    · next hmem => exact (and_iff_right hmem).symm
    · next hmem =>
        rw [show (stop ∈ r.round.touched) = False from eq_false hmem, false_and, iff_false]
        exact fun hflag => hmem ((h.isFlagged_iff stop).mp hflag)

theorem InStep.clear (h : r.InStep stopCount) (hr : r.round.Valid stopCount) :
    r.clear.InStep stopCount where
  flags_size := (size_setFlags _ _ _).trans h.flags_size
  isFlagged_iff := by
    intro stop
    show (setFlags r.flags r.round.touched _).getD stop false = true ↔ stop ∈ []
    rw [getD_setFlags fun k hk => h.flags_size ▸ hr.stop_lt_of_mem_touched hk]
    refine iff_of_false ?_ List.not_mem_nil
    split
    · exact Bool.false_ne_true
    · next hmem => exact fun hflag => hmem ((h.isFlagged_iff stop).mp hflag)

/-- A stop is listed if it is not on the list. -/
theorem InStep.touched_touch (h : r.InStep stopCount) (stop : Nat) :
    (r.touch stop).round.touched =
      if stop ∈ r.round.touched then r.round.touched else r.round.touched ++ [stop] := by
  unfold FlaggedRound.touch
  simp only [h.isFlagged_iff]
  split <;> rfl

/-- As long as the flags are in step and the numbers suffice, a label comes in as it does
without flags. -/
theorem InStep.insert_round (h : r.InStep stopCount) {l : Label}
    (hsize : r.round.labels.size < numberCount) : (r.insert l).round = r.round.insert l := by
  unfold FlaggedRound.insert Round.insert
  simp only [Nat.mod_eq_of_lt hsize, h.touched_touch]

end FlaggedRound

/-! ## §3. Stores with flags. -/

section Lists

variable {α : Type} {p : α → Prop} {xs : List α}

/-- What holds of all members still holds of all after copies of one more were added. -/
theorem forall_mem_append_replicate (h : ∀ x ∈ xs, p x) {e : α} (he : p e) (n : Nat) :
    ∀ x ∈ xs ++ List.replicate n e, p x := by
  intro x hx
  rcases List.mem_append.mp hx with hx | hx
  · exact h x hx
  · exact List.eq_of_mem_replicate hx ▸ he

/-- What holds of all members still holds of all after one was changed, if it holds of
that one. -/
theorem forall_mem_modify (h : ∀ x ∈ xs, p x) {k : Nat} {f : α → α}
    (hf : ∀ x, xs[k]? = some x → p (f x)) : ∀ x ∈ xs.modify k f, p x := by
  intro x hx
  obtain ⟨i, hi⟩ := List.mem_iff_getElem?.mp hx
  rw [List.getElem?_modify] at hi
  obtain ⟨old, hold, rfl⟩ := Option.map_eq_some_iff.mp hi
  by_cases hk : k = i
  · subst hk
    simpa using hf old hold
  · simpa [hk] using h old (List.mem_of_getElem? hold)

end Lists

/-- Labels by round and stop, in rounds with flags. -/
structure FlaggedStore where
  /-- Number of stops. -/
  stopCount : Nat
  /-- What becomes of ties. -/
  policy : TieBreak
  /-- The rounds, from round 0 on. -/
  rounds : List FlaggedRound
deriving Inhabited

namespace FlaggedStore

/-- A store without labels. -/
def empty (stopCount : Nat) (policy : TieBreak) : FlaggedStore := ⟨stopCount, policy, []⟩

/-- The store without its flags. -/
def erase (s : FlaggedStore) : LabelStore := ⟨s.stopCount, s.policy, s.rounds.map (·.round)⟩

/-- The store with rounds up to the given one. -/
def reach (s : FlaggedStore) (round : Nat) : FlaggedStore :=
  { s with rounds :=
      s.rounds ++ List.replicate (round + 1 - s.rounds.length) (FlaggedRound.empty s.stopCount) }

/-- Offers a label to a round.  Gives the store, and where the label is kept if it is taken
in. -/
def add (s : FlaggedStore) (round : Nat) (l : Label) : FlaggedStore × Option LabelPlace :=
  if s.erase.rejects round l then (s, none)
  else
    let reached := s.reach round
    let index := (reached.erase.round round).labels.size % FlaggedRound.numberCount
    ({ reached with rounds := reached.rounds.modify round (·.insert l) }, some ⟨round, index⟩)

/-- The store with only the unbeaten labels of a round as its best ones. -/
def prune (s : FlaggedStore) (round : Nat) : FlaggedStore :=
  { s with rounds := s.rounds.modify round (·.prune (s.erase.rounds.take round)) }

/-- The store without labels.  The rounds stay. -/
def clear (s : FlaggedStore) : FlaggedStore :=
  { s with rounds := s.rounds.map FlaggedRound.clear }

/-- The store after an operation. -/
def perform (s : FlaggedStore) : StoreOp → FlaggedStore
  | .offer o => (s.add o.round o.label).1
  | .prune round => s.prune round
  | .clear => s.clear

/-- The store after operations were performed one by one on an empty one. -/
def ofOps (stopCount : Nat) (policy : TieBreak) (ops : List StoreOp) : FlaggedStore :=
  ops.foldl perform (empty stopCount policy)

theorem ofOps_concat {stopCount : Nat} {policy : TieBreak} (ops : List StoreOp) (op : StoreOp) :
    ofOps stopCount policy (ops ++ [op]) = (ofOps stopCount policy ops).perform op := by
  unfold ofOps
  rw [List.foldl_append, List.foldl_cons, List.foldl_nil]

/-- In every round exactly the touched stops are flagged. -/
def InStep (s : FlaggedStore) : Prop := ∀ r ∈ s.rounds, r.InStep s.stopCount

variable {s : FlaggedStore}

/-- A round that is replaced by one that differs from what it should be in its flags only. -/
theorem map_round_modify {rounds : List FlaggedRound} {k : Nat} {f : FlaggedRound → FlaggedRound}
    {g : Round → Round} (h : ∀ r, rounds[k]? = some r → (f r).round = g r.round) :
    (rounds.modify k f).map (·.round) = (rounds.map (·.round)).modify k g := by
  apply List.ext_getElem?
  intro i
  rw [List.getElem?_map, List.getElem?_modify, List.getElem?_modify, List.getElem?_map]
  cases hi : rounds[i]? with
  | none => rfl
  | some r =>
      by_cases hk : k = i
      · subst hk
        simp [h r hi]
      · simp [hk]

theorem erase_reach (s : FlaggedStore) (round : Nat) :
    (s.reach round).erase = s.erase.reach round := by
  unfold reach erase LabelStore.reach
  simp only [List.map_append, List.map_replicate, List.length_map]
  rfl

theorem InStep.reach (h : s.InStep) (round : Nat) : (s.reach round).InStep :=
  forall_mem_append_replicate h (FlaggedRound.InStep.empty s.stopCount) _

/-- Replacing a round keeps flags in step if they are in the round that takes its place. -/
theorem InStep.modify (h : s.InStep) {k : Nat} {f : FlaggedRound → FlaggedRound}
    (hf : ∀ r, s.rounds[k]? = some r → (f r).InStep s.stopCount) :
    ({ s with rounds := s.rounds.modify k f } : FlaggedStore).InStep :=
  forall_mem_modify h hf

/-- A round of the store is that of the store without flags. -/
theorem round_erase {k : Nat} {r : FlaggedRound} (hr : s.rounds[k]? = some r) :
    s.erase.round k = r.round := by
  unfold LabelStore.round erase
  rw [List.getD_eq_getElem?_getD, List.getElem?_map, hr]
  rfl

theorem InStep.perform (h : s.InStep) (hvalid : s.erase.Valid) {op : StoreOp}
    (hop : op.Within s.stopCount) : (s.perform op).InStep := by
  have hround {k : Nat} {r : FlaggedRound} (hr : s.rounds[k]? = some r) :
      r.round.Valid s.stopCount := round_erase hr ▸ hvalid k
  cases op with
  | offer o =>
      show (s.add o.round o.label).1.InStep
      unfold add
      split
      · exact h
      · exact (h.reach o.round).modify fun r hr =>
          (h.reach o.round r (List.mem_of_getElem? hr)).insert hop
  | prune round =>
      exact h.modify fun r hr => (h r (List.mem_of_getElem? hr)).prune (hround hr) _
  | clear =>
      intro r hr
      obtain ⟨old, hold, rfl⟩ := List.mem_map.mp hr
      obtain ⟨k, hk⟩ := List.mem_iff_getElem?.mp hold
      exact (h old hold).clear (hround hk)

theorem erase_add (h : s.InStep) {round : Nat} {l : Label}
    (hsize : (s.erase.round round).labels.size < FlaggedRound.numberCount) :
    (s.add round l).1.erase = s.erase.offer round l := by
  unfold add LabelStore.offer LabelStore.add?
  split
  · rfl
  · show (⟨_, _, ((s.reach round).rounds.modify round (·.insert l)).map (·.round)⟩ : LabelStore) =
      { s.erase.reach round with rounds := (s.erase.reach round).rounds.modify round (·.insert l) }
    rw [map_round_modify fun r hr => ?_, ← erase_reach]
    · rfl
    · refine (h.reach round r (List.mem_of_getElem? hr)).insert_round ?_
      rwa [← round_erase hr, erase_reach, LabelStore.round_reach]

theorem erase_prune (s : FlaggedStore) (round : Nat) :
    (s.prune round).erase = (s.erase.prune round).1 := by
  show (⟨_, _, (s.rounds.modify round _).map (·.round)⟩ : LabelStore) = ⟨_, _, _⟩
  rw [map_round_modify (g := fun _ =>
    (s.erase.round round).prune (s.erase.rounds.take round)) fun r hr => ?_]
  · rfl
  · rw [round_erase hr]
    rfl

theorem erase_clear (s : FlaggedStore) : s.clear.erase = s.erase.clear := by
  unfold clear erase LabelStore.clear
  simp only [List.map_map]
  rfl

/-- Without its flags the store does what a store without flags does. -/
theorem erase_perform (h : s.InStep) {op : StoreOp}
    (hsize : ∀ k, (s.erase.round k).labels.size < FlaggedRound.numberCount) :
    (s.perform op).erase = s.erase.perform op := by
  cases op with
  | offer o => exact erase_add h (hsize o.round)
  | prune round => exact erase_prune s round
  | clear => exact erase_clear s

/-! ## §4. Sequences of operations. -/

variable {stopCount : Nat} {policy : TieBreak} {ops : List StoreOp}

/-- As long as the numbers suffice, a sequence of operations does the same with flags and
without. -/
theorem erase_ofOps (hops : ∀ op ∈ ops, op.Within stopCount)
    (hcount : ops.length ≤ FlaggedRound.numberCount) :
    (ofOps stopCount policy ops).InStep ∧
      (ofOps stopCount policy ops).erase = LabelStore.ofOps stopCount policy ops := by
  induction ops using List.reverseRecOn with
  | nil => exact ⟨fun r hr => absurd hr List.not_mem_nil, rfl⟩
  | append_singleton ops op ih =>
      have hops' : ∀ x ∈ ops, x.Within stopCount := fun x hx => hops x (List.mem_append_left _ hx)
      have hlt : ops.length < FlaggedRound.numberCount := by
        rw [List.length_append, List.length_singleton] at hcount
        exact hcount
      obtain ⟨hstep, herase⟩ := ih hops' (Nat.le_of_lt hlt)
      obtain ⟨hinOrder, hstops, -, hsize⟩ := LabelStore.inOrder_ofOps policy hops'
      rw [← herase] at hinOrder hstops hsize
      have hop : op.Within (ofOps stopCount policy ops).stopCount := by
        rw [show (ofOps stopCount policy ops).stopCount = stopCount from hstops]
        exact hops op (List.mem_append_right _ List.mem_cons_self)
      rw [ofOps_concat, LabelStore.ofOps_concat, ← herase]
      -- Before the last operation there are no more labels in a round than operations.
      exact ⟨hstep.perform hinOrder.valid hop,
        erase_perform hstep fun k => Nat.lt_of_le_of_lt (hsize k) hlt⟩

/-- After fewer than 2³² operations with labels at stops of the store, in any order and for
both ways to break ties: the flags are in step with the lists, and without them the store is
what it is without flags; its lists are true and in order; a label that is not taken in
changes nothing; and pruning a round removes exactly what earlier rounds have overtaken. -/
theorem ofOps_sound (policy : TieBreak) (hops : ∀ op ∈ ops, op.Within stopCount)
    (hcount : ops.length < FlaggedRound.numberCount) :
    let flagged := ofOps stopCount policy ops
    let s := LabelStore.ofOps stopCount policy ops
    (flagged.InStep ∧ flagged.erase = s) ∧
      (s.InOrder ∧ s.stopCount = stopCount ∧ s.policy = policy) ∧
      (∀ round l, (flagged.add round l).2 = none → (flagged.add round l).1 = flagged) ∧
      ∀ round, (flagged.prune round).erase = (s.prune round).1 ∧
        s.IsPruned round (s.prune round).1 (s.prune round).2 := by
  intro flagged s
  have herase : flagged.InStep ∧ flagged.erase = s := erase_ofOps hops (Nat.le_of_lt hcount)
  obtain ⟨hinOrder, hstops, hpolicy, -⟩ := LabelStore.inOrder_ofOps policy hops
  refine ⟨herase, ⟨hinOrder, hstops, hpolicy⟩, fun round l hnone => ?_, fun round => ⟨?_, ?_⟩⟩
  · unfold add at hnone ⊢
    split at hnone
    · next hrejects => rw [if_pos hrejects]
    · cases hnone
  · rw [erase_prune, herase.2]
  · exact hinOrder.isPruned round

/-- A store that is used again: its second label is offered to an earlier round than the
first, which it overtakes. -/
def latecomerOps : List StoreOp :=
  let offer (round : Nat) (seconds : Int) : StoreOp :=
    .offer ⟨round, ⟨0, ⟨Time.saturate seconds, 0, ⟨10⟩, GroupSet.empty⟩, default, none⟩⟩
  [offer 0 10, .clear, offer 1 60, offer 0 30]

theorem isPruned_latecomer :
    let s := LabelStore.ofOps 1 .firstFound latecomerOps
    (s.bestLabels 1 0).length = 1 ∧ (s.prune 1).2 = 1 ∧ s.IsPruned 1 (s.prune 1).1 1 := by
  intro s
  have hremoved : (s.prune 1).2 = 1 := by decide
  have hops : ∀ op ∈ latecomerOps, op.Within 1 := by decide
  obtain ⟨-, -, -, hprune⟩ := ofOps_sound .firstFound hops (by decide)
  have hpruned := (hprune 1).2
  rw [hremoved] at hpruned
  exact ⟨by decide, hremoved, hpruned⟩

end FlaggedStore

end TransitRouting
