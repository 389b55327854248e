/-
  TransitRouting.Proofs.Iteration.Riders
  ──────────────────────────────────────
  Who is on board when riders have boarded one after another.

  On each trip those riders matter that no other covers: with as many transfers at
  most, no group that the other has not, and no greater cost, costs being compared by
  any projection.  A rider is turned away by one who covers them, and makes those leave
  whom they cover themselves.  Covering is reflexive and transitive, so whoever is
  missing in the end is covered by someone on board, however many riders have taken
  each other's place in between; and nobody on board covers anyone else there.

  Main statements:

    • `Rider.aboard_eq_filter` — exactly those are on board whom no earlier rider
      covers and none beats;
    • `Rider.aboard_complete` — nobody on board covers another one there, everyone
      who ever boarded is covered by someone there, and trips do not affect each other;
    • `SearchContext.exists_covers_boardAt` — no rider is lost at a halt, whether on board
      before or boarding there.
-/
import TransitRouting.Proofs.Iteration.Rides
import TransitRouting.Proofs.Iteration.Ways

namespace TransitRouting

namespace Rider

/-! ## §1. Covering. -/

/-- On the same trip, the first rider is at least as good as the second on transfers,
groups and projected cost. -/
structure Covers (costNow : Rider → Cost) (a b : Rider) : Prop where
  /-- They are on the same trip. -/
  trip : a.boarding.trip = b.boarding.trip
  /-- The first has not changed more often. -/
  transfers : a.transfers ≤ b.transfers
  /-- The first has used no group that the second has not. -/
  groups : a.groups ⊆ b.groups
  /-- The first does not cost more. -/
  cost : costNow a ≤ costNow b

variable {costNow : Rider → Cost} {a b c : Rider}

theorem covers_iff : covers costNow a b = true ↔ Covers costNow a b := by
  simp only [covers, Bool.and_eq_true, decide_eq_true_eq]
  constructor
  · rintro ⟨⟨⟨htrip, htransfers⟩, hgroups⟩, hcost⟩
    exact ⟨htrip, htransfers, hgroups, hcost⟩
  · intro h
    exact ⟨⟨⟨h.trip, h.transfers⟩, h.groups⟩, h.cost⟩

theorem Covers.refl (costNow : Rider → Cost) (a : Rider) : Covers costNow a a :=
  ⟨rfl, Nat.le_refl _, GroupSet.subset_refl _, Cost.le_refl _⟩

theorem Covers.trans (h : Covers costNow a b) (h' : Covers costNow b c) : Covers costNow a c :=
  ⟨h.trip.trans h'.trip, Nat.le_trans h.transfers h'.transfers,
    GroupSet.subset_trans h.groups h'.groups, Cost.le_trans h.cost h'.cost⟩

theorem covers_trans (h : covers costNow a b = true) (h' : covers costNow b c = true) :
    covers costNow a c = true :=
  covers_iff.mpr ((covers_iff.mp h).trans (covers_iff.mp h'))

/-- Who covers whom depends only on the costs of riders on one trip. -/
theorem covers_congr {costNow costNow' : Rider → Cost}
    (h : a.boarding.trip = b.boarding.trip →
      costNow a = costNow' a ∧ costNow b = costNow' b) :
    covers costNow a b = covers costNow' a b := by
  unfold covers
  by_cases htrip : a.boarding.trip = b.boarding.trip
  · obtain ⟨ha, hb⟩ := h htrip
    rw [ha, hb]
  · simp [htrip]

/-! ## §2. One rider more. -/

/-- Whoever boards a trip changes nothing on the other ones. -/
theorem filter_board (costNow : Rider → Cost) (riders : List Rider) (r : Rider) :
    (r.board costNow riders).filter (fun x => x.boarding.trip ≠ r.boarding.trip) =
      riders.filter (fun x => x.boarding.trip ≠ r.boarding.trip) := by
  refine Frontier.filter_offer_of_neg ?_ (by simp)
  intro x y hcovers hy
  rw [decide_eq_true_eq] at hy ⊢
  rw [trip_eq_of_covers hcovers]
  exact hy

/-- It does not matter what riders on other trips cost. -/
theorem board_congr {costNow costNow' : Rider → Cost} (riders : List Rider) {r : Rider}
    (h : ∀ x : Rider, x.boarding.trip = r.boarding.trip → costNow x = costNow' x) :
    r.board costNow riders = r.board costNow' riders := by
  have hrejects : (fun x => covers costNow x r) = fun x => covers costNow' x r :=
    funext fun x => covers_congr fun htrip => ⟨h x htrip, h r rfl⟩
  have hdominates : (fun x => !covers costNow r x) = fun x => !covers costNow' r x :=
    funext fun x => congrArg not (covers_congr fun htrip => ⟨h r rfl, h x htrip.symm⟩)
  show (if riders.any (fun x => covers costNow x r) then none
    else some (riders.filter (fun x => !covers costNow r x) ++ [r])).getD riders = _
  rw [hrejects, hdominates]
  rfl

/-! ## §3. Any number of riders. -/

/-- The riders on board after each of a list has boarded in turn, nobody being on board
at first. -/
def aboard (costNow : Rider → Cost) (offered : List Rider) : List Rider :=
  offered.foldl (fun riders r => r.board costNow riders) []

theorem aboard_eq_ofList (costNow : Rider → Cost) (offered : List Rider) :
    aboard costNow offered = Frontier.ofList (rivalry costNow) offered := rfl

/-- The first rider covers the second and is not covered in return. -/
def beats (costNow : Rider → Cost) (a b : Rider) : Bool :=
  covers costNow a b && !covers costNow b a

/-- Exactly those riders are on board whom none beats and no earlier one covers, in the
order in which they boarded. -/
theorem aboard_eq_filter (costNow : Rider → Cost) (offered : List Rider) :
    aboard costNow offered =
      (offered.zipIdx.filter fun p =>
        !offered.any (beats costNow · p.1) &&
          !(offered.take p.2).any (covers costNow · p.1)).map Prod.fst := by
  -- Covering is not strict, but losing to someone better is.
  have hr : (rivalry costNow).strict.Coherent :=
    Rivalry.coherent_strict rfl (fun a => covers_iff.mpr (.refl costNow a)) covers_trans
  rw [aboard_eq_ofList, ← Frontier.ofList_strict, Frontier.ofList_eq_zipIdx_filter hr]
  rfl

/-- Of two riders on a trip the one with another group is kept only if that one is
cheaper. -/
example :
    let rider (trip : Nat) (cost : Int64) (groups : UInt32) : Rider :=
      { (default : Rider) with
        boarding := { (default : Boarding) with trip }
        cost := ⟨cost⟩
        groups := ⟨groups⟩ }
    (aboard Rider.cost
        [rider 0 100 0, rider 0 50 0, rider 1 500 0, rider 0 80 2, rider 0 40 2]).map
      (fun r => r.cost.hundredths) = [50, 500, 40] := by
  decide

theorem pairwise_aboard (costNow : Rider → Cost) (offered : List Rider) :
    (aboard costNow offered).Pairwise fun a b =>
      ¬ Covers costNow a b ∧ ¬ Covers costNow b a := by
  refine (Frontier.inOrder_ofList (rivalry costNow) offered).imp ?_
  rintro a b ⟨hba, hab⟩
  rw [← covers_iff, ← covers_iff, Bool.not_eq_true, Bool.not_eq_true]
  exact ⟨hab, hba⟩

theorem mem_or_covers_aboard {offered : List Rider} {r : Rider} (hr : r ∈ offered) :
    r ∈ aboard costNow offered ∨ ∃ held ∈ aboard costNow offered, Covers costNow held r := by
  obtain ⟨held, hheld, rfl | hcovers⟩ :=
    Frontier.answers_of_mem (r := rivalry costNow) covers_trans rfl hr
  · exact Or.inl hheld
  · exact Or.inr ⟨held, hheld, covers_iff.mp hcovers⟩

/-- Whatever projection of costs is used and whoever boards in turn: nobody on board
covers another one there; whoever boarded is still there, or someone on the trip is at
least as good on transfers, groups and cost; nobody else is there.  And riders of other
trips are left as they are by each who boards. -/
theorem aboard_complete (costNow : Rider → Cost) :
    (∀ offered : List Rider,
        ((aboard costNow offered).Pairwise fun a b =>
            ¬ Covers costNow a b ∧ ¬ Covers costNow b a) ∧
          (∀ r ∈ offered, r ∈ aboard costNow offered ∨
            ∃ held ∈ aboard costNow offered, Covers costNow held r) ∧
          ∀ r ∈ aboard costNow offered, r ∈ offered) ∧
      ∀ (riders : List Rider) (r : Rider),
        (r.board costNow riders).filter (fun x => x.boarding.trip ≠ r.boarding.trip) =
          riders.filter (fun x => x.boarding.trip ≠ r.boarding.trip) := by
  constructor
  · intro offered
    refine ⟨pairwise_aboard costNow offered, ?_, ?_⟩
    · intro r hr
      exact mem_or_covers_aboard hr
    · intro r hr
      exact Frontier.mem_of_mem_ofList hr
  · intro riders r
    exact filter_board costNow riders r

end Rider

/-! ## §4. At a halt. -/

namespace SearchContext

variable (ctx : SearchContext)

/-- What a rider's journey costs until the trip leaves a halt. -/
def costAt (p : Pattern) (position : Nat) (r : Rider) : Cost :=
  ctx.costUntil p ((p.trip r.boarding.trip).departureAt position) r

variable {ctx} {store : LabelStore} {round pattern position : Nat}

/-- Whoever boards does so when the trip leaves, so all who board it there compare their
costs at the same time. -/
theorem board_costUntil (hn : ctx.network.Valid) {r : Rider}
    (h : ctx.Boards store round pattern position r) (riders : List Rider) :
    r.board (ctx.costUntil (ctx.network.pattern pattern) r.boarding.time) riders =
      r.board (ctx.costAt (ctx.network.pattern pattern) position) riders := by
  obtain ⟨-, place, l, -, hrider⟩ := h
  obtain ⟨-, hfound⟩ := of_riderFrom? hrider
  obtain ⟨-, hboardable, -⟩ := Network.Boardable.of_earliestBoarding hn hfound
  have htime : r.boarding.time =
      ((ctx.network.pattern pattern).trip r.boarding.trip).departureAt position :=
    congrArg Boarding.time hboardable.eq_boarding
  -- Whoever is on the same trip leaves the halt at the same time.
  refine Rider.board_congr riders fun x hx => ?_
  unfold costAt
  rw [hx, htime]

/-- At a halt those who can board do so one after another, with one projection of
costs. -/
theorem boardAt_eq_foldl_offer (hn : ctx.network.Valid) (riders : List Rider) :
    ctx.boardAt store round pattern position riders =
      (ctx.boarders store round pattern position).foldl
        (Frontier.offer (Rider.rivalry (ctx.costAt (ctx.network.pattern pattern) position)))
        riders := by
  rw [boardAt_eq_foldl]
  refine List.foldl_ext _ _ riders fun aboard r hr => ?_
  exact board_costUntil hn (mem_boarders.mp hr) aboard

/-- Whoever was on board before a halt or boards there is covered when it is left. -/
theorem exists_covers_boardAt (hn : ctx.network.Valid) {riders : List Rider} {r : Rider}
    (h : r ∈ riders ∨ ctx.Boards store round pattern position r) :
    ∃ held ∈ ctx.boardAt store round pattern position riders,
      Rider.Covers (ctx.costAt (ctx.network.pattern pattern) position) held r := by
  have htrans := @Rider.covers_trans (ctx.costAt (ctx.network.pattern pattern) position)
  have hanswered : Frontier.Answers
      (Rider.rivalry (ctx.costAt (ctx.network.pattern pattern) position))
      (ctx.boardAt store round pattern position riders) r := by
    rw [boardAt_eq_foldl_offer hn]
    rcases h with hr | hboards
    · have hnow : Frontier.Answers
          (Rider.rivalry (ctx.costAt (ctx.network.pattern pattern) position)) riders r :=
        ⟨r, hr, Or.inl rfl⟩
      exact hnow.foldl htrans _
    · exact Frontier.answers_foldl_of_mem htrans rfl (mem_boarders.mpr hboards) riders
  obtain ⟨held, hheld, rfl | hcovers⟩ := hanswered
  · exact ⟨held, hheld, .refl _ held⟩
  · exact ⟨held, hheld, Rider.covers_iff.mp hcovers⟩

end SearchContext

end TransitRouting
