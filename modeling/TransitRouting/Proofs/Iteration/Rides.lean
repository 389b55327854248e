/-
  TransitRouting.Proofs.Iteration.Rides
  ─────────────────────────────────────
  Which labels the rides of a round make.

  One scan of a pattern takes in riders at every position where passengers may
  board, from the first such position on, and lets them off at every later one
  where they may alight.  Of several riders on one trip the scan keeps only
  those that no other covers, but it never loses the trip.

  Main statements:

    • `SearchContext.mem_rides` — every label comes from a rider who boarded
      from a best label of the round before and alighted further on;
    • `SearchContext.Boards.mem_rides` — whoever can board, on the trip that was
      boarded some rider gets off at every later position.
-/
import TransitRouting.Iteration
import TransitRouting.Proofs.Frontier
import TransitRouting.Proofs.LabelStore.Pareto

namespace TransitRouting

/-! ## §1. Riders on a trip. -/

namespace Rider

/-- Someone rides the trip with a given index. -/
def OnTrip (riders : List Rider) (trip : Nat) : Prop := ∃ r ∈ riders, r.boarding.trip = trip

theorem trip_eq_of_covers {costNow : Rider → Cost} {a b : Rider}
    (h : covers costNow a b = true) : a.boarding.trip = b.boarding.trip := by
  simp only [covers, Bool.and_eq_true, decide_eq_true_eq] at h
  exact h.1.1.1

/-- Whoever boards is on the trip, or one who covers that rider already was. -/
theorem onTrip_board (costNow : Rider → Cost) (riders : List Rider) (r : Rider) :
    OnTrip (board costNow riders r) r.boarding.trip := by
  unfold board
  by_cases hcovered : ∃ held ∈ riders, (rivalry costNow).rejects held r = true
  · rw [Frontier.offer_of_rejected hcovered]
    obtain ⟨held, hheld, hcovers⟩ := hcovered
    exact ⟨held, hheld, trip_eq_of_covers hcovers⟩
  · exact ⟨r, Frontier.mem_offer_self hcovered, rfl⟩

/-- A trip that has riders keeps some when one more boards. -/
theorem OnTrip.board {riders : List Rider} {trip : Nat} (h : OnTrip riders trip)
    (costNow : Rider → Cost) (r : Rider) : OnTrip (Rider.board costNow riders r) trip := by
  obtain ⟨x, hx, rfl⟩ := h
  by_cases hcovers : covers costNow r x = true
  · -- Only someone on the same trip makes a rider superfluous.
    rw [← trip_eq_of_covers hcovers]
    exact onTrip_board costNow riders r
  · have hkeeps : (rivalry costNow).dominates r x = false := by simpa [rivalry] using hcovers
    exact ⟨x, Frontier.mem_offer_of_not_dominates hx hkeeps, rfl⟩

end Rider

/-! ## §2. Boarding along a pattern. -/

namespace SearchContext

variable (ctx : SearchContext)

/-- A rider boards the pattern at the position, from a best label of the round
before. -/
def Boards (store : LabelStore) (round pattern position : Nat) (r : Rider) : Prop :=
  (ctx.network.pattern pattern).canBoard position = true ∧
    ∃ place l,
      (place, l) ∈
        store.bestLabels (round - 1) ((ctx.network.pattern pattern).stopAt position) ∧
      ctx.riderFrom? (store.arrivingTrip l) round pattern position place l = some r

/-- Those who board at a halt, one for each label from which a trip can be boarded. -/
def boarders (store : LabelStore) (round pattern position : Nat) : List Rider :=
  if (ctx.network.pattern pattern).canBoard position then
    (store.bestLabels (round - 1) ((ctx.network.pattern pattern).stopAt position)).filterMap
      fun (place, l) => ctx.riderFrom? (store.arrivingTrip l) round pattern position place l
  else []

/-- The riders on board after a list of positions. -/
def ridersAfter (store : LabelStore) (round pattern : Nat) (positions : List Nat)
    (riders : List Rider) : List Rider :=
  positions.foldl (fun riders position => ctx.boardAt store round pattern position riders) riders

variable {ctx} {store : LabelStore} {round pattern : Nat}

theorem mem_boarders {position : Nat} {r : Rider} :
    r ∈ ctx.boarders store round pattern position ↔
      ctx.Boards store round pattern position r := by
  unfold boarders Boards
  split
  · next hcan => simp only [List.mem_filterMap, Prod.exists, hcan, true_and]
  · next hcan => exact iff_of_false List.not_mem_nil fun h => hcan h.1

/-- At a halt those who can board do so one after another. -/
theorem boardAt_eq_foldl (position : Nat) (riders : List Rider) :
    ctx.boardAt store round pattern position riders =
      (ctx.boarders store round pattern position).foldl
        (fun riders r =>
          r.board (ctx.costUntil (ctx.network.pattern pattern) r.boarding.time) riders)
        riders := by
  unfold boardAt boarders
  simp only
  cases hcan : (ctx.network.pattern pattern).canBoard position with
  | false => rfl
  | true =>
      rw [Bool.not_true, if_neg Bool.false_ne_true, if_pos rfl, List.foldl_filterMap]
      refine List.foldl_ext _ _ riders fun aboard e _ => ?_
      obtain ⟨place, l⟩ := e
      cases ctx.riderFrom? (store.arrivingTrip l) round pattern position place l <;> rfl

theorem mem_boardAt {position : Nat} {riders : List Rider} {r : Rider}
    (h : r ∈ ctx.boardAt store round pattern position riders) :
    r ∈ riders ∨ ctx.Boards store round pattern position r := by
  rw [boardAt_eq_foldl] at h
  -- Whoever is on board at any time was there before or has just boarded.
  revert r
  refine List.foldlRecOn
    (motive := fun aboard => ∀ {x}, x ∈ aboard →
      x ∈ riders ∨ ctx.Boards store round pattern position x) _ _ Or.inl ?_
  intro aboard haboard r hr x hx
  rcases Frontier.mem_offer hx with rfl | hx
  · exact Or.inr (mem_boarders.mp hr)
  · exact haboard hx

/-- A trip that has riders keeps some at every halt. -/
theorem onTrip_boardAt_of_onTrip {position : Nat} {riders : List Rider} {trip : Nat}
    (h : Rider.OnTrip riders trip) :
    Rider.OnTrip (ctx.boardAt store round pattern position riders) trip := by
  rw [boardAt_eq_foldl]
  refine List.foldlRecOn (motive := fun aboard => Rider.OnTrip aboard trip) _ _ h ?_
  intro aboard haboard r _
  exact haboard.board _ r

/-- Whoever can board, someone is on that trip when the halt is left. -/
theorem Boards.onTrip_boardAt {position : Nat} {r : Rider}
    (h : ctx.Boards store round pattern position r) (riders : List Rider) :
    Rider.OnTrip (ctx.boardAt store round pattern position riders) r.boarding.trip := by
  rw [boardAt_eq_foldl]
  obtain ⟨before, after, hsplit⟩ := List.append_of_mem (mem_boarders.mpr h)
  rw [hsplit, List.foldl_append, List.foldl_cons]
  refine List.foldlRecOn (motive := fun aboard => Rider.OnTrip aboard r.boarding.trip) _ _
    (Rider.onTrip_board _ _ r) ?_
  intro aboard haboard x _
  exact haboard.board _ x

theorem mem_ridersAfter {positions : List Nat} {r : Rider}
    (h : r ∈ ctx.ridersAfter store round pattern positions []) :
    ∃ position ∈ positions, ctx.Boards store round pattern position r := by
  revert r
  unfold ridersAfter
  refine List.foldlRecOn
    (motive := fun aboard => ∀ {r}, r ∈ aboard →
      ∃ position ∈ positions, ctx.Boards store round pattern position r) _ _
    (fun hr => absurd hr List.not_mem_nil) ?_
  intro aboard haboard position hposition r hr
  rcases mem_boardAt hr with hr | hboards
  · exact haboard hr
  · exact ⟨position, hposition, hboards⟩

theorem Boards.onTrip_ridersAfter {position : Nat} {positions : List Nat} {r : Rider}
    (h : ctx.Boards store round pattern position r) (hposition : position ∈ positions)
    (riders : List Rider) :
    Rider.OnTrip (ctx.ridersAfter store round pattern positions riders) r.boarding.trip := by
  obtain ⟨before, after, rfl⟩ := List.append_of_mem hposition
  unfold ridersAfter
  rw [List.foldl_append, List.foldl_cons]
  refine List.foldlRecOn (motive := fun aboard => Rider.OnTrip aboard r.boarding.trip) _ _
    (h.onTrip_boardAt _) ?_
  intro aboard haboard q _
  exact onTrip_boardAt_of_onTrip haboard

/-! ## §3. Alighting along a pattern. -/

theorem ridesAlong_append (before after : List Nat) (riders : List Rider) :
    ctx.ridesAlong store round pattern (before ++ after) riders =
      ctx.ridesAlong store round pattern before riders ++
        ctx.ridesAlong store round pattern after
          (ctx.ridersAfter store round pattern before riders) := by
  induction before generalizing riders with
  | nil => rfl
  | cons position before ih =>
      show _ ++ ctx.ridesAlong store round pattern (before ++ after) _ = _ ++ _ ++ _
      rw [ih, List.append_assoc]
      rfl

/-- Labels are made at every position where passengers may alight, by those on
board then. -/
theorem mem_ridesAlong {positions : List Nat} {riders : List Rider} {l : Label} :
    l ∈ ctx.ridesAlong store round pattern positions riders ↔
      ∃ before position after, positions = before ++ position :: after ∧
        (ctx.network.pattern pattern).canAlight position = true ∧
        ∃ r ∈ ctx.ridersAfter store round pattern before riders,
          l = ctx.alight round pattern position r := by
  constructor
  · intro h
    induction positions generalizing riders with
    | nil => cases h
    | cons position positions ih =>
        unfold ridesAlong at h
        rcases List.mem_append.mp h with h | h
        · split at h
          · next hcan =>
              obtain ⟨r, hr, rfl⟩ := List.mem_map.mp h
              exact ⟨[], position, positions, rfl, hcan, r, hr, rfl⟩
          · cases h
        · obtain ⟨before, q, after, rfl, hcan, r, hr, hl⟩ := ih h
          exact ⟨position :: before, q, after, rfl, hcan, r, hr, hl⟩
  · intro hgiven
    obtain ⟨before, position, after, rfl, hcan, r, hr, rfl⟩ := hgiven
    rw [ridesAlong_append]
    refine List.mem_append_right _ ?_
    unfold ridesAlong
    rw [if_pos hcan]
    exact List.mem_append_left _ (List.mem_map_of_mem hr)

/-! ## §4. The rides of a round. -/

/-- Every label comes from a rider who boarded from a best label of the round
before and alighted further on. -/
theorem mem_rides {l : Label} (h : l ∈ ctx.rides store round) :
    ∃ pattern board alight r, ctx.Boards store round pattern board r ∧ board < alight ∧
      alight < (ctx.network.pattern pattern).length ∧
      (ctx.network.pattern pattern).canAlight alight = true ∧
      l = ctx.alight round pattern alight r := by
  obtain ⟨⟨pattern, first⟩, -, hl⟩ := List.mem_flatMap.mp h
  obtain ⟨before, alight, after, hsplit, hcan, r, hr, rfl⟩ := mem_ridesAlong.mp hl
  obtain ⟨board, hboard, hboards⟩ := mem_ridersAfter hr
  -- The positions of a scan are consecutive numbers.
  have hlt : board < alight := by
    have hsorted := List.pairwise_lt_range' (s := first)
      (n := (ctx.network.pattern pattern).length - first)
    rw [hsplit, List.pairwise_append] at hsorted
    exact hsorted.2.2 board hboard alight List.mem_cons_self
  have hmem : alight ∈ List.range' first ((ctx.network.pattern pattern).length - first) := by
    rw [hsplit]
    exact List.mem_append_right _ List.mem_cons_self
  rw [List.mem_range'_1] at hmem
  exact ⟨pattern, board, alight, r, hboards, hlt, by omega, hcan, rfl⟩

theorem exists_min?_le {positions : List Nat} {position : Nat} (h : position ∈ positions) :
    ∃ first ≤ position, positions.min? = some first := by
  cases hmin : positions.min? with
  | none =>
      rw [List.min?_eq_none_iff] at hmin
      rw [hmin] at h
      cases h
  | some first => exact ⟨first, (List.min?_eq_some_iff.mp hmin).2 position h, rfl⟩

/-- A pattern that somebody can board is scanned from that position or an
earlier one on. -/
theorem Boards.mem_boardablePatterns (hn : ctx.network.Valid) (hs : store.Valid)
    (hcount : store.stopCount = ctx.network.stopCount) {position : Nat} {r : Rider}
    (h : ctx.Boards store round pattern position r) :
    ∃ first ≤ position, (pattern, first) ∈ ctx.boardablePatterns store (round - 1) := by
  obtain ⟨hcan, place, l, hl, -⟩ := h
  have hlength : position + 1 < (ctx.network.pattern pattern).length :=
    Pattern.lt_length_of_canBoard hcan
  have hpattern : pattern < ctx.network.schedule.patterns.size :=
    Schedule.lt_size_of_lt_length (Nat.lt_of_succ_lt hlength)
  have hstop : (ctx.network.pattern pattern).stopAt position < ctx.network.stopCount := by
    have hrow := (LabelStore.mem_bestLabels.mp hl).2.1
    rw [← hcount, ← (hs (round - 1)).rows_size]
    exact Buckets.lt_size_of_mem_row hrow
  have hreached : (ctx.network.pattern pattern).stopAt position ∈
      store.reachedStops (round - 1) :=
    hs.mem_reachedStops.mpr (List.ne_nil_of_mem hl)
  have hvisit : (⟨pattern, position⟩ : Visit) ∈
      ctx.network.visitsAt ((ctx.network.pattern pattern).stopAt position) :=
    (hn.mem_visitsAt_iff hstop).mpr ⟨Nat.lt_of_succ_lt hlength, rfl⟩
  have hrow : position ∈ (Buckets.ofList ctx.network.schedule.patterns.size
      ((((store.reachedStops (round - 1)).flatMap ctx.network.visitsAt).filter fun v =>
        (ctx.network.pattern v.pattern).canBoard v.position).map
          fun v => (v.pattern, v.position))).row pattern := by
    refine Buckets.mem_row_ofList.mpr ⟨hpattern, ?_⟩
    refine List.mem_map.mpr ⟨⟨pattern, position⟩, List.mem_filter.mpr ⟨?_, hcan⟩, rfl⟩
    exact List.mem_flatMap.mpr ⟨_, hreached, hvisit⟩
  -- The scan starts at the least of the positions.
  unfold boardablePatterns
  simp only [List.mem_filterMap, List.mem_range, Option.map_eq_some_iff, Prod.mk.injEq]
  obtain ⟨first, hle, hmin⟩ := exists_min?_le hrow
  exact ⟨first, hle, pattern, hpattern, first, hmin, rfl, rfl⟩

/-- Whoever can board, on the trip that was boarded some rider gets off at
every later position. -/
theorem Boards.mem_rides (hn : ctx.network.Valid) (hs : store.Valid)
    (hcount : store.stopCount = ctx.network.stopCount) {board alight : Nat} {r : Rider}
    (h : ctx.Boards store round pattern board r) (hlt : board < alight)
    (hlength : alight < (ctx.network.pattern pattern).length)
    (hcan : (ctx.network.pattern pattern).canAlight alight = true) :
    ∃ r', r'.boarding.trip = r.boarding.trip ∧
      ctx.alight round pattern alight r' ∈ ctx.rides store round := by
  obtain ⟨first, hfirst, hpattern⟩ := h.mem_boardablePatterns hn hs hcount
  have hsplit : List.range' first ((ctx.network.pattern pattern).length - first) =
      List.range' first (alight - first) ++
        alight :: List.range' (alight + 1) ((ctx.network.pattern pattern).length - (alight + 1)) := by
    have hparts : (ctx.network.pattern pattern).length - first =
        (alight - first) + ((ctx.network.pattern pattern).length - (alight + 1) + 1) := by omega
    rw [hparts, List.range'_append_1.symm, List.range'_succ]
    congr 3 <;> omega
  have hboard : board ∈ List.range' first (alight - first) := by
    rw [List.mem_range'_1]
    omega
  obtain ⟨r', hr', htrip⟩ := h.onTrip_ridersAfter hboard []
  refine ⟨r', htrip, List.mem_flatMap.mpr ⟨(pattern, first), hpattern, ?_⟩⟩
  exact mem_ridesAlong.mpr ⟨_, _, _, hsplit, hcan, r', hr', rfl⟩

end SearchContext

end TransitRouting
