/-
  TransitRouting.Proofs.Iteration.Ways
  ────────────────────────────────────
  How a label came about, all the way from the origin.

  Every label of a store was made by one of three steps: by leaving the origin,
  by riding a trip on from a label of the round before, or by walking on from a
  ride of the same round.  A way is the list of all labels from one back to the
  origin, with what each step relied on.

  Main statements:

    • `SearchContext.Way.keeps` — a way stays one while labels are added;
    • `SearchContext.Way.trail?_eq` — following references gives it;
    • `SearchContext.realised_of_mem_rides`, `SearchContext.realised_of_mem_walks`
      — what a round offers has a way if what it starts from has one.
-/
import TransitRouting.Journey.Assembly
import TransitRouting.Proofs.Boarding
import TransitRouting.Proofs.Iteration.Rides

namespace TransitRouting

/-! ## §1. Ways. -/

/-- The ride as that of a traveller who has just left it. -/
def Ride.feeder (r : Ride) : Feeder := ⟨r.pattern, r.tripId, r.alightPosition⟩

/-- Every label of the first store is in its place in the second. -/
def LabelStore.Keeps (s s' : LabelStore) : Prop :=
  ∀ {place l}, s.label? place = some l → s'.label? place = some l

namespace SearchContext

/-- The labels from one in a given round back to the origin. -/
inductive Way (ctx : SearchContext) (departure : Time) (s : LabelStore) : Nat → List Label → Prop
  /-- By a connector from the origin. -/
  | access {l : Label} (hl : l ∈ ctx.seeds departure) : Way ctx departure s 0 [l]
  /-- On board a trip, from a label of the round before. -/
  | ride {round : Nat} {l : Label} {rest : List Label} {place : LabelPlace}
      {pattern board alight : Nat} {r : Rider}
      (hway : Way ctx departure s round (l :: rest)) (hplace : s.label? place = some l)
      (hround : place.round = round)
      (hstop : (ctx.network.pattern pattern).stopAt board = l.stop)
      (hrider : ctx.riderFrom? (s.arrivingTrip l) (round + 1) pattern board place l = some r)
      (hlt : board < alight) (hlength : alight < (ctx.network.pattern pattern).length)
      (hcan : (ctx.network.pattern pattern).canAlight alight = true) :
      Way ctx departure s (round + 1) (ctx.alight (round + 1) pattern alight r :: l :: rest)
  /-- On foot, from a ride of the same round. -/
  | walk {round : Nat} {l : Label} {rest : List Label} {place : LabelPlace} {path : Footpath}
      (hway : Way ctx departure s round (l :: rest)) (hplace : s.label? place = some l)
      (hround : place.round = round) (hride : l.isRide = true)
      (hpath : path ∈ ctx.network.footpathsFrom l.stop) :
      Way ctx departure s round (ctx.walkOn place l path :: l :: rest)

/-- The label, in the given round, has a way. -/
def Realised (ctx : SearchContext) (departure : Time) (s : LabelStore) (round : Nat) (l : Label) :
    Prop :=
  ∃ rest, ctx.Way departure s round (l :: rest)

variable {ctx : SearchContext} {departure : Time} {s s' : LabelStore}

theorem mem_seeds {l : Label} (h : l ∈ ctx.seeds departure) :
    ∃ c index, (c, index) ∈ ctx.access.zipIdx ∧ l.stop = c.stop ∧
      l.arrival = departure + c.duration ∧ l.approach = .access index c.duration ∧
      l.criteria.cost = ctx.pricing.connector c ∧ l.criteria.groups = GroupSet.empty ∧
      l.parent = none := by
  obtain ⟨⟨c, index⟩, hc, rfl⟩ := List.mem_map.mp h
  exact ⟨c, index, hc, rfl, rfl, rfl, rfl, rfl, rfl⟩

/-- Every connector from the origin gives a label where it ends. -/
theorem exists_seed {c : Connector} (hc : c ∈ ctx.access) :
    ∃ l ∈ ctx.seeds departure, l.stop = c.stop ∧ l.arrival = departure + c.duration := by
  obtain ⟨index, hindex⟩ := List.mem_iff_getElem?.mp hc
  have hzip : (c, index) ∈ ctx.access.zipIdx := List.mem_zipIdx_iff_getElem?.mpr hindex
  exact ⟨_, List.mem_map_of_mem hzip, rfl, rfl⟩

theorem isRide_of_mem_seeds {l : Label} (h : l ∈ ctx.seeds departure) : l.isRide = false := by
  obtain ⟨c, index, -, -, -, happroach, -⟩ := mem_seeds h
  simp [Label.isRide, Label.ride?, happroach]

/-- The trip that was boarded, and from which label. -/
theorem of_riderFrom? {f : Option Feeder} {round pattern position : Nat} {place : LabelPlace}
    {l : Label} {r : Rider} (h : ctx.riderFrom? f round pattern position place l = some r) :
    r.parent = place ∧
      ctx.network.earliestBoarding pattern position
        (if round = 1 then l.arrival else l.arrival + ctx.slackFor (ctx.network.pattern pattern))
        l.arrival f = .found r.boarding := by
  unfold riderFrom? at h
  simp only [decide_eq_true_eq] at h
  split at h
  · next b hb =>
      obtain rfl := Option.some.inj h
      exact ⟨rfl, hb⟩
  · cases h

/-- No ride ends before the first round. -/
theorem Way.round_ne_zero {round : Nat} {l : Label} {rest : List Label}
    (h : ctx.Way departure s round (l :: rest)) (hride : l.isRide = true) : round ≠ 0 := by
  cases h with
  | access hl =>
      rw [isRide_of_mem_seeds hl] at hride
      cases hride
  | ride => exact Nat.succ_ne_zero _
  | walk => cases hride

/-! ## §2. Ways last. -/

/-- Which trip a label with a way arrived on does not depend on later labels. -/
theorem Way.arrivingTrip_eq {round : Nat} {l : Label} {rest : List Label}
    (h : ctx.Way departure s round (l :: rest)) (hkeeps : s.Keeps s') :
    s'.arrivingTrip l = s.arrivingTrip l := by
  cases h with
  | access hl =>
      obtain ⟨c, index, -, -, -, happroach, -⟩ := mem_seeds hl
      simp [LabelStore.arrivingTrip, happroach]
  | ride => rfl
  | walk hway hplace hround hride hpath =>
      show ((s'.label? _).bind _) = ((s.label? _).bind _)
      rw [hplace, hkeeps hplace]

/-- A way stays one while labels are added. -/
theorem Way.keeps {round : Nat} {trail : List Label} (h : ctx.Way departure s round trail)
    (hkeeps : s.Keeps s') : ctx.Way departure s' round trail := by
  induction h with
  | access hl => exact .access hl
  | ride hway hplace hround hstop hrider hlt hlength hcan ih =>
      rw [← hway.arrivingTrip_eq hkeeps] at hrider
      exact .ride ih (hkeeps hplace) hround hstop hrider hlt hlength hcan
  | walk hway hplace hround hride hpath ih => exact .walk ih (hkeeps hplace) hround hride hpath

theorem Realised.keeps {round : Nat} {l : Label} (h : ctx.Realised departure s round l)
    (hkeeps : s.Keeps s') : ctx.Realised departure s' round l := by
  obtain ⟨rest, hway⟩ := h
  exact ⟨rest, hway.keeps hkeeps⟩

/-- Following the references of the last label gives the way, if as many steps
are allowed as it has references. -/
theorem Way.trailWithin_eq {round : Nat} {way : List Label}
    (h : ctx.Way departure s round way) :
    ∀ {l rest steps}, way = l :: rest → rest.length ≤ steps →
      s.trailWithin steps l = some way := by
  induction h with
  | access hl =>
      intro l rest steps heq _
      cases heq
      obtain ⟨c, index, -, -, -, -, -, -, hparent⟩ := mem_seeds hl
      unfold LabelStore.trailWithin
      rw [hparent]
  | @ride round p before place pattern board alight r hway hplace _ _ hrider _ _ _ ih =>
      intro l rest steps heq hsteps
      cases heq
      have hparent : (ctx.alight (round + 1) pattern alight r).parent = some place :=
        congrArg some (of_riderFrom? hrider).1
      obtain ⟨fewer, rfl⟩ := Nat.exists_eq_succ_of_ne_zero (Nat.ne_zero_of_lt hsteps)
      unfold LabelStore.trailWithin
      simp only [hparent, hplace, ih rfl (Nat.le_of_succ_le_succ hsteps), Option.map_some]
  | @walk round p before place path hway hplace _ _ _ ih =>
      intro l rest steps heq hsteps
      cases heq
      have hparent : (ctx.walkOn place p path).parent = some place := rfl
      obtain ⟨fewer, rfl⟩ := Nat.exists_eq_succ_of_ne_zero (Nat.ne_zero_of_lt hsteps)
      unfold LabelStore.trailWithin
      simp only [hparent, hplace, ih rfl (Nat.le_of_succ_le_succ hsteps), Option.map_some]

/-- No label comes twice on a way: one that ends with a ride has, besides it,
only labels of earlier rounds, and a walk adds one of its own round. -/
theorem Way.length_le {round : Nat} {way : List Label} (h : ctx.Way departure s round way) :
    ∀ {l rest place}, way = l :: rest → s.label? place = some l → place.round = round →
      (l.isRide = true → way.length ≤ s.countBefore round + 1) ∧
        way.length ≤ s.countBefore (round + 1) := by
  induction h with
  | @access l' hl =>
      intro l rest place heq hplace hround
      cases heq
      have hsize := LabelStore.index_lt_of_label? hplace
      rw [hround] at hsize
      simp only [List.length_singleton, LabelStore.countBefore]
      exact ⟨fun _ => by omega, by omega⟩
  | @ride round p before parent pattern board alight r hway hparent hround' _ _ _ _ _ ih =>
      intro l rest place heq hplace hround
      cases heq
      obtain ⟨-, hbefore⟩ := ih rfl hparent hround'
      have hsize := LabelStore.index_lt_of_label? hplace
      rw [hround] at hsize
      rw [List.length_cons]
      refine ⟨fun _ => by omega, ?_⟩
      rw [LabelStore.countBefore]
      omega
  | @walk round p before parent path hway hparent hround' hride _ ih =>
      intro l rest place heq hplace hround
      cases heq
      obtain ⟨hbefore, -⟩ := ih rfl hparent hround'
      have hbefore := hbefore hride
      refine ⟨(fun hwalk => by cases hwalk), ?_⟩
      -- The walk and the ride before it have places of their own.
      have hne : place.index ≠ parent.index := by
        intro hsame
        have hplaces : place = parent := by
          cases place
          cases parent
          simp_all
        rw [hplaces, hparent] at hplace
        rw [Option.some.inj hplace] at hride
        cases hride
      have hsize := LabelStore.index_lt_of_label? hplace
      have hsize' := LabelStore.index_lt_of_label? hparent
      rw [hround] at hsize
      rw [hround'] at hsize'
      rw [List.length_cons, LabelStore.countBefore]
      omega

/-- The chain of references of a label that is kept is its way. -/
theorem Way.trail?_eq {l : Label} {rest : List Label} {place : LabelPlace}
    (h : ctx.Way departure s place.round (l :: rest)) (hplace : s.label? place = some l) :
    s.trail? l = some (l :: rest) ∧ (l :: rest).length ≤ s.size := by
  obtain ⟨-, hlength⟩ := h.length_le rfl hplace rfl
  have hsize := Nat.le_trans hlength (s.countBefore_le_size _)
  rw [List.length_cons] at hsize
  exact ⟨h.trailWithin_eq rfl (Nat.le_of_succ_le hsize), hsize⟩

/-- One who leaves for the destination adds one label to the way. -/
theorem Way.trail?_leave {q : Label} {rest : List Label} {place : LabelPlace}
    (h : ctx.Way departure s place.round (q :: rest)) (hq : s.label? place = some q)
    (c : Connector) (index : Nat) :
    s.trail? (ctx.leave place q c index) = some (ctx.leave place q c index :: q :: rest) := by
  obtain ⟨-, hsize⟩ := h.trail?_eq hq
  rw [List.length_cons] at hsize
  have hparent : (ctx.leave place q c index).parent = some place := rfl
  obtain ⟨fewer, hfewer⟩ := Nat.exists_eq_succ_of_ne_zero (Nat.ne_zero_of_lt hsize)
  rw [hfewer] at hsize
  have htail := h.trailWithin_eq rfl (Nat.le_of_succ_le_succ hsize)
  unfold LabelStore.trail? LabelStore.trailWithin
  simp only [hfewer, hparent, hq, htail, Option.map_some]

/-! ## §3. What a round offers has a way. -/

theorem realised_of_mem_seeds {l : Label} (h : l ∈ ctx.seeds departure) :
    ctx.Realised departure s 0 l :=
  ⟨[], .access h⟩

theorem realised_of_mem_rides (hs : s.Valid) {round : Nat}
    (hstored : ∀ {place l}, s.label? place = some l → ctx.Realised departure s place.round l)
    {l : Label} (h : l ∈ ctx.rides s (round + 1)) : ctx.Realised departure s (round + 1) l := by
  obtain ⟨pattern, board, alight, r, ⟨-, place, e, he, hrider⟩, hlt, hlength, hcan, rfl⟩ :=
    mem_rides h
  rw [Nat.add_sub_cancel] at he
  have hplace := hs.label?_of_mem_bestLabels he
  have hround : place.round = round := (LabelStore.mem_bestLabels.mp he).1
  have hstop := hs.stop_of_mem_bestLabels he
  obtain ⟨rest, hway⟩ := hstored hplace
  rw [hround] at hway
  exact ⟨e :: rest, .ride hway hplace hround hstop.symm hrider hlt hlength hcan⟩

/-- Walks lead on from the best rides of the round. -/
theorem mem_walks {round : Nat} {l : Label} (h : l ∈ ctx.walks s round) :
    ∃ stop place e path, (place, e) ∈ s.bestLabels round stop ∧ e.isRide = true ∧
      path ∈ ctx.network.footpathsFrom e.stop ∧ l = ctx.walkOn place e path := by
  obtain ⟨⟨place, e⟩, hsource, hl⟩ := List.mem_flatMap.mp h
  obtain ⟨stop, -, he⟩ := List.mem_flatMap.mp hsource
  obtain ⟨hbest, hride⟩ := List.mem_filter.mp he
  obtain ⟨path, hpath, rfl⟩ := List.mem_map.mp hl
  exact ⟨stop, place, e, path, hbest, hride, hpath, rfl⟩

theorem realised_of_mem_walks (hs : s.Valid) {round : Nat}
    (hstored : ∀ {place l}, s.label? place = some l → ctx.Realised departure s place.round l)
    {l : Label} (h : l ∈ ctx.walks s round) : ctx.Realised departure s round l := by
  obtain ⟨stop, place, e, path, he, hride, hpath, rfl⟩ := mem_walks h
  have hplace := hs.label?_of_mem_bestLabels he
  have hround : place.round = round := (LabelStore.mem_bestLabels.mp he).1
  obtain ⟨rest, hway⟩ := hstored hplace
  rw [hround] at hway
  exact ⟨e :: rest, .walk hway hplace hround hride hpath⟩

end SearchContext

end TransitRouting
