/-
  TransitRouting.Proofs.Iteration.Chains
  ──────────────────────────────────────
  Chains of rides with walks in between, and when a search matches them.

  A search keeps the best labels of a stop whatever they can do next, so it may
  lose a chain of rides in two ways.  All labels that stand where a ride ends may
  be of those who came on foot, but nobody walks on or leaves from them.  Or rules
  apply to all labels that stand where a trip is boarded, for they came on other
  trips than the chain.  Where neither is the case, the chain is matched by one
  that arrives as early with no more rides.

  Main statements:

    • `SearchContext.Chain.reachedBy` — the induction along the chain: what
      stands at the end of each of its rides is as early;
    • `SearchContext.Chain.delivers` — so is some destination label.
-/
import TransitRouting.Proofs.Iteration.Onward

namespace TransitRouting

/-! ## §1. Chains of rides and walks. -/

/-- The trip can be ridden from one halt to the other. -/
structure Network.Offers (n : Network) (pattern trip board alight : Nat) : Prop where
  trip_lt : trip < (n.pattern pattern).trips.length
  canBoard : (n.pattern pattern).canBoard board = true
  canAlight : (n.pattern pattern).canAlight alight = true
  board_lt_alight : board < alight
  alight_lt : alight < (n.pattern pattern).length

instance (n : Network) (pattern trip board alight : Nat) :
    Decidable (n.Offers pattern trip board alight) :=
  decidable_of_iff
    (trip < (n.pattern pattern).trips.length ∧ (n.pattern pattern).canBoard board = true ∧
      (n.pattern pattern).canAlight alight = true ∧ board < alight ∧
      alight < (n.pattern pattern).length)
    ⟨fun h => ⟨h.1, h.2.1, h.2.2.1, h.2.2.2.1, h.2.2.2.2⟩,
      fun h => ⟨h.trip_lt, h.canBoard, h.canAlight, h.board_lt_alight, h.alight_lt⟩⟩

/-- The end of a ride. -/
structure Alighting where
  /-- Number of rides so far. -/
  rides : Nat
  /-- The trip, and the position where it is left. -/
  feeder : Feeder
  /-- The stop there. -/
  stop : Nat
  /-- When it is left. -/
  time : Time
deriving DecidableEq

/-- Getting off a trip at a position. -/
def Network.alighting (n : Network) (rides pattern trip alight : Nat) : Alighting :=
  { rides
    feeder := ⟨pattern, ((n.pattern pattern).trip trip).id, alight⟩
    stop := (n.pattern pattern).stopAt alight
    time := ((n.pattern pattern).trip trip).arrivalAt alight }

/-- A change to the next trip, on foot if it leaves from another stop. -/
structure Change where
  /-- The end of the ride before. -/
  before : Alighting
  /-- The footpath to the other stop. -/
  walk : Option Footpath
  /-- Number of the pattern that is boarded. -/
  pattern : Nat
  /-- Position where it is boarded. -/
  position : Nat
deriving DecidableEq

namespace Change

/-- The stop to which the traveller gets. -/
def stop (c : Change) : Nat :=
  match c.walk with
  | none => c.before.stop
  | some path => path.destination

/-- When the traveller gets there. -/
def time (c : Change) : Time :=
  match c.walk with
  | none => c.before.time
  | some path => c.before.time + path.duration

end Change

namespace SearchContext

/-- Rides one after the other, up to the end of the last one, and the changes
between them.  The first trip may be boarded at once, and every later one after
the usual time for changing to it. -/
inductive Chain (ctx : SearchContext) (departure : Time) : List Change → Alighting → Prop
  /-- A ride from a stop to which a connector leads. -/
  | start {c : Connector} {pattern trip board alight : Nat} (hc : c ∈ ctx.access)
      (hride : ctx.network.Offers pattern trip board alight)
      (hstop : (ctx.network.pattern pattern).stopAt board = c.stop)
      (hcatch : departure + c.duration ≤
        ((ctx.network.pattern pattern).trip trip).departureAt board) :
      Chain ctx departure [] (ctx.network.alighting 1 pattern trip alight)
  /-- One more ride. -/
  | change {changes : List Change} {x : Alighting} {c : Change} {trip alight : Nat}
      (h : Chain ctx departure changes x) (hbefore : c.before = x)
      (hwalk : ∀ path ∈ c.walk, path ∈ ctx.network.schedule.footpaths ∧ path.origin = x.stop)
      (hride : ctx.network.Offers c.pattern trip c.position alight)
      (hstop : (ctx.network.pattern c.pattern).stopAt c.position = c.stop)
      (hcatch : c.time + ctx.slackFor (ctx.network.pattern c.pattern) ≤
        ((ctx.network.pattern c.pattern).trip trip).departureAt c.position) :
      Chain ctx departure (changes ++ [c])
        (ctx.network.alighting (x.rides + 1) c.pattern trip alight)

variable {ctx : SearchContext} {departure : Time} {s : LabelStore} {changes : List Change}
  {x : Alighting}

/-- One walks along footpaths only. -/
theorem Chain.exists_footpath (h : ctx.Chain departure changes x) :
    ∀ c ∈ changes, c.walk.isSome = true → ∃ path, path ∈ ctx.network.schedule.footpaths := by
  induction h with
  | start => intro c hc; cases hc
  | @change changes x c trip alight _ _ hwalk _ _ _ ih =>
      intro c' hc' hsome
      rcases List.mem_append.mp hc' with hc' | hc'
      · exact ih c' hc' hsome
      · obtain rfl := List.mem_singleton.mp hc'
        obtain ⟨path, hpath⟩ := Option.isSome_iff_exists.mp hsome
        exact ⟨path, (hwalk path hpath).1⟩

theorem Chain.rides_pos (h : ctx.Chain departure changes x) : 0 < x.rides := by
  cases h <;> exact Nat.succ_pos _

end SearchContext

/-! ## §2. What stands at a stop. -/

/-- Of those who are there as early and with no more rides, all came on foot. -/
def LabelStore.Hides (s : LabelStore) (x : Alighting) : Prop :=
  s.ReachedBy x.stop x.rides x.time ∧
    ∀ k ≤ x.rides, ∀ e ∈ s.bestLabels k x.stop, e.2.arrival ≤ x.time → e.2.isRide = false

instance (s : LabelStore) (x : Alighting) : Decidable (s.Hides x) :=
  inferInstanceAs (Decidable (_ ∧ ∀ k ≤ x.rides, ∀ e ∈ s.bestLabels k x.stop, _))

/-- Of those who are at the stop of the change as early and with no more rides, there
is one to whom no rule applies. -/
def LabelStore.Unruled (s : LabelStore) (n : Network) (c : Change) : Prop :=
  s.ReachedBy c.stop c.before.rides c.time →
    ∃ k ≤ c.before.rides, ∃ e ∈ s.bestLabels k c.stop, e.2.arrival ≤ c.time ∧ ∀ feeder,
      s.arrivingTrip e.2 = some feeder → n.applicableRules feeder c.pattern c.position = []

theorem LabelStore.exists_ride_of_not_hides {s : LabelStore} {x : Alighting}
    (h : s.ReachedBy x.stop x.rides x.time) (hshown : ¬ s.Hides x) :
    ∃ k ≤ x.rides, ∃ e ∈ s.bestLabels k x.stop, e.2.isRide = true ∧ e.2.arrival ≤ x.time := by
  by_contra hnone
  apply hshown
  refine ⟨h, ?_⟩
  intro k hk e he hearly
  by_contra hride
  exact hnone ⟨k, hk, e, he, by simpa using hride, hearly⟩

namespace SearchContext

variable {ctx : SearchContext} {departure : Time} {s : LabelStore}

/-- Whoever has not ridden yet left no trip. -/
theorem StoreSound.arrivingTrip_of_round_zero {last stop : Nat} {place : LabelPlace} {e : Label}
    (h : ctx.StoreSound departure s last) (he : (place, e) ∈ s.bestLabels 0 stop) :
    s.arrivingTrip e = none := by
  obtain ⟨rest, hway⟩ := h.realised (h.soundTo.valid.label?_of_mem_bestLabels he)
  rw [(LabelStore.mem_bestLabels.mp he).1] at hway
  generalize hround : 0 = round at hway
  cases hway with
  | access hl =>
      obtain ⟨c, index, -, -, -, happroach, -⟩ := mem_seeds hl
      simp [LabelStore.arrivingTrip, happroach]
  | ride => cases hround
  | walk hbefore _ _ hride => exact absurd hround.symm (hbefore.round_ne_zero hride)

/-- Where no connector and no footpath leads, nobody comes on foot. -/
theorem StoreSound.not_hides {last : Nat} {x : Alighting} (hn : ctx.network.Valid)
    (h : ctx.StoreSound departure s last) (haccess : ∀ c ∈ ctx.access, c.stop ≠ x.stop)
    (hpaths : ∀ path ∈ ctx.network.schedule.footpaths, path.destination ≠ x.stop) :
    ¬ s.Hides x := by
  intro hhides
  obtain ⟨⟨k, hk, ⟨place, e⟩, he, hearly⟩, hfoot⟩ := hhides
  have hride : e.isRide = false := hfoot k hk _ he hearly
  have hstop : e.stop = x.stop := h.soundTo.valid.stop_of_mem_bestLabels he
  obtain ⟨rest, hway⟩ := h.realised (h.soundTo.valid.label?_of_mem_bestLabels he)
  generalize place.round = round at hway
  cases hway with
  | access hl =>
      obtain ⟨c, index, hc, hconnector, -⟩ := mem_seeds hl
      apply haccess c (List.mem_of_getElem? (List.mem_zipIdx_iff_getElem?.mp hc))
      exact hconnector.symm.trans hstop
  | ride => cases hride
  | @walk _ _ _ _ path _ _ _ _ hpath =>
      exact hpaths path (hn.mem_footpathsFrom hpath).1 hstop

/-! ## §3. Chains are matched. -/

variable {changes : List Change} {x : Alighting} {interrupt : Interrupt}

/-- What stands at the end of a chain is as early, if somebody stands where the chain
walks on who came on a trip, and where it changes one to whom no rule applies. -/
theorem Chain.reachedBy (hctx : ctx.Valid)
    (hrun : (Iteration.run ctx interrupt departure).cancelled = false)
    (h : ctx.Chain departure changes x) (hlimit : x.rides ≤ ctx.maxRounds)
    (hshown : ∀ c ∈ changes, c.walk.isSome = true →
      ¬ (Iteration.run ctx interrupt departure).store.Hides c.before)
    (hrules : ∀ c ∈ changes,
      (Iteration.run ctx interrupt departure).store.Unruled ctx.network c) :
    (Iteration.run ctx interrupt departure).store.ReachedBy x.stop x.rides x.time := by
  obtain ⟨hsound, hdeparture⟩ := Iteration.run_sound hctx interrupt departure
  have hstore := hsound.store
  have hstarted := hsound.started
  rw [hdeparture] at hstore hstarted
  have hclosed := Iteration.run_closed hctx hrun
  have hwalked := Iteration.run_walked hctx hrun
  generalize (Iteration.run ctx interrupt departure).store = s at *
  induction h with
  | @start c pattern trip board alight hc hride hstop hcatch =>
      obtain ⟨l, hl, hlstop, harrival⟩ := exists_seed hc
      have hreached : s.ReachedBy c.stop 0 (departure + c.duration) :=
        hlstop ▸ harrival ▸ hstarted l hl
      obtain ⟨k, hk, e, he, hearly⟩ := hreached
      apply reachedBy_of_catch hctx.network hclosed ⟨k, hk, e, he, hearly, ?_⟩ hlimit hstop
        hride.canBoard hride.board_lt_alight hride.alight_lt hride.canAlight hride.trip_lt hcatch
      intro feeder hfeeder
      obtain rfl : k = 0 := Nat.le_zero.mp hk
      rw [hstore.arrivingTrip_of_round_zero he] at hfeeder
      cases hfeeder
  | @change changes x c trip alight h hbefore hwalk hride hstop hcatch ih =>
      subst hbefore
      have hlimit' : c.before.rides < ctx.maxRounds := hlimit
      have hreached := ih (Nat.le_of_lt hlimit')
        (fun c' hc' => hshown c' (List.mem_append_left _ hc'))
        (fun c' hc' => hrules c' (List.mem_append_left _ hc'))
      -- Where the next trip is boarded, one is as early as the chain.
      have hready : s.ReachedBy c.stop c.before.rides c.time := by
        cases hpath : c.walk with
        | none =>
            unfold Change.stop Change.time
            rw [hpath]
            exact hreached
        | some path =>
            have hnotHidden := hshown c (by simp) (by simp [hpath])
            obtain ⟨k, hk, e, he, hisRide, hearly⟩ :=
              LabelStore.exists_ride_of_not_hides hreached hnotHidden
            obtain ⟨hmem, horigin⟩ := hwalk path (by simp [hpath])
            have hpathFrom : path ∈ ctx.network.footpathsFrom c.before.stop :=
              hctx.network.mem_footpathsFrom_iff.mpr ⟨hmem, horigin⟩
            have hfoot := hwalked k he hisRide hpathFrom
            unfold Change.stop Change.time
            rw [hpath]
            exact hfoot.mono hk (Time.add_le_add hearly (Nat.le_refl _))
      have hlate : c.before.rides ≠ 0 := Nat.ne_of_gt h.rides_pos
      apply reachedBy_of_catch hctx.network hclosed (hrules c (by simp) hready) hlimit' hstop
        hride.canBoard hride.board_lt_alight hride.alight_lt hride.canAlight hride.trip_lt
      rw [if_neg hlate]
      exact hcatch

end SearchContext

/-- Some destination label is there by the time. -/
def Iteration.Delivers (it : Iteration) (t : Time) : Prop := Label.ArriveBy it.destinations t

instance (it : Iteration) (t : Time) : Decidable (it.Delivers t) :=
  inferInstanceAs (Decidable (∃ d ∈ it.destinations, d.arrival ≤ t))

/-- A chain that ends at a connector to the destination is matched there, if in
addition somebody who came on a trip stands at its end. -/
theorem SearchContext.Chain.delivers {ctx : SearchContext} {departure : Time}
    {interrupt : Interrupt} {changes : List Change} {x : Alighting} (hctx : ctx.Valid)
    (hrun : (Iteration.run ctx interrupt departure).cancelled = false)
    (h : ctx.Chain departure changes x) (hlimit : x.rides ≤ ctx.maxRounds)
    (hshown : ∀ c ∈ changes, c.walk.isSome = true →
      ¬ (Iteration.run ctx interrupt departure).store.Hides c.before)
    (hrules : ∀ c ∈ changes,
      (Iteration.run ctx interrupt departure).store.Unruled ctx.network c)
    (hlast : ¬ (Iteration.run ctx interrupt departure).store.Hides x) {c : Connector}
    (hc : c ∈ ctx.egress) (hstop : x.stop = c.stop) :
    (Iteration.run ctx interrupt departure).Delivers (x.time + c.duration) := by
  have hreached := h.reachedBy hctx hrun hlimit hshown hrules
  obtain ⟨k, -, e, he, hride, hearly⟩ := LabelStore.exists_ride_of_not_hides hreached hlast
  rw [hstop] at he
  obtain ⟨d, hd, hle⟩ := Iteration.run_delivered hctx interrupt departure k hc he hride
  exact ⟨d, hd, Time.le_trans hle (Time.add_le_add hearly (Nat.le_refl _))⟩

end TransitRouting
