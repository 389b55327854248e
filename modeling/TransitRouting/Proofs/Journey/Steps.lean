/-
  TransitRouting.Proofs.Journey.Steps
  ───────────────────────────────────
  From the trail of a destination label to the steps of a journey.

  The chain of references from a destination label leads over the rides of a
  trail back to a connector.  On the real timeline it becomes a way from one
  connector to another, with the rides of the trail in the order of travel and
  their changes in between, in whichever direction the labels were found.

  Main statement: `Assembly.Suits.exists_leads` — every destination label of a
  search has such steps.
-/
import TransitRouting.Proofs.Journey.Timeline

namespace TransitRouting

/-! ## §1. Steps in the order of travel. -/

/-- The step of a walk along a footpath. -/
def Footpath.toStep (path : Footpath) : Step := .walk path.origin path.destination path.duration

namespace Assembly

/-- The steps of rides and walks of a search, with its changes in between. -/
def Travels (a : Assembly) (ctx : SearchContext) (s : LabelStore) :
    Label × Ride → List Step → Label × Ride → Prop :=
  Itinerary (fun x => .ride (a.stepOf x.2)) (fun w => (a.pathOf w.2).toStep)
    (fun x => ctx.network.Brings x.1 x.2) (a.Changed ctx s)

variable {a : Assembly} {ctx : SearchContext} {t : Timetable} {s : LabelStore}

/-- The rides of a trail that a forward search found, in the opposite order. -/
theorem Suits.travels_forward (h : a.Suits ctx t) (hd : a.direction = .forward)
    {x y : Label × Ride} {rides : List Label}
    (hrides : Itinerary Prod.fst Prod.fst (fun x => ctx.network.Brings x.1 x.2) (ctx.Changes s)
      x rides y) :
    a.Travels ctx s y (rides.map (·.toStep a.direction a.network)).reverse x := by
  have hchanged : a.Changed ctx s = fun p w q => ctx.Changes s q w p := by
    funext p w q
    unfold Changed
    rw [hd]
  unfold Travels
  rw [hchanged]
  refine (Itinerary.map _ id id ?_ ?_ ?_ hrides).reverse
  · intro p hp
    exact ⟨Label.toStep_ride hp.approach _ _, hp⟩
  · intro p w q hchange
    have hwalks := hchange.walked w rfl
    have horigin := (h.network_valid.mem_footpathsFrom hwalks.mem_footpaths).2
    unfold Label.toStep
    rw [hwalks.approach, hd, pathOf_forward hd, ← horigin, hwalks.stop_eq]
    rfl
  · intro p w q _ _ hchange
    rw [Option.map_id]
    exact hchange

/-- The rides of a trail that a search in reverse found, as they are. -/
theorem Suits.travels_reverse (h : a.Suits ctx t) (hd : a.direction = .reverse)
    {x y : Label × Ride} {rides : List Label}
    (hrides : Itinerary Prod.fst Prod.fst (fun x => ctx.network.Brings x.1 x.2) (ctx.Changes s)
      x rides y) :
    a.Travels ctx s x (rides.map (·.toStep a.direction a.network)) y := by
  have hchanged : a.Changed ctx s = ctx.Changes s := by
    funext p w q
    unfold Changed
    rw [hd]
  unfold Travels
  rw [hchanged]
  refine Itinerary.map _ id id ?_ ?_ ?_ hrides
  · intro p hp
    exact ⟨Label.toStep_ride hp.approach _ _, hp⟩
  · intro p w q hchange
    have hwalks := hchange.walked w rfl
    have horigin := (h.network_valid.mem_footpathsFrom hwalks.mem_footpaths).2
    unfold Label.toStep
    rw [hwalks.approach, hd, pathOf_reverse hd, ← horigin, hwalks.stop_eq]
    rfl
  · intro p w q _ _ hchange
    rw [Option.map_id]
    exact hchange

/-- There are no connectors among the steps. -/
theorem Travels.no_connectors {x y : Label × Ride} {steps : List Step}
    (h : a.Travels ctx s x steps y) :
    ∀ step ∈ steps, step.access? = none ∧ step.egress? = none := by
  intro step hstep
  rcases h.of_mem hstep with ⟨ride, -, rfl⟩ | ⟨_, w, _, -, rfl⟩
  · exact ⟨rfl, rfl⟩
  · exact ⟨rfl, rfl⟩

/-- Between two connectors, these are the only ones. -/
theorem Travels.filterMap_connectors {x y : Label × Ride} {steps : List Step}
    (h : a.Travels ctx s x steps y) (i j : Nat) :
    (Step.access i :: (steps ++ [Step.egress j])).filterMap Step.access? = [i] ∧
      (Step.access i :: (steps ++ [Step.egress j])).filterMap Step.egress? = [j] := by
  have haccess : steps.filterMap Step.access? = [] :=
    List.filterMap_eq_nil_iff.mpr fun step hstep => (h.no_connectors step hstep).1
  have hegress : steps.filterMap Step.egress? = [] :=
    List.filterMap_eq_nil_iff.mpr fun step hstep => (h.no_connectors step hstep).2
  constructor
  · rw [List.filterMap_cons, List.filterMap_append, haccess]
    rfl
  · rw [List.filterMap_cons, List.filterMap_append, hegress]
    rfl

end Assembly

/-! ## §2. The chain of a destination label. -/

namespace SearchContext

/-- The search started with the ride, by way of the connector. -/
def Starts (ctx : SearchContext) (departure : Time) (c : Connector) (x : Label × Ride) : Prop :=
  ∃ origin index, (c, index) ∈ ctx.access.zipIdx ∧ origin ∈ ctx.seeds departure ∧
    origin.approach = .access index c.duration ∧
    origin.criteria.cost = ctx.pricing.connector c ∧ origin.criteria.groups = GroupSet.empty ∧
    ctx.Charges x origin true

/-- The destination label leads out of the ride, by way of the connector. -/
def Ends (ctx : SearchContext) (s : LabelStore) (d : Label) (x : Label × Ride) (c : Connector) :
    Prop :=
  ∃ place index, s.label? place = some x.1 ∧ (c, index) ∈ ctx.egress.zipIdx ∧
    d = ctx.leave place x.1 c index

/-- The chain of a destination label goes on from it over the trail of a
ride. -/
theorem LeadsOut.trail {ctx : SearchContext} {departure : Time} {s : LabelStore} {last : Nat}
    (hn : ctx.network.Valid) (hs : ctx.StoreSound departure s last) {d : Label}
    (hd : ctx.LeadsOut s d) :
    ∃ place q c index way, d = ctx.leave place q c index ∧ s.label? place = some q ∧
      q.stop = c.stop ∧ (c, index) ∈ ctx.egress.zipIdx ∧ s.trail? d = some (d :: way) ∧
      ctx.Trail departure s q way := by
  obtain ⟨place, q, c, index, hq, hride, hstop, hc, rfl⟩ := hd
  obtain ⟨rest, hway⟩ := hs.realised hq
  have hchain := hway.trail?_leave hq c index
  exact ⟨place, q, c, index, _, rfl, hq, hstop, hc, hchain, (hway.trail hn rfl hq).1 hride⟩

end SearchContext

/-! ## §3. The steps of a destination label. -/

namespace Assembly

variable {a : Assembly} {ctx : SearchContext} {t : Timetable} {s : LabelStore}

/-- The steps of a chain from a connector over rides to the destination. -/
theorem steps?_eq {d origin : Label} {rides : List Label} {i j : Nat} {x y : Duration}
    (hchain : s.trail? d = some (d :: (rides ++ [origin])))
    (horigin : origin.approach = .access i x)
    (hd : d.approach = .egress j y) :
    a.steps? s d = some
      (if a.direction = .forward then
        .access i :: ((rides.map (·.toStep a.direction a.network)).reverse ++ [.egress j])
      else .access j :: (rides.map (·.toStep a.direction a.network) ++ [.egress i])) := by
  have hlast : (d :: (rides ++ [origin])).getLast? = some origin := by
    rw [← List.cons_append]
    exact List.getLast?_concat
  unfold steps?
  simp only [hchain, Option.bind_eq_bind, Option.bind_some, hlast, horigin, hd]
  cases hdirection : a.direction with
  | forward => simp [Label.toStep, horigin, hd]
  | reverse => simp [Label.toStep, horigin, hd]

/-- The steps to the destination label lead from an access connector over the
rides and walks of the search to an egress connector. -/
structure Leads (a : Assembly) (ctx : SearchContext) (departure : Time) (s : LabelStore)
    (d : Label) (access : Connector) (first : Label × Ride) (middle : List Step)
    (last : Label × Ride) (egress : Connector) : Prop where
  steps_eq : ∃ i j, a.steps? s d = some (.access i :: (middle ++ [.egress j])) ∧
    a.access[i]? = some access ∧ a.egress[j]? = some egress
  travels : a.Travels ctx s first middle last
  boardStop : access.stop = (a.time (a.stepOf first.2) none).boardStop
  alightStop : (a.time (a.stepOf last.2) none).alightStop = egress.stop
  rule : a.direction = .forward → first.2.rule = none
  rule_last : a.direction = .reverse → last.2.rule = none
  /-- Which ride the search found first depends on its direction. -/
  framed : match a.direction with
    | .forward => ctx.Starts departure access first ∧ ctx.Ends s d last egress
    | .reverse => ctx.Starts departure egress last ∧ ctx.Ends s d first access

/-- Every destination label of a search has steps from one connector to another. -/
theorem Suits.exists_leads (h : a.Suits ctx t) {departure : Time} {rounds : Nat}
    (hs : ctx.StoreSound departure s rounds) {d : Label} (hd : ctx.LeadsOut s d) :
    ∃ access first middle last egress,
      a.Leads ctx departure s d access first middle last egress := by
  obtain ⟨place, q, c, index, way, rfl, hq, hstop, hc, hchain, r, first, rides, origin, rfl,
    horigin, hrides, hrule, hcharges, hboard⟩ := hd.trail h.network_valid hs
  obtain ⟨c', index', hc', hstop', -, happroach, hcost, hgroups, -⟩ :=
    SearchContext.mem_seeds horigin
  have hlookup := List.mem_zipIdx_iff_getElem?.mp hc
  have hlookup' := List.mem_zipIdx_iff_getElem?.mp hc'
  rw [h.egress] at hlookup
  rw [h.access] at hlookup'
  have hbrings := hrides.runs_first
  have hbrings' := hrides.runs_last
  have hsteps := steps?_eq (a := a) hchain happroach rfl
  have hstarts : ctx.Starts departure c' first :=
    ⟨origin, index', hc', horigin, happroach, hcost, hgroups, hcharges⟩
  have hends : ctx.Ends s (ctx.leave place q c index) (q, r) c := ⟨place, index, hq, hc, rfl⟩
  cases hdirection : a.direction with
  | forward =>
      -- The chain starts where the journey ends.
      rw [if_pos hdirection] at hlookup hlookup' hsteps
      have hend := (h.runs_forward hdirection hbrings none).2.2.2.2
      have hstart : c'.stop = (a.time (a.stepOf first.2) none).boardStop := by
        rw [← hstop', ← hboard, h.network_forward hdirection, stepOf_forward hdirection]
        rfl
      refine ⟨c', first, _, (q, r), c, ⟨⟨index', index, hsteps, hlookup', hlookup⟩,
        h.travels_forward hdirection hrides, hstart, hend.trans hstop, fun _ => hrule,
        fun hreverse => absurd (hdirection.symm.trans hreverse) Direction.noConfusion, ?_⟩⟩
      rw [hdirection]
      exact ⟨hstarts, hends⟩
  | reverse =>
      -- The chain starts where the journey starts.
      have hbackwards : ¬ a.direction = .forward := by
        rw [hdirection]
        exact Direction.noConfusion
      rw [if_neg hbackwards] at hlookup hlookup' hsteps
      have hstart := (h.runs_reverse hdirection hbrings none).2.2.2.2
      have hlt := Nat.lt_trans hbrings'.carries.board_lt_alight hbrings'.carries.alight_lt
      rw [h.pattern_reverse hdirection] at hboard hlt
      rw [Pattern.reversed_length] at hlt
      rw [Pattern.reversed_stopAt _ hlt] at hboard
      have hend : (a.time (a.stepOf first.2) none).alightStop = c'.stop := by
        rw [← hstop', ← hboard, stepOf_reverse hdirection]
        rfl
      refine ⟨c, (q, r), _, first, c', ⟨⟨index, index', hsteps, hlookup, hlookup'⟩,
        h.travels_reverse hdirection hrides, hstop.symm.trans hstart.symm, hend,
        fun hforward => absurd hforward hbackwards, fun _ => hrule, ?_⟩⟩
      rw [hdirection]
      exact ⟨hstarts, hends⟩

end Assembly

end TransitRouting
