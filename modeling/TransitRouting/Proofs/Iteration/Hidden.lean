/-
  TransitRouting.Proofs.Iteration.Hidden
  ──────────────────────────────────────
  Chains of rides that a search misses because somebody comes on foot.

  Labels compete on time, transfers, cost and groups alone.  So somebody who
  comes on foot keeps out one who comes on a trip later or at a higher cost,
  although only the latter could walk on or leave for the destination.

  Main statements:

    • `Iteration.delivers_of_not_hides` — without rules, a chain is matched at
      the destination unless those on foot keep it out;
    • `Iteration.not_delivers_shortcut` — a chain that somebody on foot keeps
      out.
-/
import TransitRouting.Proofs.Iteration.Chains
import TransitRouting.Proofs.Iteration.EarliestArrival

namespace TransitRouting

/-- On every timetable without rules, in either direction, an iteration that was
not interrupted finds a destination label that is as early as any chain within
the limit, unless those who stand where the chain ends or walks on, as early as it
and with no more rides, all came on foot. -/
theorem Iteration.delivers_of_not_hides {f : Feed} {t : Timetable} (hcompile : f.compile = .ok t)
    (hrules : f.rules = []) {ctx : SearchContext} {direction : Direction}
    (hnetwork : ctx.network = t.network direction)
    (haccess : ∀ c ∈ ctx.access, c.stop < t.stopCount)
    {interrupt : Interrupt} {departure : Time}
    (hrun : (Iteration.run ctx interrupt departure).cancelled = false) {changes : List Change}
    {x : Alighting} (hchain : ctx.Chain departure changes x) (hlimit : x.rides ≤ ctx.maxRounds)
    {c : Connector} (hc : c ∈ ctx.egress) (hstop : x.stop = c.stop)
    (hlast : ¬ (Iteration.run ctx interrupt departure).store.Hides x)
    (hwalks : ∀ change ∈ changes, change.walk.isSome = true →
      ¬ (Iteration.run ctx interrupt departure).store.Hides change.before) :
    (Iteration.run ctx interrupt departure).Delivers (x.time + c.duration) := by
  have hctx : ctx.Valid := Feed.context_valid hcompile hnetwork haccess
  have hrules' : ctx.network.schedule.rules = [] :=
    hnetwork ▸ Feed.compile_no_rules hcompile hrules direction
  have hunruled : ∀ change ∈ changes,
      (Iteration.run ctx interrupt departure).store.Unruled ctx.network change := by
    intro change _ hready
    obtain ⟨k, hk, e, he, hearly⟩ := hready
    refine ⟨k, hk, e, he, hearly, ?_⟩
    intro feeder _
    exact Network.applicableRules_of_no_rules hrules'
  exact hchain.delivers hctx hrun hlimit hwalks hunruled hlast hc hstop

/-- Three lines, and a footpath beside the second one. -/
def Feed.shortcut : Feed where
  stops := ["A", "X", "E", "F"]
  patterns :=
    [{ id := "out"
       stops := [0, 1]
       noBoarding := []
       noAlighting := []
       minTransferTime := none
       trips := [⟨"o", [0, 100].map Time.saturate, [0, 100].map Time.saturate, 0, 1.0⟩] },
     { id := "on"
       stops := [1, 2]
       noBoarding := []
       noAlighting := []
       minTransferTime := none
       trips := [⟨"n", [300, 500].map Time.saturate, [300, 500].map Time.saturate, 0, 1.0⟩] },
     { id := "off"
       stops := [2, 3]
       noBoarding := []
       noAlighting := []
       minTransferTime := none
       trips := [⟨"f", [600, 800].map Time.saturate, [600, 800].map Time.saturate, 0, 1.0⟩] }]
  footpaths := [⟨1, 2, Duration.saturate 60⟩]
  rules := []

/-- A search from the first stop to another one. -/
def SearchContext.onShortcut (goal : Nat) : SearchContext where
  network := Feed.shortcut.timetable.forward
  access := [⟨0, Duration.zero, none⟩]
  egress := [⟨goal, Duration.zero, none⟩]
  pricing := Pricing.ofWeights CostWeights.standard
  merge := GroupMerge.union
  maxRounds := 6
  transferSlack := Duration.saturate 60
  tieBreak := .firstFound

/-- To the last stop one walks along the footpath and takes the third line. -/
theorem Iteration.delivers_shortcut :
    (Iteration.run (.onShortcut 3) Interrupt.never Time.midnight).Delivers (Time.saturate 800) := by
  have hcompile : Feed.shortcut.compile = .ok Feed.shortcut.timetable :=
    Feed.compile_eq_timetable (by decide +kernel)
  have hnetwork : (SearchContext.onShortcut 3).network =
      Feed.shortcut.timetable.network .forward := rfl
  have haccess : ∀ c ∈ (SearchContext.onShortcut 3).access,
      c.stop < Feed.shortcut.timetable.stopCount := by decide +kernel
  have hrun : (Iteration.run (.onShortcut 3) Interrupt.never Time.midnight).cancelled = false := by
    decide +kernel
  have hout : Feed.shortcut.timetable.forward.Offers 0 0 0 1 := by decide +kernel
  have hfirst : (SearchContext.onShortcut 3).Chain Time.midnight []
      (Feed.shortcut.timetable.forward.alighting 1 0 0 1) :=
    .start List.mem_cons_self hout (by decide +kernel) (by decide +kernel)
  have hchain : (SearchContext.onShortcut 3).Chain Time.midnight
      [⟨Feed.shortcut.timetable.forward.alighting 1 0 0 1, some ⟨1, 2, Duration.saturate 60⟩, 2, 0⟩]
      (Feed.shortcut.timetable.forward.alighting 2 2 0 1) :=
    .change hfirst rfl (by decide +kernel) (by decide +kernel) (by decide +kernel)
      (by decide +kernel)
  have hegress : (⟨3, Duration.zero, none⟩ : Connector) ∈ (SearchContext.onShortcut 3).egress :=
    List.mem_cons_self
  have hdelivers := Iteration.delivers_of_not_hides hcompile rfl hnetwork haccess hrun hchain
    (by decide +kernel) hegress (by decide +kernel) (by decide +kernel) (by decide +kernel)
  have htime : (Feed.shortcut.timetable.forward.alighting 2 2 0 1).time + Duration.zero =
      Time.saturate 800 := by decide +kernel
  rw [htime] at hdelivers
  exact hdelivers

/-- The second line leads to the third stop, but whoever walks there is earlier,
and the destination is not reached. -/
theorem Iteration.not_delivers_shortcut :
    Feed.shortcut.compile = .ok Feed.shortcut.timetable ∧ Feed.shortcut.rules = [] ∧
      (∀ a ∈ (SearchContext.onShortcut 2).access, ∀ c ∈ (SearchContext.onShortcut 2).egress,
        a.stop ≠ c.stop) ∧
      (Iteration.run (.onShortcut 2) Interrupt.never Time.midnight).cancelled = false ∧
      ∃ changes x, (SearchContext.onShortcut 2).Chain Time.midnight changes x ∧
        x.rides ≤ (SearchContext.onShortcut 2).maxRounds ∧
        ∃ c ∈ (SearchContext.onShortcut 2).egress, x.stop = c.stop ∧
          ¬ (Iteration.run (.onShortcut 2) Interrupt.never Time.midnight).Delivers
            (x.time + c.duration) := by
  have hout : Feed.shortcut.timetable.forward.Offers 0 0 0 1 := by decide +kernel
  have hfirst : (SearchContext.onShortcut 2).Chain Time.midnight []
      (Feed.shortcut.timetable.forward.alighting 1 0 0 1) :=
    .start List.mem_cons_self hout (by decide +kernel) (by decide +kernel)
  have hchain : (SearchContext.onShortcut 2).Chain Time.midnight
      [⟨Feed.shortcut.timetable.forward.alighting 1 0 0 1, none, 1, 0⟩]
      (Feed.shortcut.timetable.forward.alighting 2 1 0 1) :=
    .change hfirst rfl (by decide +kernel) (by decide +kernel) (by decide +kernel)
      (by decide +kernel)
  exact ⟨Feed.compile_eq_timetable (by decide +kernel), rfl, by decide +kernel, by decide +kernel,
    _, _, hchain, by decide +kernel, _, List.mem_cons_self, by decide +kernel, by decide +kernel⟩

end TransitRouting
