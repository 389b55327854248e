/-
  TransitRouting.Proofs.Schedule.Acceptance
  ─────────────────────────────────────────
  Which patterns are accepted, told from the feed alone.

  A pattern is checked against the draft that was made of the patterns before it.
  All that matters of those are their names and the names of their trips, so it is
  enough that every pattern is right by itself and that no name comes twice.

  Main statements:

    • `Draft.exists_foldlM_iff` — a draft can be made of patterns exactly if this is
      so;
    • `Feed.exists_compile_iff_of_no_rules` — a feed that has no rules compiles exactly
      if its footpaths lead somewhere and a draft can be made of its patterns.
-/
import TransitRouting.Proofs.Schedule.Ordering

namespace TransitRouting

open Checks

/-- The pattern has no fault of its own: whatever is wrong with it can only be that
a name is taken. -/
structure PatternFeed.Fits (stopCount : Nat) (p : PatternFeed) : Prop where
  two_le_length : 2 ≤ p.stops.length
  stop_lt : ∀ s ∈ p.stops, s < stopCount
  noBoarding_lt : ∀ q ∈ p.noBoarding, q < p.stops.length
  noAlighting_lt : ∀ q ∈ p.noAlighting, q < p.stops.length
  check : ∀ t ∈ p.trips, t.check p.stops.length = .ok ()
  runningOrder : p.HasRunningOrder
  tiesInOrder : p.TiesInOrder

namespace Draft

variable {d : Draft} {stopCount : Nat} {p : PatternFeed} {ps : List PatternFeed} {name : String}

private theorem forall_ne_iff_not_mem_map {α : Type} (xs : Array α) (f : α → String) :
    (∀ x ∈ xs, f x ≠ name) ↔ name ∉ xs.toList.map f := by
  simp

/-- A draft knows the patterns that it was made of. -/
theorem Transcribes.findPattern?_eq_none_iff (h : d.Transcribes ps) :
    d.findPattern? name = none ↔ name ∉ ps.map (·.id) := by
  rw [Draft.findPattern?_eq_none_iff, ← h.map_name]
  exact forall_ne_iff_not_mem_map d.patterns (·.name)

/-- A draft knows the trips of its patterns. -/
theorem Transcribes.findTrip?_eq_none_iff (h : d.Transcribes ps) :
    d.findTrip? name = none ↔ name ∉ ps.flatMap fun p => p.trips.map (·.id) := by
  rw [Draft.findTrip?_eq_none_iff, ← h.tripNames_eq]
  exact forall_ne_iff_not_mem_map d.trips (·.1)

/-- A pattern can be added exactly if it fits and brings new names. -/
theorem Transcribes.exists_addPattern_iff (h : d.Transcribes ps) :
    (∃ d', d.addPattern stopCount p = .ok d') ↔ p.Fits stopCount ∧ p.id ∉ ps.map (·.id) ∧
      (p.trips.map (·.id)).Nodup ∧ ∀ t ∈ p.trips, t.id ∉ ps.flatMap fun p => p.trips.map (·.id) := by
  simp only [← h.findPattern?_eq_none_iff, ← h.findTrip?_eq_none_iff]
  constructor
  · intro hadd
    obtain ⟨d', hadd⟩ := hadd
    obtain ⟨hadmits, horder, -⟩ := addPattern_eq_ok_iff.mp hadd
    obtain ⟨hrunning, hties⟩ := hadmits.lineUp_pairwise_iff.mp horder
    exact ⟨⟨hadmits.two_le_length, hadmits.stop_lt, hadmits.noBoarding_lt, hadmits.noAlighting_lt,
      hadmits.check, hrunning, hties⟩, hadmits.name_new, hadmits.names_nodup, hadmits.names_new⟩
  · intro hgiven
    obtain ⟨hfits, hname, hnodup, hnames⟩ := hgiven
    have hadmits : d.Admits stopCount p := ⟨hname, hfits.two_le_length, hfits.stop_lt,
      hfits.noBoarding_lt, hfits.noAlighting_lt, hfits.check, hnodup, hnames⟩
    exact ⟨_, addPattern_eq_ok_iff.mpr ⟨hadmits,
      hadmits.lineUp_pairwise_iff.mpr ⟨hfits.runningOrder, hfits.tiesInOrder⟩, rfl⟩⟩

/-- A draft can be made of patterns exactly if each of them fits, and neither two
patterns nor two trips have the same name. -/
theorem exists_foldlM_iff :
    (∃ d, ps.foldlM (Draft.addPattern stopCount) Draft.empty = .ok d) ↔
      (∀ p ∈ ps, p.Fits stopCount) ∧ (ps.map (·.id)).Nodup ∧
        (ps.flatMap fun p => p.trips.map (·.id)).Nodup := by
  -- A pattern is checked against those before it, so the induction adds at the end.
  induction ps using List.reverseRecOn with
  | nil => exact ⟨fun _ => by simp, fun _ => ⟨Draft.empty, rfl⟩⟩
  | append_singleton ps p ih =>
      rw [List.map_append, List.map_singleton, List.nodup_append, List.flatMap_append,
        List.flatMap_singleton, List.nodup_append]
      have hlast : (∃ d, (ps ++ [p]).foldlM (Draft.addPattern stopCount) Draft.empty = .ok d) ↔
          ∃ d, ps.foldlM (Draft.addPattern stopCount) Draft.empty = .ok d ∧
            ∃ d', d.addPattern stopCount p = .ok d' := by
        simp only [List.foldlM_append, List.foldlM_cons, List.foldlM_nil, bind_eq_ok, pure_eq_ok]
        constructor
        · intro h
          obtain ⟨_, d, hd, d', hadd, -⟩ := h
          exact ⟨d, hd, d', hadd⟩
        · intro h
          obtain ⟨d, hd, d', hadd⟩ := h
          exact ⟨d', d, hd, d', hadd, rfl⟩
      rw [hlast]
      constructor
      · intro h
        obtain ⟨d, hd, hadd⟩ := h
        obtain ⟨hfits, hnames, htrips⟩ := ih.mp ⟨d, hd⟩
        obtain ⟨hfit, hname, hnodup, hnew⟩ :=
          (transcribes_of_foldlM hd).exists_addPattern_iff.mp hadd
        refine ⟨fun q hq => ?_, ⟨hnames, List.nodup_singleton _, ?_⟩, htrips, hnodup, ?_⟩
        · rcases List.mem_append.mp hq with hq | hq
          · exact hfits q hq
          · obtain rfl := List.mem_singleton.mp hq
            exact hfit
        · intro id hid other hother heq
          obtain rfl := List.mem_singleton.mp hother
          exact hname (heq ▸ hid)
        · intro id hid other hother heq
          obtain ⟨t, ht, rfl⟩ := List.mem_map.mp hother
          exact hnew t ht (heq ▸ hid)
      · intro h
        obtain ⟨hfits, ⟨hnames, -, hname⟩, htrips, hnodup, hnew⟩ := h
        obtain ⟨d, hd⟩ := ih.mpr ⟨fun q hq => hfits q (List.mem_append_left _ hq), hnames, htrips⟩
        refine ⟨d, hd, (transcribes_of_foldlM hd).exists_addPattern_iff.mpr
          ⟨hfits p (by simp), ?_, hnodup, ?_⟩⟩
        · exact fun hmem => hname _ hmem _ (List.mem_singleton_self _) rfl
        · exact fun t ht hmem => hnew _ hmem _ (List.mem_map_of_mem ht) rfl

end Draft

/-- A feed without rules compiles exactly if its footpaths join stops that are there,
each of its patterns fits, and neither two patterns nor two trips have the same
name. -/
theorem Feed.exists_compile_iff_of_no_rules {f : Feed} (hrules : f.rules = []) :
    (∃ t, f.compile = .ok t) ↔ f.checkFootpaths = .ok () ∧
      (∀ p ∈ f.patterns, p.Fits f.stops.length) ∧ (f.patterns.map (·.id)).Nodup ∧
        (f.patterns.flatMap fun p => p.trips.map (·.id)).Nodup := by
  rw [exists_compile_iff, ← Draft.exists_foldlM_iff]
  simp [hrules]

end TransitRouting
