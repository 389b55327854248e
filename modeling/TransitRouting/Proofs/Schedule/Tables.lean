/-
  TransitRouting.Proofs.Schedule.Tables
  ─────────────────────────────────────
  What a network's tables list.

  Main statements:

    • `Network.Valid.mem_visitsAt_iff` — the halts listed under a stop are
      exactly those that serve it;
    • `Network.Valid.mem_footpathsFrom_iff` — the footpaths listed under a stop
      are exactly those that start there.
-/
import TransitRouting.Proofs.Schedule.Compilation

namespace TransitRouting

/-! ## §1. Rows of a table that is filled once. -/

namespace Buckets

variable {α : Type}

@[simp] theorem size_empty (n : Nat) : (empty n : Buckets α).rows.size = n := by
  simp [empty]

@[simp] theorem size_insert (b : Buckets α) (k : Nat) (x : α) :
    (b.insert k x).rows.size = b.rows.size := size_update b k _

@[simp] theorem size_ofList (n : Nat) (items : List (Nat × α)) :
    (ofList n items).rows.size = n := by
  have hfold : ∀ (items : List (Nat × α)) (b : Buckets α),
      (items.foldl (fun b item => b.insert item.1 item.2) b).rows.size = b.rows.size := by
    intro items
    induction items with
    | nil => intro b; rfl
    | cons item items ih =>
        intro b
        rw [List.foldl_cons, ih, size_insert]
  unfold ofList
  rw [hfold, size_empty]

theorem row_of_size_le {b : Buckets α} {k : Nat} (h : b.rows.size ≤ k) : b.row k = [] := by
  simp [row, h]

/-- Under a number stands what was given for it, and nothing outside the
table. -/
theorem mem_row_ofList {n k : Nat} {items : List (Nat × α)} {x : α} :
    x ∈ (ofList n items).row k ↔ k < n ∧ (k, x) ∈ items := by
  by_cases hk : k < n
  · rw [row_ofList n items k hk]
    simp [hk]
  · rw [row_of_size_le (by simpa using hk)]
    simp [hk]

end Buckets

/-! ## §2. The tables of a network. -/

namespace Network

theorem mem_allVisits {s : Schedule} {stop : Nat} {v : Visit} :
    (stop, v) ∈ allVisits s ↔
      v.position < (s.pattern v.pattern).length ∧
        (s.pattern v.pattern).stopAt v.position = stop := by
  unfold allVisits
  simp only [List.mem_flatMap, List.mem_map, Pattern.positions, List.mem_range, Prod.mk.injEq]
  constructor
  · intro hgiven
    obtain ⟨⟨p, number⟩, hp, position, hposition, hstop, rfl⟩ := hgiven
    have hp' : s.patterns[number]? = some p := by
      simpa [List.mem_zipIdx_iff_getElem?] using hp
    have hpattern : s.pattern number = p := by
      simp [Schedule.pattern, Array.getD_eq_getD_getElem?, hp']
    exact ⟨hpattern.symm ▸ hposition, hpattern.symm ▸ hstop⟩
  · intro hgiven
    obtain ⟨hposition, hstop⟩ := hgiven
    have hlt := Schedule.lt_size_of_lt_length hposition
    refine ⟨(s.pattern v.pattern, v.pattern), ?_, v.position, hposition, hstop, rfl⟩
    rw [List.mem_zipIdx_iff_getElem?]
    simp [Schedule.pattern, hlt]

/-- The halts listed under a stop are exactly those that serve it. -/
theorem Valid.mem_visitsAt_iff {n : Network} (h : n.Valid) {stop : Nat}
    (hstop : stop < n.stopCount) {v : Visit} :
    v ∈ n.visitsAt stop ↔
      v.position < (n.pattern v.pattern).length ∧
        (n.pattern v.pattern).stopAt v.position = stop := by
  have htable : n.visits = Buckets.ofList n.stopCount (allVisits n.schedule) :=
    congrArg Network.visits h.tables
  unfold visitsAt
  rw [htable, Buckets.mem_row_ofList, mem_allVisits]
  exact ⟨fun hv => hv.2, fun hv => ⟨hstop, hv⟩⟩

/-- The footpaths listed under a stop are exactly those that start there. -/
theorem Valid.mem_footpathsFrom_iff {n : Network} (h : n.Valid) {stop : Nat} {f : Footpath} :
    f ∈ n.footpathsFrom stop ↔ f ∈ n.schedule.footpaths ∧ f.origin = stop := by
  have htable : n.footpaths =
      Buckets.ofList n.stopCount (n.schedule.footpaths.map fun f => (f.origin, f)) :=
    congrArg Network.footpaths h.tables
  unfold footpathsFrom
  rw [htable, Buckets.mem_row_ofList]
  simp only [List.mem_map, Prod.mk.injEq]
  constructor
  · intro hgiven
    obtain ⟨-, g, hg, horigin, rfl⟩ := hgiven
    exact ⟨hg, horigin⟩
  · intro hgiven
    obtain ⟨hf, rfl⟩ := hgiven
    exact ⟨(h.schedule.footpath f hf).1, f, hf, rfl, rfl⟩

theorem Valid.mem_footpathsFrom {n : Network} (h : n.Valid) {stop : Nat} {f : Footpath}
    (hf : f ∈ n.footpathsFrom stop) : f ∈ n.schedule.footpaths ∧ f.origin = stop :=
  h.mem_footpathsFrom_iff.mp hf

theorem Valid.pattern_of_lt_length {n : Network} (h : n.Valid) {number q : Nat}
    (hq : q < (n.pattern number).length) : (n.pattern number).Valid n.stopCount :=
  h.schedule.pattern_of_lt_length hq

end Network

end TransitRouting
