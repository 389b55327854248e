/-
  TransitRouting.Proofs.Search.ArrivalTables
  ──────────────────────────────────────────
  What the merged arrival table of several iterations says.

  Tables are combined place by place, and what only one of them has is kept.  In each
  place the better time stays, in the direction of the search, so the order of merging
  does not matter and the times that stay are the best ones of all iterations.

  Main statements:

    • `ArrivalTable.time?_merge` — what merging does to each place;
    • `ArrivalTable.foldl_merge_perm` — any order of merging gives the same table;
    • `ArrivalTable.isBest_foldl_merge` — a merged table has the best times;
    • `ArrivalTable.time?_ofStore` — the table of one iteration;
    • `ArrivalTable.isBest_merged` — the table of all iterations;
    • `Timetable.isBest_arrivals_of_searchWith` — the table of a response.
-/
import TransitRouting.Proofs.Journey.Slides
import TransitRouting.Proofs.Schedule.Reliability
import TransitRouting.Proofs.Search.Candidates

namespace TransitRouting

/-! ## §1. Best times. -/

/-- Among the times of a list the least is the earliest. -/
theorem Time.isEarliest_min? (times : List Time) : Time.IsEarliest (· ∈ times) times.min? := by
  cases hmin : times.min? with
  | none =>
      intro t ht
      rw [List.min?_eq_none_iff.mp hmin] at ht
      cases ht
  | some t => exact List.min?_eq_some_iff.mp hmin

namespace Direction

/-- `found` is the best time with a property for one who searches in the direction: the
earliest one, or the latest one in reverse.  There is none if no time has the property. -/
def IsBest (d : Direction) (holds : Time → Prop) (found : Option Time) : Prop :=
  match d with
  | forward => Time.IsEarliest holds found
  | reverse => Time.IsLatest holds found

/-- The first time is as good as the second one. -/
def AsGood (d : Direction) (a b : Time) : Prop :=
  match d with
  | forward => a ≤ b
  | reverse => b ≤ a

variable {d : Direction} {p q : Time → Prop}

theorem isBest_none : d.IsBest p none ↔ ∀ t, ¬ p t := by
  cases d <;> rfl

theorem isBest_some {t : Time} : d.IsBest p (some t) ↔ p t ∧ ∀ u, p u → d.AsGood t u := by
  cases d <;> rfl

theorem AsGood.refl (t : Time) : d.AsGood t t := by
  cases d <;> exact Time.le_refl t

theorem AsGood.trans {a b c : Time} (h : d.AsGood a b) (h' : d.AsGood b c) : d.AsGood a c := by
  cases d with
  | forward => exact Time.le_trans h h'
  | reverse => exact Time.le_trans h' h

theorem IsBest.congr {found : Option Time} (hiff : ∀ t, p t ↔ q t) (h : d.IsBest p found) :
    d.IsBest q found := by
  rwa [← show p = q from funext fun t => propext (hiff t)]

/-- The time in a place is the best one there. -/
theorem isBest_self (found : Option Time) : d.IsBest (fun t => found = some t) found := by
  cases found with
  | none => exact isBest_none.mpr fun _ h => by cases h
  | some t => exact isBest_some.mpr ⟨rfl, fun u hu => Option.some.inj hu ▸ AsGood.refl t⟩

/-- The best time is none if and only if there is no time. -/
theorem IsBest.eq_none_iff {found : Option Time} (h : d.IsBest p found) :
    found = none ↔ ∀ t, ¬ p t := by
  constructor
  · rintro rfl
    exact isBest_none.mp h
  · intro hnone
    cases found with
    | none => rfl
    | some t => exact absurd (isBest_some.mp h).1 (hnone t)

end Direction

namespace ArrivalTable

/-! ## §2. Combining place by place. -/

section Combining

variable {α : Type}

/-- In each place two lists are combined if both have it. -/
theorem getElem?_zipLongest (f : α → α → α) (xs ys : List α) (i : Nat) :
    (zipLongest f xs ys)[i]? = Option.merge f xs[i]? ys[i]? := by
  induction xs generalizing ys i with
  | nil => rw [zipLongest, List.getElem?_nil, Option.merge_none_left]
  | cons x xs ih =>
      cases ys with
      | nil =>
          rw [zipLongest, List.getElem?_nil, Option.merge_none_right]
          exact List.cons_ne_nil x xs
      | cons y ys =>
          cases i with
          | zero => rfl
          | succ i => exact ih ys i

instance (f : α → α → α) [Std.Commutative f] : Std.Commutative (zipLongest f) where
  comm xs ys := List.ext_getElem? fun i => by
    rw [getElem?_zipLongest, getElem?_zipLongest, (Option.commutative_merge f).comm]

instance (f : α → α → α) [Std.Associative f] : Std.Associative (zipLongest f) where
  assoc xs ys zs := List.ext_getElem? fun i => by
    simp only [getElem?_zipLongest]
    exact (Option.associative_merge f).assoc _ _ _

end Combining

/-- The better one of two times. -/
def pick (arriveBy : Bool) (a b : Time) : Time := if arriveBy then max a b else min a b

theorem better_eq_merge (arriveBy : Bool) : better arriveBy = Option.merge (pick arriveBy) := by
  funext a b
  cases a <;> cases b <;> rfl

instance (arriveBy : Bool) : Std.Commutative (pick arriveBy) where
  comm a b := by
    cases arriveBy with
    | false =>
        exact Time.le_antisymm (Std.le_min_iff.mpr ⟨Std.min_le_right, Std.min_le_left⟩)
          (Std.le_min_iff.mpr ⟨Std.min_le_right, Std.min_le_left⟩)
    | true =>
        exact Time.le_antisymm (Std.max_le_iff.mpr ⟨Std.right_le_max, Std.left_le_max⟩)
          (Std.max_le_iff.mpr ⟨Std.right_le_max, Std.left_le_max⟩)

instance (arriveBy : Bool) : Std.Associative (pick arriveBy) where
  assoc a b c := by
    cases arriveBy with
    | false => exact (inferInstance : Std.Associative (min : Time → Time → Time)).assoc a b c
    | true => exact (inferInstance : Std.Associative (max : Time → Time → Time)).assoc a b c

/-- The better one is one of the two and as good as both. -/
theorem pick_asGood (d : Direction) (a b : Time) :
    (pick (d = .reverse) a b = a ∨ pick (d = .reverse) a b = b) ∧
      d.AsGood (pick (d = .reverse) a b) a ∧ d.AsGood (pick (d = .reverse) a b) b := by
  cases d with
  | forward => exact ⟨Std.min_eq_or, Std.min_le_left, Std.min_le_right⟩
  | reverse => exact ⟨Std.max_eq_or, Std.left_le_max, Std.right_le_max⟩

end ArrivalTable

/-- The better one of the best times with two properties is the best time with either. -/
theorem Direction.IsBest.better {d : Direction} {p q : Time → Prop} {a b : Option Time}
    (ha : d.IsBest p a) (hb : d.IsBest q b) :
    d.IsBest (fun t => p t ∨ q t) (ArrivalTable.better (d = .reverse) a b) := by
  rw [ArrivalTable.better_eq_merge]
  cases a with
  | none =>
      rw [Option.merge_none_left]
      exact hb.congr fun t => (or_iff_right (isBest_none.mp ha t)).symm
  | some x =>
      cases b with
      | none =>
          rw [Option.merge_none_right]
          exact ha.congr fun t => (or_iff_left (isBest_none.mp hb t)).symm
      | some y =>
          obtain ⟨hx, hleast⟩ := isBest_some.mp ha
          obtain ⟨hy, hleast'⟩ := isBest_some.mp hb
          obtain ⟨heither, hgood, hgood'⟩ := ArrivalTable.pick_asGood d x y
          refine isBest_some.mpr ⟨?_, ?_⟩
          · rcases heither with heq | heq
            · exact Or.inl (by rwa [heq])
            · exact Or.inr (by rwa [heq])
          · rintro u (hu | hu)
            · exact hgood.trans (hleast u hu)
            · exact hgood'.trans (hleast' u hu)

namespace ArrivalTable

/-! ## §3. Merging tables. -/

variable {d : Direction}

theorem time?_eq (t : ArrivalTable) (round stop : Nat) :
    t.time? round stop = ((t.rounds[round]?).bind (·[stop]?)).join := by
  unfold time?
  cases t.rounds[round]? with
  | none => rfl
  | some row =>
      show row[stop]?.bind _ = row[stop]?.join
      cases row[stop]? <;> rfl

/-- Merging keeps the better time in each place. -/
theorem time?_merge (a b : ArrivalTable) (round stop : Nat) :
    (a.merge b).time? round stop =
      better a.arriveBy (a.time? round stop) (b.time? round stop) := by
  simp only [time?_eq, merge, getElem?_zipLongest, better_eq_merge]
  -- Either table may lack the round, and either row the stop.
  cases a.rounds[round]? with
  | none =>
      rw [Option.merge_none_left, Option.bind_none, Option.join_none, Option.merge_none_left]
  | some row =>
      cases b.rounds[round]? with
      | none =>
          rw [Option.merge_none_right, Option.bind_none, Option.join_none,
            Option.merge_none_right]
      | some other =>
          simp only [Option.merge_some_some, Option.bind_some, getElem?_zipLongest]
          cases row[stop]? with
          | none => simp only [Option.merge_none_left, Option.join_none]
          | some time =>
              cases other[stop]? with
              | none => simp only [Option.merge_none_right, Option.join_none]
              | some time' => rfl

/-- Two tables may be merged into a third one in either order. -/
theorem merge_right_comm (a b c : ArrivalTable) : (a.merge b).merge c = (a.merge c).merge b := by
  -- The third table says which times are better, whatever the other two say.
  have hrounds : ∀ xs ys zs : List (List (Option Time)),
      zipLongest (zipLongest (better a.arriveBy))
          (zipLongest (zipLongest (better a.arriveBy)) xs ys) zs =
        zipLongest (zipLongest (better a.arriveBy))
          (zipLongest (zipLongest (better a.arriveBy)) xs zs) ys := by
    intro xs ys zs
    rw [better_eq_merge]
    ac_rfl
  unfold merge
  rw [hrounds]

/-- Any order of merging gives the same table. -/
theorem foldl_merge_perm {tables tables' : List ArrivalTable} (h : tables.Perm tables')
    (first : ArrivalTable) : tables.foldl merge first = tables'.foldl merge first :=
  h.foldl_eq' (fun b _ c _ a => merge_right_comm a b c) first

theorem arriveBy_foldl_merge (tables : List ArrivalTable) (first : ArrivalTable) :
    (tables.foldl merge first).arriveBy = first.arriveBy := by
  induction tables generalizing first with
  | nil => rfl
  | cons table tables ih => exact ih (first.merge table)

/-- In each place a merged table has the best one of the times that are there. -/
theorem isBest_foldl_merge (d : Direction) (tables : List ArrivalTable) (round stop : Nat) :
    d.IsBest (fun time => ∃ table ∈ tables, table.time? round stop = some time)
      ((tables.foldl merge (empty d)).time? round stop) := by
  -- The induction adds tables at the end, where they are merged.
  induction tables using List.reverseRecOn with
  | nil => exact Direction.isBest_none.mpr fun time ⟨table, htable, _⟩ => by cases htable
  | append_singleton tables table ih =>
      rw [List.foldl_append, List.foldl_cons, List.foldl_nil, time?_merge, arriveBy_foldl_merge]
      refine (ih.better (Direction.isBest_self (table.time? round stop))).congr fun time => ?_
      simp only [List.mem_append, List.mem_singleton, or_and_right, exists_or, exists_eq_left]

/-- The best time at a stop is the best one of all rounds. -/
theorem isBest_bestTime? {t : ArrivalTable} (h : t.arriveBy = decide (d = .reverse)) (stop : Nat) :
    d.IsBest (fun time => ∃ round, t.time? round stop = some time) (t.bestTime? stop) := by
  have hmem : ∀ time,
      time ∈ (List.range t.rounds.length).filterMap (fun round => t.time? round stop) ↔
        ∃ round, t.time? round stop = some time := by
    intro time
    rw [List.mem_filterMap]
    constructor
    · rintro ⟨round, -, htime⟩
      exact ⟨round, htime⟩
    · rintro ⟨round, htime⟩
      refine ⟨round, List.mem_range.mpr ?_, htime⟩
      -- Beyond its last round a table has no times.
      refine Nat.lt_of_not_le fun hle => ?_
      rw [time?_eq, List.getElem?_eq_none hle] at htime
      cases htime
  unfold bestTime?
  rw [h]
  cases d with
  | forward => exact Direction.IsBest.congr (d := .forward) hmem (Time.isEarliest_min? _)
  | reverse => exact Direction.IsBest.congr (d := .reverse) hmem (Time.isLatest_max? _)

end ArrivalTable

/-! ## §4. The table of an iteration. -/

namespace LabelStore

variable {s : LabelStore}

theorem roundArrival?_eq_none {round stop : Nat} :
    s.roundArrival? round stop = none ↔ s.bestLabels round stop = [] := by
  unfold roundArrival?
  rw [List.min?_eq_none_iff, List.map_eq_nil_iff]

/-- The answer is the arrival with a best label that no other one is before. -/
theorem roundArrival?_eq_some {round stop : Nat} {arrival : Time} :
    s.roundArrival? round stop = some arrival ↔
      ∃ e ∈ s.bestLabels round stop,
        (∀ e' ∈ s.bestLabels round stop, e.2.arrival ≤ e'.2.arrival) ∧ e.2.arrival = arrival := by
  unfold roundArrival?
  rw [List.min?_eq_some_iff, List.mem_map, List.forall_mem_map]
  constructor
  · rintro ⟨⟨e, he, rfl⟩, hleast⟩
    exact ⟨e, he, hleast, rfl⟩
  · rintro ⟨e, he, hleast, rfl⟩
    exact ⟨⟨e, he, rfl⟩, hleast⟩

/-- Best labels are in rounds that have been written to, at stops that are there. -/
theorem Valid.lt_of_mem_bestLabels (hs : s.Valid) {round stop : Nat} {e : LabelPlace × Label}
    (he : e ∈ s.bestLabels round stop) : round < s.roundCount ∧ stop < s.stopCount := by
  obtain ⟨-, hrow, -⟩ := mem_bestLabels.mp he
  refine ⟨Nat.lt_of_not_le fun hle => ?_, (hs round).rows_size ▸ Buckets.lt_size_of_mem_row hrow⟩
  rw [round_of_length_le hle] at hrow
  exact absurd ((Round.Valid.empty s.stopCount).index_lt hrow) (Nat.not_lt_zero _)

end LabelStore

namespace ArrivalTable

variable {d : Direction} {stores : List LabelStore}

/-- In each place the table of an iteration has the earliest arrival, as a real time. -/
theorem time?_ofStore {s : LabelStore} (hs : s.Valid) (d : Direction) (round stop : Nat) :
    (ofStore s d).time? round stop = (s.roundArrival? round stop).map d.searchTime := by
  rw [time?_eq]
  show ((((List.range s.roundCount).map _)[round]?).bind _).join = _
  rw [List.getElem?_map]
  by_cases hin : round < s.roundCount ∧ stop < s.stopCount
  · rw [List.getElem?_range hin.1, Option.map_some, Option.bind_some, List.getElem?_map,
      List.getElem?_range hin.2]
    rfl
  · -- There are no labels outside the table.
    have hnone : s.roundArrival? round stop = none :=
      LabelStore.roundArrival?_eq_none.mpr
        (List.eq_nil_iff_forall_not_mem.mpr fun _ he => hin (hs.lt_of_mem_bestLabels he))
    rw [hnone]
    by_cases hround : round < s.roundCount
    · rw [List.getElem?_range hround, Option.map_some, Option.bind_some, List.getElem?_map,
        List.getElem?_eq_none (by simp; omega)]
      rfl
    · rw [List.getElem?_eq_none (by simp; omega)]
      rfl

end ArrivalTable

/-! ## §5. The table of all iterations. -/

/-- In one of the stores a label at the stop is best in the round, no other one is before
it, and this is its real time. -/
def Direction.Finds (d : Direction) (stores : List LabelStore) (round stop : Nat) (time : Time) :
    Prop :=
  ∃ s ∈ stores, ∃ e ∈ s.bestLabels round stop,
    (∀ e' ∈ s.bestLabels round stop, e.2.arrival ≤ e'.2.arrival) ∧
      time = d.searchTime e.2.arrival

/-- The store of an iteration in the direction: on any timetable, from any connectors and
any departure, interrupted or not. -/
def LabelStore.OfIteration (direction : Direction) (s : LabelStore) : Prop :=
  ∃ (f : Feed) (t : Timetable) (ctx : SearchContext) (interrupt : Interrupt) (departure : Time),
    f.compile = .ok t ∧ ctx.network = t.network direction ∧
      (∀ c ∈ ctx.access, c.stop < t.stopCount) ∧
      s = (Iteration.run ctx interrupt departure).store

theorem LabelStore.OfIteration.valid {direction : Direction} {s : LabelStore}
    (h : s.OfIteration direction) : s.Valid := by
  obtain ⟨f, t, ctx, interrupt, departure, hf, hnetwork, haccess, rfl⟩ := h
  obtain ⟨hsound, -⟩ :=
    Iteration.run_sound (Feed.context_valid hf hnetwork haccess) interrupt departure
  exact hsound.store.soundTo.valid

namespace ArrivalTable

variable {d : Direction} {stores : List LabelStore} {round stop : Nat}

/-- Some iteration finds a time if and only if its table has it. -/
theorem exists_mem_map_ofStore (hstores : ∀ s ∈ stores, s.Valid) {time : Time} :
    (∃ table ∈ stores.map (ofStore · d), table.time? round stop = some time) ↔
      d.Finds stores round stop time := by
  simp only [List.mem_map, exists_exists_and_eq_and]
  refine exists_congr fun s => and_congr_right fun hs => ?_
  rw [time?_ofStore (hstores s hs), Option.map_eq_some_iff]
  constructor
  · rintro ⟨arrival, harrival, rfl⟩
    obtain ⟨e, he, hleast, rfl⟩ := LabelStore.roundArrival?_eq_some.mp harrival
    exact ⟨e, he, hleast, rfl⟩
  · rintro ⟨e, he, hleast, rfl⟩
    exact ⟨_, LabelStore.roundArrival?_eq_some.mpr ⟨e, he, hleast, rfl⟩, rfl⟩

/-- The merged table of some iterations has the best times that they find. -/
theorem isBest_ofStores (hstores : ∀ s ∈ stores, s.Valid) (d : Direction) (round stop : Nat) :
    d.IsBest (d.Finds stores round stop)
      (((stores.map (ofStore · d)).foldl merge (empty d)).time? round stop) :=
  (isBest_foldl_merge d _ round stop).congr fun _ => exists_mem_map_ofStore hstores

/-- No time is found exactly where no iteration has best labels. -/
theorem forall_not_finds_iff :
    (∀ time, ¬ d.Finds stores round stop time) ↔ ∀ s ∈ stores, s.bestLabels round stop = [] := by
  constructor
  · intro hnone s hs
    cases harrival : s.roundArrival? round stop with
    | none => exact LabelStore.roundArrival?_eq_none.mp harrival
    | some arrival =>
        obtain ⟨e, he, hleast, -⟩ := LabelStore.roundArrival?_eq_some.mp harrival
        exact absurd ⟨s, hs, e, he, hleast, rfl⟩ (hnone _)
  · rintro hempty time ⟨s, hs, e, he, -⟩
    rw [hempty s hs] at he
    cases he

/-- In whatever order the tables of some iterations in one direction are merged, with
whatever numbers of rounds, the table is the same.  For each round and stop it has the
best one of the real times at which the iterations are there earliest, or none if no
iteration has a best label there; and its best time at a stop is the best one of all
rounds. -/
theorem isBest_merged {direction : Direction} (hstores : ∀ s ∈ stores, s.OfIteration direction)
    {tables : List ArrivalTable} (hperm : tables.Perm (stores.map (ofStore · direction))) :
    let merged := tables.foldl merge (empty direction)
    merged = (stores.map (ofStore · direction)).foldl merge (empty direction) ∧
      (∀ round stop,
        direction.IsBest (direction.Finds stores round stop) (merged.time? round stop) ∧
          (merged.time? round stop = none ↔ ∀ s ∈ stores, s.bestLabels round stop = [])) ∧
      ∀ stop, direction.IsBest (fun time => ∃ round, merged.time? round stop = some time)
        (merged.bestTime? stop) := by
  intro merged
  have hsame : merged = (stores.map (ofStore · direction)).foldl merge (empty direction) :=
    foldl_merge_perm hperm _
  refine ⟨hsame, fun round stop => ?_, fun stop => ?_⟩
  · have hbest := isBest_ofStores (fun s hs => (hstores s hs).valid) direction round stop
    rw [← hsame] at hbest
    exact ⟨hbest, hbest.eq_none_iff.trans forall_not_finds_iff⟩
  · exact isBest_bestTime? (arriveBy_foldl_merge tables (empty direction)) stop

end ArrivalTable

/-- Two searches in reverse, one from an arrival that the second line can still make and one
from a minute before: the table of the one has three rounds, that of the other a single
one. -/
theorem ArrivalTable.isBest_merged_twoMeetings :
    let ctx := Request.twoMeetings.contextAt Feed.twoMeetings.timetable .standard .bySquares
    let early := (Iteration.run ctx Interrupt.never (Time.saturate (-900))).store
    let late := (Iteration.run ctx Interrupt.never (Time.saturate (-960))).store
    let merged := [ArrivalTable.ofStore early .reverse, ArrivalTable.ofStore late .reverse].foldl
      ArrivalTable.merge (ArrivalTable.empty .reverse)
    Direction.reverse.IsBest (Direction.reverse.Finds [late, early] 0 4) (merged.time? 0 4) ∧
      merged.time? 0 4 = some (Time.saturate 900) ∧ merged.time? 2 0 = some Time.midnight ∧
      (∀ s ∈ [late, early], s.bestLabels 1 4 = []) ∧
      merged.bestTime? 4 = some (Time.saturate 900) := by
  intro ctx early late merged
  have htimes : merged.time? 0 4 = some (Time.saturate 900) ∧
      merged.time? 2 0 = some Time.midnight ∧ merged.time? 1 4 = none ∧
      merged.bestTime? 4 = some (Time.saturate 900) := by decide +kernel
  obtain ⟨hlate, hearly, hnone, hbestTime⟩ := htimes
  have haccess : ∀ c ∈ ctx.access, c.stop < Feed.twoMeetings.timetable.stopCount := by
    decide +kernel
  have hstores : ∀ s ∈ [late, early], s.OfIteration .reverse := by
    intro s hs
    rcases List.mem_pair.mp hs with rfl | rfl
    · exact ⟨_, _, ctx, _, _, Feed.compile_twoMeetings, rfl, haccess, rfl⟩
    · exact ⟨_, _, ctx, _, _, Feed.compile_twoMeetings, rfl, haccess, rfl⟩
  obtain ⟨-, hplaces, -⟩ := ArrivalTable.isBest_merged hstores (List.Perm.swap _ _ [])
  obtain ⟨-, hempty⟩ := hplaces 1 4
  obtain ⟨_, -⟩ := hplaces 0 4
  refine ⟨?_, hlate, hearly, hempty.mp hnone, hbestTime⟩
  assumption

/-! ## §6. The table of a response. -/

section Responding

variable {t : Timetable} {settings : SearchSettings} {interrupt : SearchInterrupt} {r : Request}
  {response : Response}

/-- The stores of the iterations that a search in a window starts, in the order in which
they come. -/
def Request.stores (r : Request) (t : Timetable) (settings : SearchSettings)
    (interrupt : SearchInterrupt) (window : Duration) : List LabelStore :=
  ((r.context t settings).sampleTimes settings r.start window).zipIdx.filterMap fun sample =>
    if interrupt (sample.2 + 1) 0 then none
    else some (Iteration.run (r.context t settings) (interrupt (sample.2 + 1)) sample.1).store

/-- The table of a response is merged from those of its iterations. -/
theorem Timetable.arrivals_of_searchWith (h : t.searchWith settings interrupt r = .ok response) :
    response.arrivals =
      ((r.stores t settings interrupt response.window).map
        (ArrivalTable.ofStore · r.direction)).foldl ArrivalTable.merge
          (ArrivalTable.empty r.direction) := by
  obtain ⟨-, window, -, rfl⟩ := searchWith_eq_ok h
  refine congrArg (List.foldl ArrivalTable.merge (ArrivalTable.empty r.direction)) ?_
  show _ = (r.stores t settings interrupt window).map _
  unfold Request.stores
  rw [List.filterMap_map, List.map_filterMap, List.map_filterMap]
  refine List.filterMap_congr fun sample _ => ?_
  show ((r.iterate t settings window (interrupt (sample.2 + 1)) sample.1).map (·.arrivals)) = _
  unfold Request.iterate
  split <;> rfl

/-- The table of a response has the best times that its iterations find, and at each stop
the best one of all rounds. -/
theorem Timetable.isBest_arrivals_of_searchWith {f : Feed} (hf : f.compile = .ok t)
    (h : t.searchWith settings interrupt r = .ok response) (stop : Nat) :
    (∀ round, r.direction.IsBest
        (r.direction.Finds (r.stores t settings interrupt response.window) round stop)
        (response.arrivals.time? round stop)) ∧
      r.direction.IsBest (fun time => ∃ round, response.arrivals.time? round stop = some time)
        (response.arrivals.bestTime? stop) := by
  have hctx := Request.context_valid hf (searchWith_eq_ok h).1
  have hstores : ∀ s ∈ r.stores t settings interrupt response.window, s.Valid := by
    intro s hs
    obtain ⟨sample, -, hran⟩ := List.mem_filterMap.mp hs
    split at hran
    · cases hran
    · obtain rfl := Option.some.inj hran
      obtain ⟨hsound, -⟩ := Iteration.run_sound hctx (interrupt (sample.2 + 1)) sample.1
      exact hsound.store.soundTo.valid
  rw [arrivals_of_searchWith h]
  exact ⟨fun round => ArrivalTable.isBest_ofStores hstores r.direction round stop,
    ArrivalTable.isBest_bestTime? (ArrivalTable.arriveBy_foldl_merge _ _) stop⟩

end Responding

end TransitRouting
