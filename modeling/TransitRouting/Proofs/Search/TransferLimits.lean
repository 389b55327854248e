/-
  TransitRouting.Proofs.Search.TransferLimits
  ───────────────────────────────────────────
  What raising the limit of transfers adds to a response.

  An iteration that may play more rounds finds the same labels with few transfers
  and others with more.  Building a journey keeps the number of transfers,
  whether or not its changes are moved.  A journey with more transfers makes none
  with fewer superfluous, so ranking both together shows the same of the latter,
  in the same order.

  Main statements:

    • `Assembly.transfers_of_build?` — a journey has as many transfers as its
      label;
    • `Request.candidates_filter` — the candidates of the smaller limit are those
      of the greater one that have few enough transfers;
    • `Timetable.searchWith_maxTransfers` — so are the journeys of the response.
-/
import TransitRouting.Proofs.Iteration.Limits
import TransitRouting.Proofs.Journey.Merits
import TransitRouting.Proofs.Search.Candidates

namespace TransitRouting

/-! ## §1. Transfers of a journey. -/

namespace Assembly

variable {a : Assembly} {ctx : SearchContext} {t : Timetable} {s s' : LabelStore}
  {departure : Time} {rounds : Nat} {d : Label} {j : Journey}

/-- Moving changes neither adds nor drops a ride. -/
theorem rideCount_slideChanges (segments : List Segment) :
    rideCount (a.slideChanges segments) = rideCount segments := by
  induction segments with
  | nil => rfl
  | cons segment rest ih =>
      have hcons : rideCount (segment :: a.slideChanges rest) = rideCount (segment :: rest) := by
        unfold rideCount at ih ⊢
        cases segment with
        | ride l => exact congrArg (· + 1) ih
        | walk => exact ih
      rw [← hcons]
      conv => lhs; unfold slideChanges
      split
      · next before after others hslid =>
          rw [hslid]
          split <;> rfl
      · rfl

/-- A journey has as many transfers as the label it was built from. -/
theorem transfers_of_build? (hsuits : a.Suits ctx t) (hs : ctx.StoreSound departure s rounds)
    (hd : ctx.LeadsOut s d) (hj : a.build? s d = some j) :
    j.merit.transfers = d.criteria.transfers := by
  obtain ⟨access, first, middle, last, egress, hleads⟩ := hsuits.exists_leads hs hd
  rw [hleads.build?_eq] at hj
  obtain rfl := Option.some.inj hj
  show (rideCount (if a.slide then _ else _) - 1) % 256 = _
  rw [← hleads.transfers_eq hs]
  split
  · rw [rideCount_slideChanges]
  · rfl

/-- A journey depends on the store by the label's chain alone. -/
theorem build?_congr (h : s'.trail? d = s.trail? d) : a.build? s' d = a.build? s d := by
  unfold build? steps?
  rw [h]

end Assembly

/-! ## §2. Candidates. -/

namespace Request

variable {f : Feed} {t : Timetable} {settings : SearchSettings} {r : Request} {few many : Nat}

/-- The same request with another limit of transfers. -/
def withTransfers (r : Request) (limit : Nat) : Request := { r with maxTransfers := limit }

theorem context_withTransfers (r : Request) (t : Timetable) (settings : SearchSettings)
    (limit : Nat) :
    (r.withTransfers limit).context t settings =
      (r.context t settings).withRounds (limit + 1) := rfl

/-- A class can be picked out before its members are mapped or after that, if one
can tell it from their images. -/
theorem filterMap_filter {α β : Type} {p : α → Bool} {q : β → Bool} {g : α → Option β}
    {l : List α} (h : ∀ x ∈ l, ∀ y, g x = some y → q y = p x) :
    (l.filter p).filterMap g = (l.filterMap g).filter q := by
  rw [List.filterMap_filter, List.filter_filterMap]
  refine List.filterMap_congr fun x hx => ?_
  cases hgx : g x with
  | none =>
      rw [Option.filter_none]
      split <;> rfl
  | some y => rw [Option.filter_some, h x hx y hgx]

/-- An iteration finds the same journeys with few transfers, whether or not others
may have more. -/
theorem found_filter (hcompile : f.compile = .ok t) (hvalid : (r.context t settings).Valid)
    (interrupt : Interrupt) (departure : Time) (hle : few ≤ many) (hbyte : many ≤ 255) :
    (r.withTransfers few).found t settings interrupt departure =
      ((r.withTransfers many).found t settings interrupt departure).filter
        fun j => decide (j.merit.transfers ≤ few) := by
  obtain ⟨hdestinations, hchains⟩ := Iteration.run_withRounds hvalid interrupt departure
    (Nat.succ_le_succ hle) (Nat.succ_le_succ hbyte)
  have hmany : ((r.context t settings).withRounds (many + 1)).Valid :=
    ⟨hvalid.network, hvalid.access⟩
  obtain ⟨hsound, -⟩ := Iteration.run_sound hmany interrupt departure
  have hsuits := suits hcompile (r.withTransfers many) settings
  unfold found
  rw [context_withTransfers, context_withTransfers] at *
  rw [hdestinations] at hchains ⊢
  generalize Iteration.run ((r.context t settings).withRounds (many + 1)) interrupt departure =
    it at *
  -- The labels that both iterations share lead back along the same chains.
  have hsame : ∀ d ∈ it.destinations.filter (fun d => decide (d.criteria.transfers < few + 1)),
      ((r.withTransfers few).assembly t settings).build?
          (Iteration.run ((r.context t settings).withRounds (few + 1)) interrupt departure).store d =
        ((r.withTransfers many).assembly t settings).build? it.store d :=
    fun d hd => Assembly.build?_congr (hchains d hd)
  refine (List.filterMap_congr hsame).trans (filterMap_filter fun d hd j hj => ?_)
  rw [Assembly.transfers_of_build? hsuits hsound.store (hsound.destinations d hd) hj,
    decide_eq_decide, Nat.lt_succ_iff]

/-- The candidates of the smaller limit are those of the greater one that have few
enough transfers. -/
theorem candidates_filter (hcompile : f.compile = .ok t)
    (hvalid : (r.context t settings).Valid) (interrupt : SearchInterrupt) (window : Duration)
    (hle : few ≤ many) (hbyte : many ≤ 255) :
    (r.withTransfers few).candidates t settings interrupt window =
      ((r.withTransfers many).candidates t settings interrupt window).filter
        fun j => decide (j.merit.transfers ≤ few) := by
  unfold candidates
  rw [List.filter_flatMap]
  refine List.flatMap_congr fun sample _ => ?_
  by_cases hstop : interrupt (sample.2 + 1) 0 = true
  · rw [if_pos hstop, if_pos hstop]
    rfl
  · rw [if_neg hstop, if_neg hstop, found_filter hcompile hvalid _ _ hle hbyte,
      List.filter_filter, List.filter_filter]
    simp only [Bool.and_comm]
    rfl

/-- As long as the settings allow for the greater limit, both requests are accepted,
or both are refused for the same reason. -/
theorem validate_withTransfers (r : Request) (stopCount : Nat) (hle : few ≤ many)
    (hrounds : many + 1 ≤ settings.maxRounds) :
    (r.withTransfers few).validate stopCount settings =
      (r.withTransfers many).validate stopCount settings := by
  have hfew : ¬ settings.maxRounds < (r.withTransfers few).maxRounds :=
    Nat.not_lt.mpr (Nat.le_trans (Nat.succ_le_succ hle) hrounds)
  have hmany : ¬ settings.maxRounds < (r.withTransfers many).maxRounds := Nat.not_lt.mpr hrounds
  unfold validate
  simp only [if_neg hfew, if_neg hmany]
  rfl

end Request

/-! ## §3. Responses. -/

/-- On every timetable, for every request with a window of its own and all
settings, a search with the smaller limit of transfers answers with exactly those
journeys of the search with the greater limit that have few enough transfers, in
the same order, as long as the settings allow for the greater limit and one byte
holds it.  This holds in both directions, and also if both are interrupted at the
same points. -/
theorem Timetable.searchWith_maxTransfers {f : Feed} {t : Timetable} (hcompile : f.compile = .ok t)
    (settings : SearchSettings) (interrupt : SearchInterrupt) {r : Request} {window : Duration}
    (hwindow : r.window = some window) {few many : Nat} (hle : few ≤ many)
    (hrounds : many + 1 ≤ settings.maxRounds) (hbyte : many ≤ 255) :
    (t.searchWith settings interrupt { r with maxTransfers := few }).map (·.journeys) =
      (t.searchWith settings interrupt { r with maxTransfers := many }).map fun response =>
        response.journeys.filter fun j => decide (j.merit.transfers ≤ few) := by
  have hmap : ∀ answer : Except SearchError Response,
      (answer.map fun response => response.journeys.filter fun j =>
        decide (j.merit.transfers ≤ few)) =
      (answer.map (·.journeys)).map (List.filter fun j => decide (j.merit.transfers ≤ few)) :=
    fun answer => by cases answer <;> rfl
  show (t.searchWith settings interrupt (r.withTransfers few)).map (·.journeys) =
    (t.searchWith settings interrupt (r.withTransfers many)).map _
  rw [hmap, t.searchWith_journeys settings interrupt (r := r.withTransfers few) hwindow,
    t.searchWith_journeys settings interrupt (r := r.withTransfers many) hwindow,
    Request.validate_withTransfers r t.stopCount hle hrounds]
  cases haccepted : (r.withTransfers many).validate t.stopCount settings with
  | error e => rfl
  | ok accepted =>
      have hmany := Request.context_valid hcompile haccepted
      have hvalid : (r.context t settings).Valid := ⟨hmany.network, hmany.access⟩
      refine congrArg Except.ok ?_
      rw [Request.candidates_filter hcompile hvalid interrupt window hle hbyte]
      refine Ranking.select_filter (p := fun m => decide (m.transfers ≤ few)) ?_ _ _
      -- Whoever makes a journey superfluous has no more transfers.
      intro a b h hb
      have hfew := of_decide_eq_true hb
      rcases h with ⟨-, ⟨-, -, htransfers, -⟩, -⟩ | ⟨-, -, htransfers, -⟩
      · exact decide_eq_true (Nat.le_trans htransfers hfew)
      · exact decide_eq_true (htransfers ▸ hfew)

/-- The two lines across town, and a slower line around it, which belongs to another
group. -/
def Feed.aroundTown : Feed :=
  { Feed.acrossTown with
    patterns := Feed.acrossTown.patterns ++
      [{ id := "ring"
         stops := [0, 3]
         noBoarding := []
         noAlighting := []
         minTransferTime := none
         trips := [⟨"r", [0, 1700].map Time.saturate, [0, 1700].map Time.saturate, 1, 1.0⟩] }] }

/-- From the first stop to the last one, at the start of the day. -/
def Request.aroundTown : Request :=
  { Request.acrossTown with
    access := [⟨0, Duration.zero, none⟩]
    time := Time.midnight
    arriveBy := false }

/-- Whoever may change has two ways to go, and whoever may not takes the ring. -/
theorem Timetable.searchWith_maxTransfers_aroundTown :
    Feed.aroundTown.compile = .ok Feed.aroundTown.timetable ∧
      (Request.aroundTown.candidates Feed.aroundTown.timetable .standard
        (fun _ => Interrupt.never) (Duration.saturate 60)).map Journey.tripIds = [[2], [0, 1]] ∧
      ((Feed.aroundTown.timetable.search .standard
        { Request.aroundTown with maxTransfers := 0 }).map
          fun response => response.journeys.map Journey.tripIds).toOption = some [[2]] ∧
      (Feed.aroundTown.timetable.search .standard
          { Request.aroundTown with maxTransfers := 0 }).map (·.journeys) =
        (Feed.aroundTown.timetable.search .standard
          { Request.aroundTown with maxTransfers := 5 }).map fun response =>
            response.journeys.filter fun j => decide (j.merit.transfers ≤ 0) := by
  have hcompile : Feed.aroundTown.compile = .ok Feed.aroundTown.timetable :=
    Feed.compile_eq_timetable (by decide +kernel)
  refine ⟨hcompile, by decide +kernel, by decide +kernel, ?_⟩
  exact Timetable.searchWith_maxTransfers hcompile .standard (fun _ => Interrupt.never)
    (r := Request.aroundTown) rfl (by decide) (by decide) (by decide)

end TransitRouting
