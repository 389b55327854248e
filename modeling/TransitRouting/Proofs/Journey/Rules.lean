/-
  TransitRouting.Proofs.Journey.Rules
  ───────────────────────────────────
  Which connection the rule is about that a ride names.

  A label names the rule by which its trip could be boarded, and the ride on the
  journey names the same one.  Searching forward it is a rule for the change to
  the ride.  A search in reverse boards the trip that is left on the real
  timeline, so there it is a rule for the change from the ride to the next one.
  A change that is moved gets a rule of its own, and then it is the second ride
  that names it, whatever the direction.

  Main statements:

    • `Journey.rule_of_mem_rides` — for every ride of a response that names a
      rule there is a change that the rule is about, and which one it is;
    • `Journey.not_boarded_by_rule_connection` — a first ride of a search in
      reverse that names a rule, though nothing is ridden before it.
-/
import TransitRouting.Proofs.Journey.Connections

namespace TransitRouting

/-! ## §1. Rules with times of their own. -/

namespace Network

variable {n : Network} {feeder : Feeder} {pattern position trip : Nat} {kind : RuleKind}

/-- A rule of the given kind with a time of its own applies to a connection and
covers the trip that is boarded. -/
def Overrides (n : Network) (kind : RuleKind) (feeder : Feeder) (pattern position trip : Nat) :
    Prop :=
  ∃ r ∈ n.applicableRules feeder pattern position,
    r.kind = kind ∧ kind.overrides = true ∧ r.onward.covers trip = true

/-- Whoever catches a trip by a rule is subject to one that covers the trip. -/
theorem Catches.overrides {slack : Duration} {ready time : Time}
    (h : n.Catches slack feeder pattern position trip ready time (some kind)) :
    n.Overrides kind feeder pattern position trip := by
  obtain ⟨r, hr, hoverrides, rfl, hcovers, -⟩ := Opens.exists_rule h
  exact ⟨r, hr, rfl, hoverrides, hcovers⟩

end Network

/-- A rule of the given kind, with a time of its own, is about leaving the first
ride's trip at one position and boarding the second one's at another. -/
def Schedule.Overrides (s : Schedule) (kind : RuleKind) (a : RideLeg) (alight : Nat) (b : RideLeg)
    (board : Nat) : Prop :=
  ∃ r ∈ s.rules, r.kind = kind ∧ kind.overrides = true ∧
    r.feeder = ⟨a.pattern, alight, some a.tripId⟩ ∧
    r.onward.pattern = b.pattern ∧ r.onward.position = board ∧
    (r.onward.trip = none ∨ r.onward.trip = some b.tripId)

theorem Feed.overrides_of_network {f : Feed} {t : Timetable} (hf : f.compile = .ok t)
    {a b : RideLeg} (ha : t.forward.schedule.Runs a) {kind : RuleKind} {alight board : Nat}
    (h : t.forward.Overrides kind ⟨a.pattern, a.tripId, alight⟩ b.pattern board b.tripId) :
    t.forward.schedule.Overrides kind a alight b board := by
  obtain ⟨r, hr, hkind, hoverrides, hcovers⟩ := h
  obtain ⟨hmem, hfeeder, hpattern, hposition⟩ := Feed.of_mem_applicableRules hf ha.serves hr
  exact ⟨r, hmem, hkind, hoverrides, hfeeder, hpattern, hposition,
    RuleEnd.trip_eq_of_covers hcovers⟩

/-! ## §2. Rules that rides name. -/

namespace Assembly

variable {a : Assembly} {ctx : SearchContext} {t : Timetable} {s : LabelStore}

/-- If the second ride names a rule, it is one for the change. -/
def RuleOfSecond (a : Assembly) (x : RideLeg) (_walk : Option Footpath) (y : RideLeg) : Prop :=
  ∀ kind, y.rule = some kind →
    a.network.Overrides kind x.feeder y.pattern y.boardPosition y.tripId

/-- If the first ride names a rule, it is one for the change. -/
def RuleOfFirst (a : Assembly) (x : RideLeg) (_walk : Option Footpath) (y : RideLeg) : Prop :=
  ∀ kind, x.rule = some kind →
    a.network.Overrides kind x.feeder y.pattern y.boardPosition y.tripId

theorem ruleOfSecond_of_catches {x y : RideLeg} {walk : Option Footpath}
    (h : a.Catches x walk y) : a.RuleOfSecond x walk y := by
  intro kind hrule
  unfold SlidingContext.Catches at h
  rw [hrule] at h
  exact h.overrides

theorem durable_ruleOfSecond (a : Assembly) : a.Durable a.RuleOfSecond where
  congr := by
    intro x x' y y' walk h hend hstart kind hrule
    rw [← hend.feeder_eq, ← hstart.pattern, ← hstart.boardPosition, ← hstart.tripId]
    exact h kind (hstart.rule.trans hrule)
  moved := fun h => ruleOfSecond_of_catches h.catches

/-- In a forward search the ride that is boarded names the rule. -/
theorem Suits.upholds_ruleOfSecond (h : a.Suits ctx t) (hd : a.direction = .forward) :
    a.Upholds ctx s a.RuleOfSecond := by
  have hjoined : a.Upholds ctx s a.Joined := h.upholds_joined fun hreverse => by
    rw [hd] at hreverse
    cases hreverse
  intro before after walk hbefore hafter hchange rx ry
  exact ruleOfSecond_of_catches ((hjoined hbefore hafter hchange rx ry).catches hd)

/-- In a search in reverse the ride that is left names the rule, for that is the
one the search boarded. -/
theorem Suits.upholds_ruleOfFirst (h : a.Suits ctx t) (hd : a.direction = .reverse) :
    a.Upholds ctx s a.RuleOfFirst := by
  intro before after walk hbefore hafter hchange rx ry kind hrule
  unfold Changed at hchange
  rw [hd] at hchange
  have hrule : before.2.rule = some kind := by
    rw [stepOf_reverse hd] at hrule
    exact hrule
  have hcatches := hchange.catches
  rw [hrule] at hcatches
  obtain ⟨q, hq, rfl, hoverrides, hcovers⟩ := hcatches.overrides
  -- The search met the rule from its other end.
  obtain ⟨r, hr, hkind, -, hcovers'⟩ := h.exists_applicable hd hbefore hafter hq hcovers rx ry
  exact ⟨r, hr, hkind, hoverrides, hcovers'⟩

/-- Rides that are marked name a rule for the change to them, and the others name
one for the change from them.  A change that was moved is about the same trips as
before, at other halts. -/
structure Attributed (a : Assembly) (x : RideLeg × Bool) (walk : Option Footpath)
    (y : RideLeg × Bool) : Prop where
  second : y.2 = true → (a.direction = .reverse → a.slide = true) ∧ a.RuleOfSecond x.1 walk y.1
  first : x.2 = false → a.direction = .reverse ∧ ∀ kind, x.1.rule = some kind →
    a.network.Overrides kind x.1.feeder y.1.pattern y.1.boardPosition y.1.tripId ∨
      (a.slide = true ∧ walk = none) ∧ ∃ alight board,
        a.network.Overrides kind ⟨x.1.pattern, x.1.tripId, alight⟩ y.1.pattern board y.1.tripId

/-- Moving changes marks the rides to which they are moved. -/
theorem tracks_attributed (hd : a.direction = .reverse) (hslide : a.slide = true) :
    a.Tracks a.RuleOfFirst a.Attributed where
  kept := by
    intro x y y' walk h hstart
    refine ⟨(fun hmark => by cases hmark), fun _ => ⟨hd, fun kind hrule => Or.inl ?_⟩⟩
    rw [← hstart.pattern, ← hstart.boardPosition, ← hstart.tripId]
    exact h kind hrule
  moved := by
    intro x x' y y' z h hstart hmoved
    refine ⟨fun _ => ⟨fun _ => hslide, ruleOfSecond_of_catches hmoved.catches⟩,
      fun _ => ⟨hd, fun kind hrule => Or.inr ⟨⟨hslide, rfl⟩, ?_⟩⟩⟩
    have hnamed := h kind (hmoved.sameStart.rule.trans hrule)
    refine ⟨x.alightPosition, y.boardPosition, ?_⟩
    rw [← hmoved.sameStart.pattern, ← hmoved.sameStart.tripId, ← hmoved.sameEnd.pattern,
      ← hmoved.sameEnd.tripId, ← hstart.pattern, ← hstart.tripId]
    exact hnamed
  later := by
    intro x x' y z walk q hmoved hnext
    refine ⟨fun hmark => ?_, (fun hmark => by cases hmark)⟩
    obtain ⟨hmay, hrule⟩ := hnext.second hmark
    refine ⟨hmay, fun kind hkind => ?_⟩
    rw [← hmoved.sameEnd.feeder_eq]
    exact hrule kind hkind

/-! ## §3. From segments to legs. -/

theorem legsFrom_append (clock : Time) (xs ys : List Segment) :
    (a.legsFrom clock (xs ++ ys)).1 =
      (a.legsFrom clock xs).1 ++ (a.legsFrom (a.legsFrom clock xs).2 ys).1 := by
  induction xs generalizing clock with
  | nil => rfl
  | cons segment xs ih =>
      cases segment with
      | ride l => exact congrArg (Leg.ride l :: ·) (ih l.alightTime)
      | walk origin destination d => exact congrArg (List.cons _) (ih (clock + d))

/-- The legs of some of the segments stand among those of all of them. -/
theorem exists_legsFrom_inside {xs segments : List Segment} (h : xs <:+: segments) (clock : Time) :
    ∃ clock', (a.legsFrom clock' xs).1 <:+: (a.legsFrom clock segments).1 := by
  obtain ⟨before, after, rfl⟩ := h
  rw [legsFrom_append, legsFrom_append]
  exact ⟨_, _, _, rfl⟩

/-- Rides that follow each other among the segments do so on the journey. -/
theorem changes_finish {x y : RideLeg} {walk : Option Footpath} {segments : List Segment}
    (h : Segment.ride x :: ((walk.map Footpath.toSegment).toList ++ [.ride y]) <:+: segments)
    (access egress : Connector) :
    ∃ leg : Option WalkLeg, leg.map WalkLeg.footpath = walk ∧
      (a.finish access segments egress).Changes x leg y := by
  obtain ⟨start, clock, finish, hfinish⟩ := a.finish_legs access egress segments
  obtain ⟨clock', hinside⟩ := a.exists_legsFrom_inside h clock
  have hlegs : ∃ leg : Option WalkLeg, leg.map WalkLeg.footpath = walk ∧
      (a.legsFrom clock' (.ride x :: ((walk.map Footpath.toSegment).toList ++ [.ride y]))).1 =
        Leg.ride x :: ((leg.map Leg.walk).toList ++ [Leg.ride y]) := by
    cases walk with
    | none => exact ⟨none, rfl, rfl⟩
    | some path => exact ⟨some ⟨path.origin, path.destination, _, _, path.duration, _⟩, rfl, rfl⟩
  obtain ⟨leg, hpath, heq⟩ := hlegs
  refine ⟨leg, hpath, ?_⟩
  unfold Journey.Changes
  rw [hfinish, ← heq]
  exact (hinside.trans (List.prefix_append _ _).isInfix).trans (List.suffix_cons _ _).isInfix

/-! ## §4. Journeys and the rules on them. -/

/-- The journey is a marked route between two connectors, on which every ride
that names a rule has the change that the rule is about next to it. -/
def Attributes (a : Assembly) (j : Journey) : Prop :=
  ∃ access first segments last egress, a.MarkedRoute a.Attributed first segments last ∧
    j = a.finish access segments egress ∧ (first.2 = true → first.1.rule = none) ∧
    (last.2 = false → last.1.rule = none)

/-- A route turns into a marked one if every ride is given the same mark. -/
theorem SegmentRoute.mark {R : ChangeRelation} {R' : MarkedRelation} {x y : RideLeg}
    {segments : List Segment} (h : a.SegmentRoute R x segments y) (mark : Bool)
    (hR : ∀ {p walk q}, R p walk q → R' (p, mark) walk (q, mark)) :
    a.MarkedRoute R' (x, mark) segments (y, mark) := by
  have hroute : a.MarkedRoute R' (x, mark) (segments.map id) (y, mark) := by
    unfold SegmentRoute at h
    refine Itinerary.map id (fun p => (p, mark)) id ?_ ?_ ?_ h
    · intro p hp
      exact ⟨rfl, hp⟩
    · intro p walk q _
      rfl
    · intro p walk q _ _ hjoined
      rw [Option.map_id]
      exact hR hjoined
  rwa [List.map_id] at hroute

/-- In a forward search the rides name rules for the changes to them. -/
theorem Leads.attributes_of_forward (hsuits : a.Suits ctx t) (hd : a.direction = .forward)
    {departure : Time} {d : Label} {access egress : Connector} {first last : Label × Ride}
    {middle : List Step} (h : a.Leads ctx departure s d access first middle last egress)
    {j : Journey} (hj : a.build? s d = some j) : a.Attributes j := by
  obtain ⟨access, first, segments, last, egress, hroute, rfl, -, -, -, -, hrule⟩ :=
    h.assembled hsuits a.durable_ruleOfSecond (hsuits.upholds_ruleOfSecond hd) hj
  refine ⟨access, _, segments, _, egress, hroute.mark true fun hnamed => ?_, rfl,
    fun _ => hrule hd, (fun hmark => by cases hmark)⟩
  refine ⟨fun _ => ⟨fun hreverse => ?_, hnamed⟩, (fun hmark => by cases hmark)⟩
  rw [hd] at hreverse
  cases hreverse

/-- In a search in reverse the rides name rules for the changes from them, except
where a change was moved. -/
theorem Leads.attributes_of_reverse (hsuits : a.Suits ctx t) (hd : a.direction = .reverse)
    {departure : Time} {d : Label} {access egress : Connector} {first last : Label × Ride}
    {middle : List Step} (h : a.Leads ctx departure s d access first middle last egress)
    {j : Journey} (hj : a.build? s d = some j) : a.Attributes j := by
  rw [h.build?_eq] at hj
  obtain rfl := Option.some.inj hj
  obtain ⟨ready, hsegments⟩ := h.travels.segments hsuits (hsuits.upholds_ruleOfFirst hd) none
  have hlast : (a.time (a.stepOf last.2) ready).rule = none := by
    rw [stepOf_reverse hd]
    exact h.rule_last hd
  by_cases hslide : a.slide = true
  · obtain ⟨first', last', hroute, -, -, hrule⟩ :=
      hsegments.slideChanges_marked (tracks_attributed hd hslide)
    rw [if_pos hslide]
    exact ⟨access, _, _, last', egress, hroute, rfl, (fun hmark => by cases hmark),
      fun hmark => (hrule hmark).trans hlast⟩
  · rw [if_neg hslide]
    refine ⟨access, _, _, _, egress, hsegments.mark false fun hnamed => ?_, rfl,
      (fun hmark => by cases hmark), fun _ => hlast⟩
    refine ⟨(fun hmark => by cases hmark), fun _ => ⟨hd, fun kind hrule => ?_⟩⟩
    exact Or.inl (hnamed kind hrule)

theorem Leads.attributes (hsuits : a.Suits ctx t) {departure : Time} {d : Label}
    {access egress : Connector} {first last : Label × Ride} {middle : List Step}
    (h : a.Leads ctx departure s d access first middle last egress) {j : Journey}
    (hj : a.build? s d = some j) : a.Attributes j := by
  cases hdirection : a.direction with
  | forward => exact h.attributes_of_forward hsuits hdirection hj
  | reverse => exact h.attributes_of_reverse hsuits hdirection hj

/-- The rides of a marked route run. -/
theorem MarkedRoute.runs_of_mem {R : MarkedRelation} {first last : RideLeg × Bool}
    {segments : List Segment} (h : a.MarkedRoute R first segments last) {l : RideLeg}
    (hl : Segment.ride l ∈ segments) : a.network.schedule.Runs l := by
  rcases h.of_mem hl with ⟨x, hruns, heq⟩ | ⟨_, _, _, -, heq⟩
  · obtain rfl := Segment.ride.inj heq
    exact hruns
  · cases heq

/-- Where the change stands that a ride's rule is about. -/
theorem Attributes.change_of_mem {j : Journey} (h : a.Attributes j) {l : RideLeg}
    (hl : l ∈ j.rides) {kind : RuleKind} (hrule : l.rule = some kind) :
    ((a.direction = .reverse → a.slide = true) ∧ ∃ before walk, j.Changes before walk l ∧
        a.network.schedule.Runs before ∧
        a.network.Overrides kind before.feeder l.pattern l.boardPosition l.tripId) ∨
      a.direction = .reverse ∧ a.network.schedule.Runs l ∧ ∃ walk after, j.Changes l walk after ∧
        (a.network.Overrides kind l.feeder after.pattern after.boardPosition after.tripId ∨
          (a.slide = true ∧ walk = none) ∧ ∃ alight board,
            a.network.Overrides kind ⟨l.pattern, l.tripId, alight⟩ after.pattern board
              after.tripId) := by
  obtain ⟨access, first, segments, last, egress, hroute, rfl, hfirst, hlast⟩ := h
  rw [rides_finish] at hl
  obtain ⟨segment, hsegment, hride⟩ := List.mem_filterMap.mp hl
  have hmem : Segment.ride l ∈ segments := by
    cases segment with
    | ride l' =>
        obtain rfl := Option.some.inj hride
        exact hsegment
    | walk origin destination d => cases hride
  obtain ⟨⟨l', mark⟩, heq, hbefore, hafter⟩ :=
    hroute.exists_neighbours hmem fun path heq => by cases heq
  obtain rfl := Segment.ride.inj heq
  cases mark with
  | true =>
      rcases hbefore with rfl | ⟨before, walk, hjoined, hinside⟩
      · rw [hfirst rfl] at hrule
        cases hrule
      · obtain ⟨leg, -, hchanges⟩ := a.changes_finish hinside access egress
        obtain ⟨hmay, hnamed⟩ := hjoined.second rfl
        have hruns := hroute.runs_of_mem (hinside.subset List.mem_cons_self)
        exact Or.inl ⟨hmay, before.1, leg, hchanges, hruns, hnamed kind hrule⟩
  | false =>
      rcases hafter with rfl | ⟨walk, after, hjoined, hinside⟩
      · rw [hlast rfl] at hrule
        cases hrule
      · obtain ⟨leg, hpath, hchanges⟩ := a.changes_finish hinside access egress
        obtain ⟨hreverse, hnamed⟩ := hjoined.first rfl
        have hruns := hroute.runs_of_mem hmem
        refine Or.inr ⟨hreverse, hruns, leg, after.1, hchanges, ?_⟩
        rcases hnamed kind hrule with hexact | ⟨⟨hslide, rfl⟩, hmoved⟩
        · exact Or.inl hexact
        · exact Or.inr ⟨⟨hslide, Option.map_eq_none_iff.mp hpath⟩, hmoved⟩

end Assembly

/-- A ride of a response that names a rule follows another one, and the network
has a rule of that kind for the change to it.  In a search in reverse this is so
only where changes are moved; elsewhere the rule is about the change from the
ride to the next one, and if that change was moved, about other halts of the two
trips.  The first ride of a forward search names no rule. -/
theorem Journey.rule_of_mem_rides {f : Feed} {t : Timetable} (hf : f.compile = .ok t)
    {settings : SearchSettings} {interrupt : SearchInterrupt} {r : Request} {response : Response}
    (h : t.searchWith settings interrupt r = .ok response) {j : Journey}
    (hj : j ∈ response.journeys) :
    (r.arriveBy = false → ∀ first, j.rides.head? = some first → first.rule = none) ∧
      ∀ l ∈ j.rides, ∀ kind, l.rule = some kind →
        ((r.arriveBy = true → settings.slideTransfers = true) ∧
          ∃ before walk, j.Changes before walk l ∧
            t.forward.schedule.Overrides kind before before.alightPosition l l.boardPosition) ∨
        (r.arriveBy = true ∧ ∃ walk after, j.Changes l walk after ∧
          (t.forward.schedule.Overrides kind l l.alightPosition after after.boardPosition ∨
            (settings.slideTransfers = true ∧ walk = none) ∧
              ∃ alight board, t.forward.schedule.Overrides kind l alight after board)) := by
  obtain ⟨departure, i, -, d, access, first, middle, last, egress, hleads, hbuild⟩ :=
    Feed.exists_leads_of_mem_journeys hf h hj
  have hsuits := Request.suits hf r settings
  refine ⟨fun hdepart first hfirst => ?_, fun l hl kind hrule => ?_⟩
  · have hforward := Request.direction_eq_forward_iff.mpr hdepart
    have hassembled := hleads.assembled hsuits (Assembly.durable_ruleOfSecond _)
      (hsuits.upholds_ruleOfSecond hforward) hbuild
    exact hassembled.rule_eq_none hforward hfirst
  · rcases (hleads.attributes hsuits hbuild).change_of_mem hl hrule with
      ⟨hmay, before, walk, hchanges, hruns, hnamed⟩ |
      ⟨hreverse, hruns, walk, after, hchanges, hnamed⟩
    · exact Or.inl ⟨fun harrive => hmay (Request.direction_eq_reverse_iff.mpr harrive), before,
        walk, hchanges, Feed.overrides_of_network hf hruns hnamed⟩
    · refine Or.inr ⟨Request.direction_eq_reverse_iff.mp hreverse, walk, after, hchanges, ?_⟩
      rcases hnamed with hnamed | ⟨hmoved, alight, board, hnamed⟩
      · exact Or.inl (Feed.overrides_of_network hf hruns hnamed)
      · exact Or.inr ⟨hmoved, alight, board, Feed.overrides_of_network hf hruns hnamed⟩

/-- The second line is boarded by the rule for the change to it. -/
theorem Journey.rule_of_mem_rides_connection :
    ∃ response, Feed.connection.timetable.search .standard .connection = .ok response ∧
      ∃ j ∈ response.journeys, ∃ l ∈ j.rides, l.rule = some .guaranteed ∧
        ∃ before walk, j.Changes before walk l ∧
          Feed.connection.timetable.forward.schedule.Overrides .guaranteed before
            before.alightPosition l l.boardPosition := by
  have hanswer : ∃ response ∈ (Feed.connection.timetable.search .standard .connection).toOption,
      ∃ j ∈ response.journeys, ∃ l ∈ j.rides, l.rule = some .guaranteed := by decide +kernel
  obtain ⟨response, hresponse, j, hj, l, hl, hrule⟩ := hanswer
  have hsearch := Checks.eq_ok_of_toOption hresponse
  refine ⟨response, hsearch, j, hj, l, hl, hrule, ?_⟩
  rcases (Journey.rule_of_mem_rides Feed.compile_connection hsearch hj).2 l hl _ hrule with
    ⟨-, hbefore⟩ | ⟨harrive, -⟩
  · exact hbefore
  · cases harrive

/-- To arrive with the trip of the second line. -/
def Request.connectionBack : Request :=
  { Request.connection with time := Time.saturate 1000, arriveBy := true }

/-- Searching in reverse, the first ride names the rule.  It follows no other
ride, and no rule is about boarding it. -/
theorem Journey.not_boarded_by_rule_connection :
    ∃ response, Feed.connection.timetable.search .standard .connectionBack = .ok response ∧
      ∃ j ∈ response.journeys, ∃ l, j.rides.head? = some l ∧ l.rule = some .guaranteed ∧
        ∀ before walk, ¬ (j.Changes before walk l ∧
          Feed.connection.timetable.forward.schedule.Overrides .guaranteed before
            before.alightPosition l l.boardPosition) := by
  have hanswer : ∃ response ∈
      (Feed.connection.timetable.search .standard .connectionBack).toOption,
      ∃ j ∈ response.journeys, ∃ l ∈ j.rides.head?, l.rule = some .guaranteed ∧
        ∀ q ∈ Feed.connection.timetable.forward.schedule.rules, q.onward.pattern ≠ l.pattern := by
    decide +kernel
  obtain ⟨response, hresponse, j, hj, l, hfirst, hrule, hother⟩ := hanswer
  refine ⟨response, Checks.eq_ok_of_toOption hresponse, j, hj, l, hfirst, hrule, ?_⟩
  rintro before walk ⟨-, q, hq, -, -, -, hpattern, -⟩
  exact hother q hq hpattern

end TransitRouting
