/-
  TransitRouting.Proofs.Journey.Charges
  ─────────────────────────────────────
  What a search charges for rides and changes, on the real timeline.

  A forward search charges each label for the ride to it, and for the wait and
  the walk before that ride.  A search in reverse boards a trip where it is
  left, so it sees the same wait and the same walk at the other end of the ride,
  and its first boarding, which is free, is the last ride of the journey.  What
  a label of either search has counted is a running account in the order of
  travel: of what has been spent, or of what remains to be spent.

  Main statements:

    • `Assembly.Suits.rideCost_eq` — riding costs the same on both timelines;
    • `Assembly.Suits.waitSince_reverse` — and so does waiting, as long as no
      sum of times left its range;
    • `Assembly.Suits.spentBy_change`, `Assembly.Suits.boardedBy_change` — a
      change adds to the account what its walk and its second leg cost, and one
      trip.
-/
import Mathlib.Tactic.Abel
import TransitRouting.Proofs.Costs
import TransitRouting.Proofs.Journey.Steps

namespace TransitRouting

/-! ## §1. Spans of time on the negated timeline. -/

namespace Time

theorem secondsAfter_congr {t u r v : Time}
    (h : t.seconds - r.seconds = u.seconds - v.seconds) :
    t.secondsAfter r = u.secondsAfter v := by
  unfold secondsAfter
  rw [h]

theorem waitSince_congr {t u r v : Time} (h : t.seconds - r.seconds = u.seconds - v.seconds) :
    t.waitSince r = u.waitSince v := by
  unfold waitSince elapsed?
  rw [secondsAfter_congr h]

theorem neg_seconds_of_ne {t : Time} (h : t.seconds ≠ -2147483648) :
    (-t).seconds = -t.seconds := by
  have := t.least_le
  have := t.le_greatest
  rw [neg_seconds]
  omega

theorem secondsAfter_neg_neg {x y : Time} (hx : x.seconds ≠ -2147483648)
    (hy : y.seconds ≠ -2147483648) : (-x).secondsAfter (-y) = y.secondsAfter x := by
  apply secondsAfter_congr
  rw [neg_seconds_of_ne hx, neg_seconds_of_ne hy]
  omega

theorem waitSince_neg_neg {x y : Time} (hx : x.seconds ≠ -2147483648)
    (hy : y.seconds ≠ -2147483648) : (-x).waitSince (-y) = y.waitSince x := by
  apply waitSince_congr
  rw [neg_seconds_of_ne hx, neg_seconds_of_ne hy]
  omega

/-- The wait after a walk is the same on both timelines if the walk ends in time
on the negated one. -/
theorem waitSince_neg_add {x y : Time} {w : Duration} (hx : x.seconds ≠ -2147483648)
    (hy : y.seconds ≠ -2147483648) (hw : (-y).CanAdd w) (h : -y + w ≤ -x) :
    (-x).waitSince (-y + w) = y.waitSince (x + w) := by
  have := x.least_le
  have := y.le_greatest
  unfold CanAdd at hw
  rw [le_def, add_seconds, neg_seconds_of_ne hx, neg_seconds_of_ne hy] at h
  rw [neg_seconds_of_ne hy] at hw
  apply waitSince_congr
  rw [add_seconds, add_seconds, neg_seconds_of_ne hx, neg_seconds_of_ne hy]
  omega

/-- What is added on the negated timeline is taken off on the real one. -/
theorem neg_add_eq_sub {y : Time} {x : Duration} (hy : y.seconds ≠ -2147483648)
    (hx : (-y).CanAdd x) : -(-y + x) = y - x := by
  have := y.le_greatest
  have := y.least_le
  unfold CanAdd at hx
  rw [neg_seconds_of_ne hy] at hx
  apply Time.ext
  rw [neg_seconds, add_seconds, sub_seconds, neg_seconds_of_ne hy]
  omega

end Time

/-! ## §2. Riding and waiting. -/

/-- The journeys are priced as the labels were. -/
structure Assembly.Agrees (a : Assembly) (ctx : SearchContext) : Prop where
  pricing : a.pricing = ctx.pricing
  merge : a.merge = ctx.merge

namespace Assembly

variable {a : Assembly} {ctx : SearchContext} {t : Timetable} {s : LabelStore}

/-- The trip of a ride has the same group and reluctance in both directions. -/
theorem Suits.trip_eq (h : a.Suits ctx t) {l : Label} {r : Ride}
    (hbrings : ctx.network.Brings l r) :
    ((ctx.network.pattern r.pattern).trip r.trip).group =
        (a.network.trip (a.stepOf r).pattern (a.stepOf r).trip).group ∧
      ((ctx.network.pattern r.pattern).trip r.trip).reluctance =
        (a.network.trip (a.stepOf r).pattern (a.stepOf r).trip).reluctance := by
  cases hdirection : a.direction with
  | forward =>
      rw [h.network_forward hdirection, stepOf_forward hdirection]
      exact ⟨rfl, rfl⟩
  | reverse =>
      have htrip := hbrings.carries.trip_lt
      rw [h.pattern_reverse hdirection] at htrip ⊢
      rw [Pattern.reversed_trips_length] at htrip
      rw [Pattern.reversed_trip _ htrip, stepOf_reverse hdirection]
      exact ⟨rfl, rfl⟩

/-- Riding costs what the search charged for it. -/
theorem Suits.rideCost_eq (h : a.Suits ctx t) (hagrees : a.Agrees ctx)
    (hrange : a.direction = .reverse → a.InRange ctx s) {l : Label} {r : Ride}
    (hbrings : ctx.network.Brings l r) (ready : Option Time) :
    (a.time (a.stepOf r) ready).rideCost =
      ctx.pricing.ride ((ctx.network.pattern r.pattern).trip r.trip).reluctance r.boardTime
        l.arrival := by
  obtain ⟨-, hreluctance⟩ := h.trip_eq hbrings
  rw [hreluctance, ← hagrees.pricing]
  cases hdirection : a.direction with
  | forward =>
      obtain ⟨-, -, hboard, halight, -⟩ := h.runs_forward hdirection hbrings ready
      rw [← hboard, ← halight]
      rfl
  | reverse =>
      obtain ⟨hruns, -, hboard, halight, -⟩ := h.runs_reverse hdirection hbrings ready
      obtain ⟨hstart, hend⟩ := hruns.seconds_ne (hrange hdirection).negatable
      rw [hboard, halight]
      unfold Pricing.ride
      rw [Time.secondsAfter_neg_neg hstart hend]
      rfl

/-- A leg costs what the wait for it and the ride do. -/
theorem Suits.cost_eq (h : a.Suits ctx t) (hagrees : a.Agrees ctx)
    (hrange : a.direction = .reverse → a.InRange ctx s) {l : Label} {r : Ride}
    (hbrings : ctx.network.Brings l r) (ready : Time) :
    (a.time (a.stepOf r) (some ready)).cost =
      ctx.pricing.boarding ((a.time (a.stepOf r) none).boardTime.waitSince ready) false +
        ctx.pricing.ride ((ctx.network.pattern r.pattern).trip r.trip).reluctance r.boardTime
          l.arrival := by
  rw [← h.rideCost_eq hagrees hrange hbrings (some ready), ← hagrees.pricing]
  rfl

/-- One who changes in a forward search waits as long as on the real timeline. -/
theorem Suits.waitSince_forward (h : a.Suits ctx t) (hd : a.direction = .forward)
    {later earlier : Label × Ride} {walk : Option (Label × Footpath)}
    (hlater : ctx.network.Brings later.1 later.2)
    (hearlier : ctx.network.Brings earlier.1 earlier.2)
    (hchange : ctx.Changes s later walk earlier) (rx ry : Option Time) :
    later.2.boardTime.waitSince (SearchContext.boardedFrom walk earlier).arrival =
      (a.time (a.stepOf later.2) ry).boardTime.waitSince
        ((a.time (a.stepOf earlier.2) rx).readyAfter ((walk.map Prod.snd).map a.pathOf)) := by
  obtain ⟨-, -, hboard, -, -⟩ := h.runs_forward hd hlater ry
  rw [pathOf_forward hd, Option.map_id, hboard]
  show _ = Time.waitSince _ (RideLeg.readyAfter _ (walk.map Prod.snd))
  rw [h.readyAfter_forward hd hearlier hchange rx]

/-- One who changes in a search in reverse waits as long as on the real
timeline. -/
theorem Suits.waitSince_reverse (h : a.Suits ctx t) (hd : a.direction = .reverse)
    (hrange : a.InRange ctx s) {later earlier : Label × Ride} {walk : Option (Label × Footpath)}
    (hlater : ctx.network.Brings later.1 later.2)
    (hearlier : ctx.network.Brings earlier.1 earlier.2)
    (hchange : ctx.Changes s later walk earlier) (rx ry : Option Time) :
    later.2.boardTime.waitSince (SearchContext.boardedFrom walk earlier).arrival =
      (a.time (a.stepOf earlier.2) ry).boardTime.waitSince
        ((a.time (a.stepOf later.2) rx).readyAfter ((walk.map Prod.snd).map a.pathOf)) := by
  obtain ⟨hrunsX, -, hstart, -, -⟩ := h.runs_reverse hd hlater rx
  obtain ⟨hrunsY, -, -, hend, -⟩ := h.runs_reverse hd hearlier ry
  obtain ⟨-, hx⟩ := hrunsX.seconds_ne hrange.negatable
  obtain ⟨hy, -⟩ := hrunsY.seconds_ne hrange.negatable
  rw [hstart, pathOf_reverse hd]
  cases walk with
  | none =>
      show _ = Time.waitSince _ (a.time (a.stepOf later.2) rx).alightTime
      have harrival : (SearchContext.boardedFrom none earlier).arrival = earlier.1.arrival := rfl
      rw [harrival, hend]
      exact Time.waitSince_neg_neg hx hy
  | some w =>
      show _ = Time.waitSince _ ((a.time (a.stepOf later.2) rx).alightTime + w.2.duration)
      have hwalks := hchange.walked w rfl
      have harrival : (SearchContext.boardedFrom (some w) earlier).arrival =
          earlier.1.arrival + w.2.duration := hwalks.arrival_eq
      have hready : (SearchContext.boardedFrom (some w) earlier).arrival ≤ later.2.boardTime :=
        hchange.catches.ready_le
      have hwalk := hrange.unsaturated.canAdd_walk hwalks hearlier
      rw [harrival, hend, hstart] at hready
      rw [hend] at hwalk
      rw [harrival, hend]
      exact Time.waitSince_neg_add hx hy hwalk hready

end Assembly

/-! ## §3. Accounts in the order of travel. -/

/-- The cost of the walk of a change, if there is one. -/
def Pricing.change (p : Pricing) (walk : Option Footpath) : Cost :=
  (walk.map fun path => p.walk path.duration).getD Cost.zero

/-- A walk adds its cost, and nothing else, to what has been counted. -/
theorem SearchContext.Changes.boarded {ctx : SearchContext} {s : LabelStore}
    {later earlier : Label × Ride} {walk : Option (Label × Footpath)}
    (h : ctx.Changes s later walk earlier) :
    (boardedFrom walk earlier).criteria.cost = earlier.1.criteria.cost +
        ctx.pricing.change (walk.map Prod.snd) ∧
      (boardedFrom walk earlier).criteria.transfers = earlier.1.criteria.transfers ∧
      (boardedFrom walk earlier).criteria.groups = earlier.1.criteria.groups := by
  cases walk with
  | none => exact ⟨(add_zero _).symm, rfl, rfl⟩
  | some w =>
      have hwalks := h.walked w rfl
      exact ⟨hwalks.cost_eq, hwalks.transfers_eq, hwalks.groups_eq⟩

namespace Assembly

variable {a : Assembly} {ctx : SearchContext} {t : Timetable} {s : LabelStore}

/-- A walk costs the same both ways. -/
theorem change_map_pathOf (walk : Option Footpath) :
    a.pricing.change (walk.map a.pathOf) = a.pricing.change walk := by
  cases walk with
  | none => rfl
  | some path =>
      show a.pricing.walk (a.pathOf path).duration = a.pricing.walk path.duration
      unfold pathOf
      cases a.direction <;> rfl

/-- What has been spent when the ride ends, up to a constant.  A search in
reverse has counted what remains to be spent from the start of the ride on. -/
def spentBy (a : Assembly) (x : Label × Ride) : Cost :=
  match a.direction with
  | .forward => x.1.criteria.cost
  | .reverse => (a.time (a.stepOf x.2) none).rideCost - x.1.criteria.cost

/-- How many trips have been boarded when the ride ends, up to a constant and
modulo 256. -/
def boardedBy (a : Assembly) (x : Label × Ride) : Int :=
  match a.direction with
  | .forward => x.1.criteria.transfers
  | .reverse => -x.1.criteria.transfers

theorem spentBy_forward (hd : a.direction = .forward) (x : Label × Ride) :
    a.spentBy x = x.1.criteria.cost := by
  unfold spentBy
  rw [hd]

theorem spentBy_reverse (hd : a.direction = .reverse) (x : Label × Ride) :
    a.spentBy x = (a.time (a.stepOf x.2) none).rideCost - x.1.criteria.cost := by
  unfold spentBy
  rw [hd]

theorem boardedBy_forward (hd : a.direction = .forward) (x : Label × Ride) :
    a.boardedBy x = x.1.criteria.transfers := by
  unfold boardedBy
  rw [hd]

theorem boardedBy_reverse (hd : a.direction = .reverse) (x : Label × Ride) :
    a.boardedBy x = -x.1.criteria.transfers := by
  unfold boardedBy
  rw [hd]

/-- A change adds what its walk and the second leg cost. -/
theorem Suits.spentBy_change (h : a.Suits ctx t) (hagrees : a.Agrees ctx)
    (hrange : a.direction = .reverse → a.InRange ctx s) {before after : Label × Ride}
    {walk : Option (Label × Footpath)} (hbefore : ctx.network.Brings before.1 before.2)
    (hafter : ctx.network.Brings after.1 after.2) (hchange : a.Changed ctx s before walk after)
    (rx : Option Time) :
    a.spentBy after = a.spentBy before +
      a.pricing.change ((walk.map Prod.snd).map a.pathOf) +
      (a.time (a.stepOf after.2) (some ((a.time (a.stepOf before.2) rx).readyAfter
        ((walk.map Prod.snd).map a.pathOf)))).cost := by
  have hleg := h.cost_eq hagrees hrange hafter ((a.time (a.stepOf before.2) rx).readyAfter
    ((walk.map Prod.snd).map a.pathOf))
  unfold Changed at hchange
  rw [change_map_pathOf, hagrees.pricing, hleg]
  cases hdirection : a.direction with
  | forward =>
      rw [hdirection] at hchange
      rw [spentBy_forward hdirection, spentBy_forward hdirection,
        ← h.waitSince_forward hdirection hafter hbefore hchange rx none,
        hchange.charges.cost_eq]
      obtain ⟨hboarded, -, -⟩ := hchange.boarded
      rw [hboarded]
      abel
  | reverse =>
      rw [hdirection] at hchange
      rw [spentBy_reverse hdirection, spentBy_reverse hdirection,
        ← h.waitSince_reverse hdirection (hrange hdirection) hbefore hafter hchange rx none,
        h.rideCost_eq hagrees hrange hbefore none, h.rideCost_eq hagrees hrange hafter none,
        hchange.charges.cost_eq]
      obtain ⟨hboarded, -, -⟩ := hchange.boarded
      rw [hboarded]
      abel

/-- A ride adds its trip's group to what was used before it on the timeline of the
search. -/
theorem Suits.groups_eq (h : a.Suits ctx t) (hagrees : a.Agrees ctx) {x : Label × Ride}
    (hx : ctx.network.Brings x.1 x.2) {boarded : Label} {first : Bool}
    (hcharges : ctx.Charges x boarded first) :
    x.1.criteria.groups = a.merge boarded.criteria.groups
      (a.network.trip (a.stepOf x.2).pattern (a.stepOf x.2).trip).group := by
  obtain ⟨hgroup, -⟩ := h.trip_eq hx
  rw [hcharges.groups_eq, hgroup, hagrees.merge]

/-- A change adds one trip. -/
theorem boardedBy_change {before after : Label × Ride} {walk : Option (Label × Footpath)}
    (hchange : a.Changed ctx s before walk after) :
    (a.boardedBy after - a.boardedBy before - 1) % 256 = 0 := by
  unfold Changed at hchange
  cases hdirection : a.direction with
  | forward =>
      rw [hdirection] at hchange
      have htransfers := hchange.charges.transfers_eq
      obtain ⟨-, hboarded, -⟩ := hchange.boarded
      rw [hboarded, if_neg Bool.false_ne_true] at htransfers
      rw [boardedBy_forward hdirection, boardedBy_forward hdirection]
      omega
  | reverse =>
      rw [hdirection] at hchange
      have htransfers := hchange.charges.transfers_eq
      obtain ⟨-, hboarded, -⟩ := hchange.boarded
      rw [hboarded, if_neg Bool.false_ne_true] at htransfers
      rw [boardedBy_reverse hdirection, boardedBy_reverse hdirection]
      omega

end Assembly

end TransitRouting
