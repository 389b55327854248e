/-
  TransitRouting.Proofs.Journey.Legs
  ──────────────────────────────────
  What is true of a journey's rides and of the changes between them.

  A ride keeps to the schedule.  A change leads from where one ride ends to
  where the next one starts, and leaves enough time.  How much is enough
  depends on the direction of the search: searching forward it is the time for
  changing to the pattern that is boarded; in reverse the pattern boarded by the
  search is the one that is left on the real timeline, and it is that pattern's
  time that was kept.  Rules apply to the same connections either way.

  A change depends on how the first ride ends and on how the second one starts,
  and on nothing else (`Assembly.Joined.congr`, `Assembly.Lawful.congr`).
-/
import TransitRouting.Journey.Assembly
import TransitRouting.Proofs.Boarding

namespace TransitRouting

/-! ## §1. Rides. -/

/-- The leg rides a trip of the schedule from one halt to a later one, at the
times of the schedule. -/
structure Schedule.Runs (s : Schedule) (l : RideLeg) : Prop where
  trip_lt : l.trip < (s.pattern l.pattern).trips.length
  tripId_eq : l.tripId = (s.trip l.pattern l.trip).id
  canBoard : (s.pattern l.pattern).canBoard l.boardPosition = true
  canAlight : (s.pattern l.pattern).canAlight l.alightPosition = true
  board_lt_alight : l.boardPosition < l.alightPosition
  alight_lt : l.alightPosition < (s.pattern l.pattern).length
  boardStop_eq : l.boardStop = (s.pattern l.pattern).stopAt l.boardPosition
  alightStop_eq : l.alightStop = (s.pattern l.pattern).stopAt l.alightPosition
  boardTime_eq : l.boardTime = (s.trip l.pattern l.trip).departureAt l.boardPosition
  alightTime_eq : l.alightTime = (s.trip l.pattern l.trip).arrivalAt l.alightPosition

/-- The trip of a ride runs on its pattern. -/
theorem Schedule.Runs.serves {s : Schedule} {l : RideLeg} (h : s.Runs l) :
    s.Serves l.pattern l.tripId :=
  ⟨_, Pattern.trip_mem h.trip_lt, h.tripId_eq.symm⟩

namespace RideLeg

/-- The ride as that of a traveller who has just left it. -/
def feeder (l : RideLeg) : Feeder := ⟨l.pattern, l.tripId, l.alightPosition⟩

/-- When one who has left the ride, and has then walked if there is a walk, is
where the walk leads. -/
def readyAfter (l : RideLeg) : Option Footpath → Time
  | none => l.alightTime
  | some path => l.alightTime + path.duration

/-- The two rides start in the same way. -/
structure SameStart (a b : RideLeg) : Prop where
  pattern : a.pattern = b.pattern
  trip : a.trip = b.trip
  tripId : a.tripId = b.tripId
  boardPosition : a.boardPosition = b.boardPosition
  boardStop : a.boardStop = b.boardStop
  boardTime : a.boardTime = b.boardTime
  rule : a.rule = b.rule

/-- The two rides end in the same way. -/
structure SameEnd (a b : RideLeg) : Prop where
  pattern : a.pattern = b.pattern
  trip : a.trip = b.trip
  tripId : a.tripId = b.tripId
  alightPosition : a.alightPosition = b.alightPosition
  alightStop : a.alightStop = b.alightStop
  alightTime : a.alightTime = b.alightTime

theorem SameStart.refl (a : RideLeg) : a.SameStart a := ⟨rfl, rfl, rfl, rfl, rfl, rfl, rfl⟩

theorem SameEnd.refl (a : RideLeg) : a.SameEnd a := ⟨rfl, rfl, rfl, rfl, rfl, rfl⟩

theorem SameEnd.trans {a b c : RideLeg} (h : a.SameEnd b) (h' : b.SameEnd c) : a.SameEnd c :=
  ⟨h.pattern.trans h'.pattern, h.trip.trans h'.trip, h.tripId.trans h'.tripId,
    h.alightPosition.trans h'.alightPosition, h.alightStop.trans h'.alightStop,
    h.alightTime.trans h'.alightTime⟩

theorem SameEnd.feeder_eq {a b : RideLeg} (h : a.SameEnd b) : a.feeder = b.feeder := by
  unfold feeder
  rw [h.pattern, h.tripId, h.alightPosition]

theorem SameEnd.readyAfter_eq {a b : RideLeg} (h : a.SameEnd b) (walk : Option Footpath) :
    a.readyAfter walk = b.readyAfter walk := by
  unfold readyAfter
  rw [h.alightTime]

end RideLeg

/-! ## §2. Changes. -/

/-- One who leaves the first ride is where the second one starts, or gets there
by the footpath. -/
def Schedule.Connects (s : Schedule) (a : RideLeg) (walk : Option Footpath) (b : RideLeg) : Prop :=
  match walk with
  | none => a.alightStop = b.boardStop
  | some path =>
    path ∈ s.footpaths ∧ path.origin = a.alightStop ∧ path.destination = b.boardStop

/-- A rule of the schedule lets one who left the first ride board the second
one in time. -/
def Network.Permits (n : Network) (a : RideLeg) (walk : Option Footpath) (b : RideLeg) : Prop :=
  ∃ r ∈ n.applicableRules a.feeder b.pattern b.boardPosition, r.kind.overrides = true ∧
    r.onward.covers b.tripId = true ∧ a.readyAfter walk + r.minTransferTime ≤ b.boardTime

namespace SlidingContext

/-- The usual time for changing to a pattern. -/
def slackFor (ctx : SlidingContext) (pattern : Nat) : Duration :=
  (ctx.network.pattern pattern).minTransferTime.getD ctx.transferSlack

/-- The second ride was caught: by the usual time for changing to it if it needs
no rule, and by its rule otherwise. -/
def Catches (ctx : SlidingContext) (a : RideLeg) (walk : Option Footpath) (b : RideLeg) : Prop :=
  ctx.network.Catches (ctx.slackFor b.pattern) a.feeder b.pattern b.boardPosition b.tripId
    (a.readyAfter walk) b.boardTime b.rule

/-- What a search in reverse makes sure of: that a rule permits the change, or
that there is the usual time for changing to one of the two patterns. -/
def CatchesEither (ctx : SlidingContext) (a : RideLeg) (walk : Option Footpath) (b : RideLeg) :
    Prop :=
  ctx.network.Permits a walk b ∨ a.readyAfter walk + ctx.slackFor b.pattern ≤ b.boardTime ∨
    a.readyAfter walk + ctx.slackFor a.pattern ≤ b.boardTime

theorem Catches.either {ctx : SlidingContext} {a b : RideLeg} {walk : Option Footpath}
    (h : ctx.Catches a walk b) : ctx.CatchesEither a walk b := by
  unfold Catches Network.Catches at h
  split at h
  · exact Or.inr (Or.inl h)
  · obtain ⟨r, hr, hoverrides, -, hcovers, hle⟩ := h.exists_rule
    exact Or.inl ⟨r, hr, hoverrides, hcovers, hle⟩

end SlidingContext

/-- A relation between two rides and the way from one to the other. -/
abbrev ChangeRelation := RideLeg → Option Footpath → RideLeg → Prop

namespace Assembly

/-- What is known of a change on a journey that was found in a given
direction. -/
structure Joined (a : Assembly) (before : RideLeg) (walk : Option Footpath) (after : RideLeg) :
    Prop where
  connects : a.network.schedule.Connects before walk after
  /-- Searching forward, the second ride was caught. -/
  catches : a.direction = .forward → a.Catches before walk after
  /-- Searching in reverse, one of the two times for changing was kept. -/
  either : a.direction = .reverse → a.CatchesEither before walk after

/-- A change depends on how the first ride ends and how the second one
starts. -/
theorem Joined.congr {a : Assembly} {before before' after after' : RideLeg}
    {walk : Option Footpath} (h : a.Joined before walk after) (hbefore : before.SameEnd before')
    (hafter : after.SameStart after') : a.Joined before' walk after' := by
  refine ⟨?_, ?_, ?_⟩
  · have hconnects := h.connects
    unfold Schedule.Connects at hconnects ⊢
    rw [← hbefore.alightStop, ← hafter.boardStop]
    exact hconnects
  · intro hdirection
    have hcatches := h.catches hdirection
    unfold SlidingContext.Catches at hcatches ⊢
    rw [← hbefore.feeder_eq, ← hbefore.readyAfter_eq, ← hafter.pattern, ← hafter.boardPosition,
      ← hafter.tripId, ← hafter.boardTime, ← hafter.rule]
    exact hcatches
  · intro hdirection
    have heither := h.either hdirection
    unfold SlidingContext.CatchesEither Network.Permits at heither ⊢
    rw [← hbefore.feeder_eq, ← hbefore.readyAfter_eq, ← hbefore.pattern, ← hafter.pattern,
      ← hafter.boardPosition, ← hafter.tripId, ← hafter.boardTime]
    exact heither

/-- No rule forbids the change. -/
def Lawful (a : Assembly) (before : RideLeg) (_walk : Option Footpath) (after : RideLeg) : Prop :=
  a.network.forbidsTrip before.feeder after.pattern after.boardPosition after.tripId = false

theorem Lawful.congr {a : Assembly} {before before' after after' : RideLeg}
    {walk : Option Footpath} (h : a.Lawful before walk after) (hbefore : before.SameEnd before')
    (hafter : after.SameStart after') : a.Lawful before' walk after' := by
  unfold Lawful at h ⊢
  rw [← hbefore.feeder_eq, ← hafter.pattern, ← hafter.boardPosition, ← hafter.tripId]
  exact h

/-- Whoever changes is ready before the second ride starts. -/
theorem Joined.readyAfter_le {a : Assembly} {before after : RideLeg} {walk : Option Footpath}
    (h : a.Joined before walk after) : before.readyAfter walk ≤ after.boardTime := by
  cases hdirection : a.direction with
  | forward => exact (h.catches hdirection).ready_le
  | reverse =>
      rcases h.either hdirection with ⟨r, -, -, -, hle⟩ | hle | hle
      · exact Time.le_trans (Time.le_add _ _) hle
      · exact Time.le_trans (Time.le_add _ _) hle
      · exact Time.le_trans (Time.le_add _ _) hle

end Assembly

end TransitRouting
