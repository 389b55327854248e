/-
  TransitRouting.LabelStore
  ─────────────────────────
  The labels of one search, by round and stop.

  Each round keeps all labels ever made in it, in the order in which they
  came, so that a reference to a label stays good.  For each stop it lists
  which of them are best: the others have been superseded, but a later label
  may still point to them.  A label is taken in unless a best label of its
  stop, of its own round or an earlier one, rejects it; the best labels of its
  own round that it dominates are then no longer best.
-/
import TransitRouting.Buckets
import TransitRouting.Label

namespace TransitRouting

/-! ## §1. Rounds. -/

/-- The labels of one round. -/
structure Round where
  /-- All labels of the round, in the order in which they came. -/
  labels : Array Label
  /-- For each stop the places of its best labels, in ascending order. -/
  best : Buckets Nat
  /-- The stops that have best labels, in the order in which they got one. -/
  touched : List Nat
deriving Inhabited

namespace Round

/-- A round without labels, for a number of stops. -/
def empty (stopCount : Nat) : Round := ⟨#[], Buckets.empty stopCount, []⟩

/-- The label at a given place. -/
def label (r : Round) (index : Nat) : Label := r.labels.getD index default

/-- The best labels of a stop. -/
def bestLabels (r : Round) (stop : Nat) : List Label := (r.best.row stop).map r.label

/-- A best label of the stop rejects the label. -/
def rejects (policy : TieBreak) (r : Round) (l : Label) : Bool :=
  (r.bestLabels l.stop).any fun held => held.criteria.Rejects policy l.criteria

/-- The round with one more best label. -/
def insert (r : Round) (l : Label) : Round :=
  { labels := r.labels.push l
    best := r.best.update l.stop fun places =>
      places.filter (fun i => ¬ l.criteria.Dominates (r.label i).criteria) ++ [r.labels.size]
    touched := if l.stop ∈ r.touched then r.touched else r.touched ++ [l.stop] }

/-- Place `i` of a stop keeps its rank: no other best label of the stop, in
this round or an earlier one, dominates its label. -/
def isUnbeaten (earlier : List Round) (r : Round) (stop i : Nat) : Bool :=
  let dominated (held : Label) : Bool := held.criteria.Dominates (r.label i).criteria
  !(r.best.row stop).any (fun j => j ≠ i && dominated (r.label j)) &&
    !earlier.any fun e => (e.bestLabels stop).any dominated

/-- The round with only those best labels that are unbeaten. -/
def prune (earlier : List Round) (r : Round) : Round :=
  let best := r.touched.foldl
    (fun best stop => best.update stop (·.filter (r.isUnbeaten earlier stop))) r.best
  { r with best, touched := r.touched.filter fun stop => !(best.row stop).isEmpty }

/-- Number of best labels at the touched stops. -/
def bestCount (r : Round) : Nat :=
  r.touched.foldl (fun n stop => n + (r.best.row stop).length) 0

/-- The round without its labels.  Only stops that were touched have best
labels to forget. -/
def clear (r : Round) : Round :=
  { labels := #[]
    best := r.touched.foldl (fun best stop => best.update stop fun _ => []) r.best
    touched := [] }

end Round

/-! ## §2. The store. -/

/-- Labels by round and stop. -/
structure LabelStore where
  /-- Number of stops. -/
  stopCount : Nat
  /-- What becomes of ties. -/
  policy : TieBreak
  /-- The rounds, from round 0 on. -/
  rounds : List Round
deriving Inhabited

namespace LabelStore

/-- A store without labels. -/
def empty (stopCount : Nat) (policy : TieBreak) : LabelStore := ⟨stopCount, policy, []⟩

/-- Number of rounds that have been written to. -/
def roundCount (s : LabelStore) : Nat := s.rounds.length

/-- A given round; one that has not been written to has no labels. -/
def round (s : LabelStore) (round : Nat) : Round :=
  s.rounds.getD round (Round.empty s.stopCount)

/-- The store with rounds up to the given one. -/
def reach (s : LabelStore) (round : Nat) : LabelStore :=
  { s with rounds :=
      s.rounds ++ List.replicate (round + 1 - s.rounds.length) (Round.empty s.stopCount) }

/-- A best label of the stop, in one of the rounds up to the given one,
rejects the label. -/
def rejects (s : LabelStore) (round : Nat) (l : Label) : Bool :=
  (s.rounds.take (round + 1)).any fun r => r.rejects s.policy l

/-- Takes a label into a round, unless it is rejected.  Gives the store and
where the label is kept. -/
def add? (s : LabelStore) (round : Nat) (l : Label) : Option (LabelStore × LabelPlace) :=
  if s.rejects round l then none
  else
    -- Rounds may be skipped.
    let s := s.reach round
    some ({ s with rounds := s.rounds.modify round (·.insert l) },
      ⟨round, (s.round round).labels.size⟩)

/-- The store after a label was offered to a round. -/
def offer (s : LabelStore) (round : Nat) (l : Label) : LabelStore :=
  ((s.add? round l).map (·.1)).getD s

/-- The store after labels were offered to a round one by one, and how many of
them were taken in. -/
def offerAll (s : LabelStore) (round : Nat) (labels : List Label) : LabelStore × Nat :=
  labels.foldl
    (fun (s, added) l =>
      match s.add? round l with
      | some (s', _) => (s', added + 1)
      | none => (s, added))
    (s, 0)

/-- The label that is kept in a place. -/
def label? (s : LabelStore) (place : LabelPlace) : Option Label := do
  let round ← s.rounds[place.round]?
  round.labels[place.index]?

/-- The best labels of a stop in a round, with their places. -/
def bestLabels (s : LabelStore) (round stop : Nat) : List (LabelPlace × Label) :=
  let r := s.round round
  (r.best.row stop).map fun i => (⟨round, i⟩, r.label i)

/-- The stops that have best labels in a round, in the order in which they got
one. -/
def reachedStops (s : LabelStore) (round : Nat) : List Nat := (s.round round).touched

/-- The earliest arrival at a stop in a round. -/
def roundArrival? (s : LabelStore) (round stop : Nat) : Option Time :=
  ((s.bestLabels round stop).map (·.2.arrival)).min?

/-- The earliest arrival at a stop in the rounds up to the given one. -/
def bestArrival? (s : LabelStore) (stop lastRound : Nat) : Option Time :=
  let labels := (List.range (lastRound + 1)).flatMap fun round => s.bestLabels round stop
  (labels.map (·.2.arrival)).min?

/-- The store with only the unbeaten labels of a round as its best ones, and
how many ceased to be. -/
def prune (s : LabelStore) (round : Nat) : LabelStore × Nat :=
  let pruned := (s.round round).prune (s.rounds.take round)
  ({ s with rounds := s.rounds.modify round fun _ => pruned },
    (s.round round).bestCount - pruned.bestCount)

/-- The store without labels.  The rounds stay. -/
def clear (s : LabelStore) : LabelStore := { s with rounds := s.rounds.map Round.clear }

/-- No stop has a best label. -/
def isEmpty (s : LabelStore) : Bool := s.rounds.all fun r => r.touched.isEmpty

/-- Number of labels in all rounds. -/
def size (s : LabelStore) : Nat := s.rounds.foldl (fun n r => n + r.labels.size) 0

end LabelStore

end TransitRouting
