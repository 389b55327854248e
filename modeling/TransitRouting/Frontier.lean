/-
  TransitRouting.Frontier
  ───────────────────────
  Sets in which only what is not superfluous is kept.

  A newcomer is offered to a frontier.  If a member rejects it, the frontier
  stays as it is.  Otherwise the members that the newcomer dominates leave and
  the newcomer joins at the end.

  Main statements:

    • `Frontier.offer?_eq_none_iff` — exactly what is rejected is refused;
    • `Frontier.mem_offer?` — who is in the frontier after a newcomer joins.
-/

namespace TransitRouting

/-- How two candidates compete. -/
structure Rivalry (α : Type) where
  /-- The first, on joining, makes the second leave. -/
  dominates : α → α → Bool
  /-- The first, as a member, keeps the second out. -/
  rejects : α → α → Bool

namespace Frontier

variable {α : Type} (r : Rivalry α)

/-- The frontier after `x` joins, unless a member rejects `x`. -/
def offer? (kept : List α) (x : α) : Option (List α) :=
  if kept.any (r.rejects · x) then none
  else some (kept.filter (fun y => !r.dominates x y) ++ [x])

/-- The frontier after `x` is offered. -/
def offer (kept : List α) (x : α) : List α := (offer? r kept x).getD kept

/-- The frontier after each candidate is offered in turn to an empty one. -/
def ofList (candidates : List α) : List α := candidates.foldl (offer r) []

theorem offer?_eq_none_iff {kept : List α} {x : α} :
    offer? r kept x = none ↔ ∃ y ∈ kept, r.rejects y x = true := by
  unfold offer?
  split
  · rename_i h
    simpa using h
  · rename_i h
    simpa using h

theorem mem_offer? {kept after : List α} {x y : α} (h : offer? r kept x = some after) :
    y ∈ after ↔ y = x ∨ y ∈ kept ∧ r.dominates x y = false := by
  unfold offer? at h
  split at h
  · exact absurd h (by simp)
  · obtain rfl := Option.some.inj h
    simp [or_comm]

end Frontier

end TransitRouting
