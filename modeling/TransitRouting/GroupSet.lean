/-
  TransitRouting.GroupSet
  ───────────────────────
  Sets of priority groups.

  Every trip belongs to one of 32 priority groups: rail, bus, ferry and so on.
  A traveller carries the set of groups used so far, and one arrival can only
  stand in for another if it used no group that the other did not.  So
  journeys that keep to a distinct group survive although they are slower.

  Main statements: inclusion is reflexive, transitive and antisymmetric
  (`GroupSet.subset_refl`, `GroupSet.subset_trans`, `GroupSet.subset_antisymm`).
-/

namespace TransitRouting

/-- A set of priority groups, one bit for each. -/
structure GroupSet where
  /-- Bit `g` is set if group `g` is in the set. -/
  bits : UInt32
deriving DecidableEq, Repr, Inhabited

namespace GroupSet

/-- The highest group that a set can hold. -/
def highest : Nat := 31

/-- No group. -/
def empty : GroupSet := ⟨0⟩

/-- The set with group `g` as well. -/
def insert (s : GroupSet) (g : Nat) : GroupSet := ⟨s.bits ||| 1 <<< UInt32.ofNat g⟩

/-- The set of one group. -/
def single (g : Nat) : GroupSet := empty.insert g

/-- Group `g` is in the set. -/
def contains (s : GroupSet) (g : Nat) : Bool :=
  g ≤ highest && (s.bits >>> UInt32.ofNat g) &&& 1 = 1

/-- Every group of `a` is in `b`. -/
def Subset (a b : GroupSet) : Prop := a.bits ||| b.bits = b.bits

instance : HasSubset GroupSet := ⟨Subset⟩

instance (a b : GroupSet) : Decidable (a ⊆ b) :=
  inferInstanceAs (Decidable (a.bits ||| b.bits = b.bits))

/-- The groups of the set, in ascending order. -/
def toList (s : GroupSet) : List Nat := (List.range (highest + 1)).filter s.contains

/-- Number of groups in the set. -/
def size (s : GroupSet) : Nat := s.toList.length

/-- The set has no group. -/
def isEmpty (s : GroupSet) : Bool := s.bits = 0

/-- The text that lists the groups. -/
def debugText (s : GroupSet) : String :=
  "PriorityGroups([" ++ ", ".intercalate (s.toList.map toString) ++ "])"

/-! ## Inclusion is a partial order. -/

theorem subset_def {a b : GroupSet} : a ⊆ b ↔ a.bits ||| b.bits = b.bits := Iff.rfl

theorem subset_refl (a : GroupSet) : a ⊆ a := by
  rw [subset_def, UInt32.or_self]

theorem subset_trans {a b c : GroupSet} (h : a ⊆ b) (h' : b ⊆ c) : a ⊆ c := by
  rw [subset_def] at *
  rw [← h', ← UInt32.or_assoc, h]

theorem subset_antisymm {a b : GroupSet} (h : a ⊆ b) (h' : b ⊆ a) : a = b := by
  rw [subset_def] at *
  have : a.bits = b.bits := by rw [← h, UInt32.or_comm, h']
  cases a; cases b; simp_all

theorem subset_insert (s : GroupSet) (g : Nat) : s ⊆ s.insert g := by
  show s.bits ||| (s.bits ||| _) = s.bits ||| _
  rw [← UInt32.or_assoc, UInt32.or_self]

end GroupSet

/-! ## Merging the group of a boarded trip. -/

/-- How the group of a trip just boarded joins the groups used so far. -/
abbrev GroupMerge := GroupSet → Nat → GroupSet

namespace GroupMerge

/-- The set of all groups used. -/
def union : GroupMerge := GroupSet.insert

/-- Groups are not recorded, so every two arrivals can be compared. -/
def ignore : GroupMerge := fun s _ => s

end GroupMerge

end TransitRouting
