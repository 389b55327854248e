/-
  TransitRouting.Schedule.Numbering
  ─────────────────────────────────
  The numbers by which stops, patterns, trips and positions go.

  They start at zero and are kept in 32 bits.
-/

namespace TransitRouting

namespace Numbering

/-- The number that is kept for a count; its higher bits are lost. -/
def ofCount (n : Nat) : Nat := n % 4294967296

/-- The position after a position. -/
def next (position : Nat) : Nat := position + 1

/-- The position before a position, if there is one. -/
def previous? : Nat → Option Nat
  | 0 => none
  | position + 1 => some position

/-- The position of the same halt in the reversed sequence of `length` halts. -/
def opposite (length position : Nat) : Nat := length - 1 - position

/-- The same halt again, on reversing twice. -/
theorem opposite_opposite {length position : Nat} (h : position < length) :
    opposite length (opposite length position) = position := by
  unfold opposite
  omega

end Numbering

end TransitRouting
