/-
  TransitRouting.Buckets
  ──────────────────────
  Tables that list values under the numbers `0 … n - 1`.

  Main statement: `Buckets.row_ofList` — under each number stand the values
  given for it, in the order in which they were given.
-/

namespace TransitRouting

/-- A list of values for each number below the table's size. -/
structure Buckets (α : Type) where
  /-- The lists, by number. -/
  rows : Array (List α)

namespace Buckets

variable {α : Type}

instance : Inhabited (Buckets α) := ⟨⟨#[]⟩⟩

/-- The values listed under `k`; none if `k` is outside the table. -/
def row (b : Buckets α) (k : Nat) : List α := b.rows.getD k []

/-- The table with `n` empty rows. -/
def empty (n : Nat) : Buckets α := ⟨Array.replicate n []⟩

/-- The table with the row of `k` put through `f`. -/
def update (b : Buckets α) (k : Nat) (f : List α → List α) : Buckets α := ⟨b.rows.modify k f⟩

/-- The table with `x` listed last under `k`. -/
def insert (b : Buckets α) (k : Nat) (x : α) : Buckets α := b.update k (· ++ [x])

/-- The table with `n` rows in which every value stands under its number. -/
def ofList (n : Nat) (items : List (Nat × α)) : Buckets α :=
  items.foldl (fun b item => b.insert item.1 item.2) (empty n)

/-! ## What the operations do to the rows. -/

@[simp] theorem row_empty (n k : Nat) : (empty n : Buckets α).row k = [] := by
  by_cases h : k < n <;> simp [empty, row, h]

@[simp] theorem size_update (b : Buckets α) (k : Nat) (f : List α → List α) :
    (b.update k f).rows.size = b.rows.size := by
  simp [update]

theorem row_update (b : Buckets α) (k : Nat) (f : List α → List α) (j : Nat)
    (h : j < b.rows.size) :
    (b.update k f).row j = if k = j then f (b.row j) else b.row j := by
  unfold row update
  simp only [Array.getD_eq_getD_getElem?, Array.getElem?_modify]
  split
  · subst k
    simp [h]
  · rfl

theorem row_insert (b : Buckets α) (k : Nat) (x : α) (j : Nat) (h : j < b.rows.size) :
    (b.insert k x).row j = b.row j ++ if k = j then [x] else [] := by
  rw [insert, row_update _ _ _ _ h]
  split <;> simp

private theorem row_foldl (items : List (Nat × α)) :
    ∀ (b : Buckets α) (j : Nat), j < b.rows.size →
      (items.foldl (fun b item => b.insert item.1 item.2) b).row j =
        b.row j ++ (items.filter (·.1 = j)).map (·.2) := by
  induction items with
  | nil => intro b j _; simp
  | cons item items ih =>
      intro b j h
      rw [List.foldl_cons, ih _ j (by simpa [insert] using h), row_insert _ _ _ _ h]
      by_cases hk : item.1 = j <;> simp [hk]

/-- Under each number stand the values given for it, in the order given. -/
theorem row_ofList (n : Nat) (items : List (Nat × α)) (j : Nat) (h : j < n) :
    (ofList n items).row j = (items.filter (·.1 = j)).map (·.2) := by
  unfold ofList
  rw [row_foldl items (empty n) j (by simpa [empty] using h), row_empty, List.nil_append]

end Buckets

end TransitRouting
