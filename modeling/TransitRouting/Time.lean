/-
  TransitRouting.Time
  ───────────────────
  Service-day times and durations, both counted in whole seconds.

  A `Time` is a point on the service day's own timeline: seconds after its
  midnight, past 24 hours for trips that run into the next calendar day, and
  below zero on the timeline that arrive-by searches use, where every time is
  negated.  A `Duration` is never negative.  Both stay within 32 bits, and sums
  and differences stop at the ends of that range instead of leaving it.

  Main statements:

    • `Time.add_seconds`, `Time.sub_seconds`, `Time.neg_seconds` — what the
      saturating operations do to the count of seconds;
    • `Time.neg_neg` — negation undoes itself except at the least time;
    • `Time.le_add` — adding a duration never moves a time back.
-/

namespace TransitRouting

/-! ## §1. Durations. -/

/-- A span of time: a number of seconds that fits in 31 bits. -/
structure Duration where
  /-- Length in seconds. -/
  seconds : Nat
  /-- The length fits. -/
  le_greatest : seconds ≤ 2147483647 := by decide
deriving DecidableEq, Repr

namespace Duration

instance : Inhabited Duration := ⟨⟨0, by decide⟩⟩

/-- The span of no length. -/
def zero : Duration := ⟨0, by decide⟩

/-- The longest span. -/
def greatest : Duration := ⟨2147483647, by decide⟩

/-- The span of `n` seconds, or the longest one if `n` does not fit. -/
def saturate (n : Nat) : Duration := ⟨min n 2147483647, by omega⟩

/-- The span of `n` seconds; a negative count is the empty span. -/
def ofSeconds (n : Int) : Duration := saturate n.toNat

/-- The span of `n` minutes; a negative count is the empty span. -/
def ofMinutes (n : Int) : Duration := ofSeconds (n * 60)

/-- The span of exactly `n` seconds, if there is one. -/
def ofSeconds? (n : Int) : Option Duration :=
  if h : 0 ≤ n ∧ n ≤ 2147483647 then some ⟨n.toNat, by omega⟩ else none

instance : LE Duration := ⟨fun a b => a.seconds ≤ b.seconds⟩
instance : LT Duration := ⟨fun a b => a.seconds < b.seconds⟩
instance : DecidableLE Duration := fun a b => inferInstanceAs (Decidable (a.seconds ≤ b.seconds))
instance : DecidableLT Duration := fun a b => inferInstanceAs (Decidable (a.seconds < b.seconds))

/-- One span after another. -/
instance : Add Duration := ⟨fun a b => saturate (a.seconds + b.seconds)⟩

/-- The least multiple of `step` that is no shorter than `d`; `d` itself if
`step` is empty. -/
def ceilTo (d step : Duration) : Duration :=
  if step.seconds = 0 then d
  else saturate ((d.seconds + step.seconds - 1) / step.seconds * step.seconds)

@[simp] theorem saturate_seconds (n : Nat) : (saturate n).seconds = min n 2147483647 := rfl

@[simp] theorem add_seconds (a b : Duration) :
    (a + b).seconds = min (a.seconds + b.seconds) 2147483647 := rfl

theorem le_def {a b : Duration} : a ≤ b ↔ a.seconds ≤ b.seconds := Iff.rfl

theorem lt_def {a b : Duration} : a < b ↔ a.seconds < b.seconds := Iff.rfl

theorem ext {a b : Duration} (h : a.seconds = b.seconds) : a = b := by
  cases a; cases b; simp_all

end Duration

/-! ## §2. Times. -/

/-- A point in time: seconds after the midnight that starts the service day. -/
structure Time where
  /-- Seconds after midnight. -/
  seconds : Int
  /-- The count is not below the least one. -/
  least_le : -2147483648 ≤ seconds := by decide
  /-- The count is not above the greatest one. -/
  le_greatest : seconds ≤ 2147483647 := by decide
deriving DecidableEq, Repr

namespace Time

/-- The start of the service day. -/
def midnight : Time := ⟨0, by decide, by decide⟩

instance : Inhabited Time := ⟨midnight⟩

/-- The time `n` seconds after midnight, or the nearest one that fits. -/
def saturate (n : Int) : Time :=
  ⟨max (-2147483648) (min n 2147483647), by omega, by omega⟩

/-- The time exactly `n` seconds after midnight, if there is one. -/
def ofSeconds? (n : Int) : Option Time :=
  if h : -2147483648 ≤ n ∧ n ≤ 2147483647 then some ⟨n, h.1, h.2⟩ else none

/-- The time with the given clock reading.  Its seconds are counted in 32 bits, and a
count that does not fit wraps around. -/
def ofClock (hours minutes seconds : Int) : Time :=
  saturate (hours * 3600 + minutes * 60 + seconds).toInt32.toInt

instance : LE Time := ⟨fun a b => a.seconds ≤ b.seconds⟩
instance : LT Time := ⟨fun a b => a.seconds < b.seconds⟩
instance : DecidableLE Time := fun a b => inferInstanceAs (Decidable (a.seconds ≤ b.seconds))
instance : DecidableLT Time := fun a b => inferInstanceAs (Decidable (a.seconds < b.seconds))

/-- The earlier of two times. -/
instance : Min Time := ⟨fun a b => if a ≤ b then a else b⟩

/-- The later of two times. -/
instance : Max Time := ⟨fun a b => if a ≤ b then b else a⟩

/-- The time a duration later. -/
instance : HAdd Time Duration Time := ⟨fun t d => saturate (t.seconds + d.seconds)⟩

/-- The time a duration earlier. -/
instance : HSub Time Duration Time := ⟨fun t d => saturate (t.seconds - d.seconds)⟩

/-- The same instant on the negated timeline. -/
instance : Neg Time := ⟨fun t => saturate (-t.seconds)⟩

/-- Signed number of seconds from `earlier` to `later`. -/
def secondsAfter (later earlier : Time) : Int :=
  (saturate (later.seconds - earlier.seconds)).seconds

/-- The span from `earlier` to `later`, if they come in that order. -/
def elapsed? (later earlier : Time) : Option Duration :=
  Duration.ofSeconds? (later.secondsAfter earlier)

/-- How long one who is ready at `ready` waits until `t`; nothing if `t` has
passed. -/
def waitSince (t ready : Time) : Duration :=
  (t.elapsed? ready).getD Duration.zero

/-! ### What the operations do to the seconds. -/

@[simp] theorem saturate_seconds (n : Int) :
    (saturate n).seconds = max (-2147483648) (min n 2147483647) := rfl

@[simp] theorem add_seconds (t : Time) (d : Duration) :
    (t + d).seconds = max (-2147483648) (min (t.seconds + d.seconds) 2147483647) := rfl

@[simp] theorem sub_seconds (t : Time) (d : Duration) :
    (t - d).seconds = max (-2147483648) (min (t.seconds - d.seconds) 2147483647) := rfl

@[simp] theorem neg_seconds (t : Time) :
    (-t).seconds = max (-2147483648) (min (-t.seconds) 2147483647) := rfl

theorem le_def {a b : Time} : a ≤ b ↔ a.seconds ≤ b.seconds := Iff.rfl

theorem lt_def {a b : Time} : a < b ↔ a.seconds < b.seconds := Iff.rfl

theorem ext {a b : Time} (h : a.seconds = b.seconds) : a = b := by
  cases a; cases b; simp_all

theorem ext_iff {a b : Time} : a = b ↔ a.seconds = b.seconds := ⟨fun h => h ▸ rfl, ext⟩

/-- Negation undoes itself, save at the least time, whose negation does not
fit. -/
theorem neg_neg (t : Time) (h : t.seconds ≠ -2147483648) : -(-t) = t := by
  have h₁ := t.least_le
  have h₂ := t.le_greatest
  apply ext
  simp only [neg_seconds]
  omega

theorem neg_le_neg {a b : Time} (h : a ≤ b) : -b ≤ -a := by
  rw [le_def] at h ⊢
  simp only [neg_seconds]
  omega

theorem add_zero (t : Time) : t + Duration.zero = t := by
  have h₁ := t.least_le
  have h₂ := t.le_greatest
  refine ext ?_
  rw [add_seconds]
  show max _ (min (t.seconds + 0) _) = _
  omega

theorem sub_zero (t : Time) : t - Duration.zero = t := by
  have h₁ := t.least_le
  have h₂ := t.le_greatest
  refine ext ?_
  rw [sub_seconds]
  show max _ (min (t.seconds - 0) _) = _
  omega

/-- Adding a duration never moves a time back. -/
theorem le_add (t : Time) (d : Duration) : t ≤ t + d := by
  have h₁ := t.least_le
  have h₂ := t.le_greatest
  rw [le_def, add_seconds]
  omega

theorem add_le_add {a b : Time} {d e : Duration} (h : a ≤ b) (h' : d ≤ e) : a + d ≤ b + e := by
  rw [le_def] at h ⊢
  rw [Duration.le_def] at h'
  simp only [add_seconds]
  omega

/-! ### The order is linear. -/

theorem le_refl (a : Time) : a ≤ a := Int.le_refl _

theorem le_trans {a b c : Time} (h : a ≤ b) (h' : b ≤ c) : a ≤ c := Int.le_trans h h'

theorem le_antisymm {a b : Time} (h : a ≤ b) (h' : b ≤ a) : a = b := ext (Int.le_antisymm h h')

theorem le_total (a b : Time) : a ≤ b ∨ b ≤ a := Int.le_total _ _

theorem not_le {a b : Time} : ¬ a ≤ b ↔ b < a := Int.not_le

theorem not_lt {a b : Time} : ¬ a < b ↔ b ≤ a := Int.not_lt

instance : Std.IsLinearOrder Time where
  le_refl := le_refl
  le_trans := fun _ _ _ => le_trans
  le_antisymm := fun _ _ => le_antisymm
  le_total := le_total

instance : Std.LawfulOrderLeftLeaningMin Time where
  min_eq_left := fun _ _ h => if_pos h
  min_eq_right := fun _ _ h => if_neg h

/-- `found` is the earliest time with a property; there is none if no time has
it. -/
def IsEarliest (holds : Time → Prop) (found : Option Time) : Prop :=
  match found with
  | none => ∀ t, ¬ holds t
  | some t => holds t ∧ ∀ u, holds u → t ≤ u

end Time

end TransitRouting
