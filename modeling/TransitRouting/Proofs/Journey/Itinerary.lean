/-
  TransitRouting.Proofs.Journey.Itinerary
  ───────────────────────────────────────
  Lists of rides in which at most one walk lies between two rides.

  What a search keeps of a journey is a list of labels, which becomes a list of
  steps, then of timed segments, and in the end of legs.  All four have the
  same shape, and what is known of single rides and of the change from one to
  the next is carried along from one list to the other.

  Main statements:

    • `Itinerary.map` — the shape survives a change of representation;
    • `Itinerary.reverse` — backwards it is one again, with every change the
      other way round;
    • `Itinerary.exists_neighbours` — what comes before and after a ride.
-/
import Mathlib.Data.List.Chain

namespace TransitRouting

variable {σ ρ ω : Type}

/-- Rides, each of which `runs`, from a first one to a last one.  Each is left
for the next one directly or by way of one walk, and the two are `joined`. -/
inductive Itinerary (ride : ρ → σ) (walk : ω → σ) (runs : ρ → Prop)
    (joined : ρ → Option ω → ρ → Prop) : ρ → List σ → ρ → Prop
  /-- One ride. -/
  | single {a : ρ} (ha : runs a) : Itinerary ride walk runs joined a [ride a] a
  /-- A ride in front, left for the next one directly. -/
  | direct {a b c : ρ} {xs : List σ} (ha : runs a) (hab : joined a none b)
      (hrest : Itinerary ride walk runs joined b xs c) :
      Itinerary ride walk runs joined a (ride a :: xs) c
  /-- A ride in front, with a walk to the next one. -/
  | walking {a b c : ρ} {w : ω} {xs : List σ} (ha : runs a) (hab : joined a (some w) b)
      (hrest : Itinerary ride walk runs joined b xs c) :
      Itinerary ride walk runs joined a (ride a :: walk w :: xs) c

namespace Itinerary

variable {ride : ρ → σ} {walk : ω → σ} {runs : ρ → Prop} {joined : ρ → Option ω → ρ → Prop}
  {a b c d : ρ} {xs ys : List σ}

/-- A ride in front, with or without a walk to the next one. -/
theorem cons {w : Option ω} (ha : runs a) (hab : joined a w b)
    (hrest : Itinerary ride walk runs joined b xs c) :
    Itinerary ride walk runs joined a (ride a :: ((w.map walk).toList ++ xs)) c := by
  cases w with
  | none => exact .direct ha hab hrest
  | some w => exact .walking ha hab hrest

/-- Induction with one case for all changes, on foot or not. -/
theorem change_induction
    {motive : (a : ρ) → (xs : List σ) → (b : ρ) → Itinerary ride walk runs joined a xs b → Prop}
    (single : ∀ {a} (ha : runs a), motive a [ride a] a (.single ha))
    (change : ∀ {a b c w xs} (ha : runs a) (hab : joined a w b)
      (hrest : Itinerary ride walk runs joined b xs c), motive b xs c hrest →
        motive a (ride a :: ((w.map walk).toList ++ xs)) c (cons ha hab hrest))
    {a : ρ} {xs : List σ} {b : ρ} (h : Itinerary ride walk runs joined a xs b) :
    motive a xs b h := by
  induction h with
  | single ha => exact single ha
  | direct ha hab hrest ih => exact change (w := none) ha hab hrest ih
  | walking ha hab hrest ih => exact change (w := some _) ha hab hrest ih

theorem runs_first (h : Itinerary ride walk runs joined a xs b) : runs a := by
  cases h with
  | single ha => exact ha
  | direct ha => exact ha
  | walking ha => exact ha

theorem runs_last (h : Itinerary ride walk runs joined a xs b) : runs b := by
  induction h with
  | single ha => exact ha
  | direct _ _ _ ih => exact ih
  | walking _ _ _ ih => exact ih

/-- An itinerary starts with its first ride. -/
theorem exists_eq_cons (h : Itinerary ride walk runs joined a xs b) : ∃ ys, xs = ride a :: ys := by
  cases h with
  | single => exact ⟨[], rfl⟩
  | direct => exact ⟨_, rfl⟩
  | walking => exact ⟨_, rfl⟩

/-- Another ride can take the place of the first one if one can change from it
to the same rides. -/
theorem restart (h : Itinerary ride walk runs joined a (ride a :: xs) b) (hc : runs c)
    (hjoined : ∀ {w q}, joined a w q → joined c w q) :
    Itinerary ride walk runs joined c (ride c :: xs) b ∨
      a = b ∧ Itinerary ride walk runs joined c (ride c :: xs) c := by
  cases h with
  | single => exact Or.inr ⟨rfl, .single hc⟩
  | direct _ hab hrest => exact Or.inl (.direct hc (hjoined hab) hrest)
  | walking _ hab hrest => exact Or.inl (.walking hc (hjoined hab) hrest)

/-- Whatever is on the list is a ride that runs, or the walk of a change. -/
theorem of_mem (h : Itinerary ride walk runs joined a xs b) {x : σ} (hx : x ∈ xs) :
    (∃ r, runs r ∧ x = ride r) ∨ ∃ p w q, joined p (some w) q ∧ x = walk w := by
  induction h with
  | @single a ha =>
      obtain rfl := List.mem_singleton.mp hx
      exact Or.inl ⟨a, ha, rfl⟩
  | @direct a b c xs ha hab _ ih =>
      rcases List.mem_cons.mp hx with rfl | hx
      · exact Or.inl ⟨a, ha, rfl⟩
      · exact ih hx
  | @walking a b c w xs ha hab _ ih =>
      rcases List.mem_cons.mp hx with rfl | hx
      · exact Or.inl ⟨a, ha, rfl⟩
      · rcases List.mem_cons.mp hx with rfl | hx
        · exact Or.inr ⟨a, w, b, hab, rfl⟩
        · exact ih hx

/-- An itinerary ends with its last ride. -/
theorem getLast?_eq (h : Itinerary ride walk runs joined a xs b) :
    xs.getLast? = some (ride b) := by
  induction h with
  | single => rfl
  | direct _ _ _ ih => rw [List.getLast?_cons, ih]; rfl
  | walking _ _ _ ih => rw [List.getLast?_cons, List.getLast?_cons, ih]; rfl

/-- What relates the neighbours in every change relates all neighbours. -/
theorem isChain (h : Itinerary ride walk runs joined a xs b) {R : σ → σ → Prop}
    (hdirect : ∀ {p q}, joined p none q → R (ride p) (ride q))
    (hwalking : ∀ {p w q}, joined p (some w) q → R (ride p) (walk w) ∧ R (walk w) (ride q)) :
    xs.IsChain R := by
  induction h with
  | single => exact .singleton _
  | direct _ hab hrest ih =>
      obtain ⟨ys, rfl⟩ := hrest.exists_eq_cons
      exact .cons_cons (hdirect hab) ih
  | walking _ hab hrest ih =>
      obtain ⟨ys, rfl⟩ := hrest.exists_eq_cons
      exact .cons_cons (hwalking hab).1 (.cons_cons (hwalking hab).2 ih)

/-- Two rides that follow each other on the list, directly or with a walk in
between, are joined. -/
theorem joined_of_eq_append (hride : ∀ {p q}, ride p = ride q → p = q)
    (hwalk : ∀ {v w}, walk v = walk w → v = w) (hne : ∀ {p w}, ride p ≠ walk w)
    (h : Itinerary ride walk runs joined a xs b) {p q : ρ} {w : Option ω} {zs : List σ} :
    ∀ {ys}, xs = ys ++ ride p :: ((w.map walk).toList ++ ride q :: zs) → joined p w q := by
  induction h with
  | single =>
      intro ys heq
      have hlength := congrArg List.length heq
      simp only [List.length_append, List.length_cons, List.length_nil] at hlength
      omega
  | direct _ hab hrest ih =>
      intro ys heq
      -- Either the two rides are the first ones, or they come later.
      cases ys with
      | nil =>
          obtain ⟨hp, htail⟩ := List.cons.inj heq
          obtain ⟨_, rfl⟩ := hrest.exists_eq_cons
          obtain rfl := hride hp
          cases w with
          | none =>
              obtain rfl := hride (List.cons.inj htail).1
              exact hab
          | some w => exact absurd (List.cons.inj htail).1 hne
      | cons y ys => exact ih (List.cons.inj heq).2
  | walking _ hab hrest ih =>
      intro ys heq
      cases ys with
      | nil =>
          obtain ⟨hp, htail⟩ := List.cons.inj heq
          obtain ⟨_, rfl⟩ := hrest.exists_eq_cons
          obtain rfl := hride hp
          cases w with
          | none => exact absurd (List.cons.inj htail).1.symm hne
          | some w =>
              obtain ⟨hw, hrides⟩ := List.cons.inj htail
              obtain rfl := hwalk hw
              obtain rfl := hride (List.cons.inj hrides).1
              exact hab
      | cons y ys =>
          obtain ⟨-, htail⟩ := List.cons.inj heq
          cases ys with
          -- A walk is no ride, so the two rides do not start with it.
          | nil => exact absurd (List.cons.inj htail).1.symm hne
          | cons y' ys => exact ih (List.cons.inj htail).2

/-- On the list the second ride follows the first one, by way of the walk if
there is one. -/
def Consecutive (ride : ρ → σ) (walk : ω → σ) (xs : List σ) (p : ρ) (w : Option ω) (q : ρ) :
    Prop :=
  ride p :: ((w.map walk).toList ++ [ride q]) <:+: xs

/-- Every ride on the list is the first one or follows one from which one can
change to it, and it is the last one or is followed by one to which one can
change from it. -/
theorem exists_neighbours (h : Itinerary ride walk runs joined a xs b) {x : σ} (hx : x ∈ xs)
    (hride : ∀ w, x ≠ walk w) :
    ∃ r, x = ride r ∧
      (r = a ∨ ∃ p w, joined p w r ∧ Consecutive ride walk xs p w r) ∧
      (r = b ∨ ∃ w q, joined r w q ∧ Consecutive ride walk xs r w q) := by
  induction h using change_induction with
  | @single a ha =>
      obtain rfl := List.mem_singleton.mp hx
      exact ⟨a, rfl, Or.inl rfl, Or.inl rfl⟩
  | @change a b c w xs ha hab hrest ih =>
      obtain ⟨ys, hys⟩ := hrest.exists_eq_cons
      have hfirst : Consecutive ride walk (ride a :: ((w.map walk).toList ++ xs)) a w b := by
        refine ⟨[], ys, ?_⟩
        simp [hys]
      have hlater : ∀ {p v q}, Consecutive ride walk xs p v q →
          Consecutive ride walk (ride a :: ((w.map walk).toList ++ xs)) p v q := by
        intro p v q hinside
        exact (hinside.trans (List.suffix_append _ xs).isInfix).trans (List.suffix_cons _ _).isInfix
      rcases List.mem_cons.mp hx with rfl | hx
      · exact ⟨a, rfl, Or.inl rfl, Or.inr ⟨w, b, hab, hfirst⟩⟩
      · rcases List.mem_append.mp hx with hx | hx
        · -- A walk is no ride.
          obtain ⟨v, -, rfl⟩ := Option.map_eq_some_iff.mp (Option.mem_toList.mp hx)
          exact absurd rfl (hride v)
        · obtain ⟨r, rfl, hbefore, hafter⟩ := ih hx
          refine ⟨r, rfl, Or.inr ?_, ?_⟩
          · rcases hbefore with rfl | ⟨p, v, hjoined, hinside⟩
            · exact ⟨a, w, hab, hfirst⟩
            · exact ⟨p, v, hjoined, hlater hinside⟩
          · rcases hafter with hlast | ⟨v, q, hjoined, hinside⟩
            · exact Or.inl hlast
            · exact Or.inr ⟨v, q, hjoined, hlater hinside⟩

/-- Two itineraries make one if the change between them can be made. -/
theorem append (h : Itinerary ride walk runs joined a xs b) {w : Option ω} (hw : joined b w c)
    (h' : Itinerary ride walk runs joined c ys d) :
    Itinerary ride walk runs joined a (xs ++ ((w.map walk).toList ++ ys)) d := by
  induction h with
  | single ha =>
      cases w with
      | none => exact .direct ha hw h'
      | some w => exact .walking ha hw h'
  | direct ha hab _ ih => exact .direct ha hab (ih hw)
  | walking ha hab _ ih => exact .walking ha hab (ih hw)

/-- Backwards, every change is made the other way round. -/
theorem reverse (h : Itinerary ride walk runs joined a xs b) :
    Itinerary ride walk runs (fun p w q => joined q w p) b xs.reverse a := by
  induction h with
  | single ha => exact .single ha
  | @direct a b c xs ha hab _ ih =>
      rw [List.reverse_cons]
      exact ih.append (w := none) hab (.single ha)
  | @walking a b c w xs ha hab _ ih =>
      rw [List.reverse_cons, List.reverse_cons, List.append_assoc]
      exact ih.append (w := some w) hab (.single ha)

/-- The shape survives a change of representation. -/
theorem map {τ ρ' ω' : Type} {ride' : ρ' → τ} {walk' : ω' → τ} {runs' : ρ' → Prop}
    {joined' : ρ' → Option ω' → ρ' → Prop} (f : σ → τ) (g : ρ → ρ') (k : ω → ω')
    (hride : ∀ {r}, runs r → f (ride r) = ride' (g r) ∧ runs' (g r))
    (hwalk : ∀ {p w q}, joined p (some w) q → f (walk w) = walk' (k w))
    (hjoined : ∀ {p w q}, runs p → runs q → joined p w q → joined' (g p) (w.map k) (g q))
    (h : Itinerary ride walk runs joined a xs b) :
    Itinerary ride' walk' runs' joined' (g a) (xs.map f) (g b) := by
  induction h with
  | single ha =>
      rw [List.map_singleton, (hride ha).1]
      exact .single (hride ha).2
  | direct ha hab hrest ih =>
      rw [List.map_cons, (hride ha).1]
      exact .direct (hride ha).2 (hjoined ha hrest.runs_first hab) ih
  | walking ha hab hrest ih =>
      rw [List.map_cons, List.map_cons, (hride ha).1, hwalk hab]
      exact .walking (hride ha).2 (hjoined ha hrest.runs_first hab) ih

end Itinerary

end TransitRouting
