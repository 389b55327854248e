/-
  TransitRouting.Proofs.Checks
  ────────────────────────────
  What the success of a sequence of checks says about each of them.

  Feeds and requests are accepted by guards that run one after the other and
  stop at the first that fails.  The lemmas here take such a run apart, step by
  step.
-/
import Mathlib.Data.List.Forall2
import TransitRouting.Feed

namespace TransitRouting

namespace Checks

variable {ε α β σ : Type}

/-- A sequence succeeds exactly when its steps do in turn. -/
theorem bind_eq_ok {x : Except ε α} {f : α → Except ε β} {b : β} :
    (x >>= f) = .ok b ↔ ∃ a, x = .ok a ∧ f a = .ok b := by
  cases x <;> simp [bind, Except.bind]

/-- A check in front of a sequence is passed if the sequence succeeds. -/
theorem check_eq_ok {x : Except ε Unit} {f : Unit → Except ε β} {b : β} :
    (x >>= f) = .ok b ↔ x = .ok () ∧ f () = .ok b := by
  cases x <;> simp [bind, Except.bind]

/-- A guard that throws before it goes on is passed exactly when its condition
fails. -/
theorem guard_eq_ok {p : Prop} [Decidable p] {e : ε} {next : β → Except ε α}
    {x : Except ε α} {a : α} :
    (if p then throw e >>= next else x) = .ok a ↔ ¬ p ∧ x = .ok a := by
  by_cases hp : p <;> simp [hp, throw, throwThe, MonadExceptOf.throw, bind, Except.bind]

/-- A sequence fails where one of its steps does. -/
theorem bind_eq_error {x : Except ε α} {f : α → Except ε β} {e : ε} :
    (x >>= f) = .error e ↔ x = .error e ∨ ∃ a, x = .ok a ∧ f a = .error e := by
  cases x <;> simp [bind, Except.bind]

/-- A guard fails with its own error, or lets what follows fail. -/
theorem guard_eq_error {p : Prop} [Decidable p] {e e' : ε} {next : β → Except ε α}
    {x : Except ε α} :
    (if p then throw e' >>= next else x) = .error e ↔ p ∧ e' = e ∨ ¬ p ∧ x = .error e := by
  by_cases hp : p <;> simp [hp, throw, throwThe, MonadExceptOf.throw, bind, Except.bind]

theorem pure_ne_error {a : α} {e : ε} : (pure a : Except ε α) ≠ .error e := by
  simp [pure, Except.pure]

theorem pure_eq_ok {a b : α} : (pure a : Except ε α) = .ok b ↔ a = b := by
  simp [pure, Except.pure]

theorem throw_ne_ok {e : ε} {a : α} : (throw e : Except ε α) ≠ .ok a := by
  simp [throw, throwThe, MonadExceptOf.throw]

/-- What a computation gives if it succeeds. -/
theorem eq_ok_of_toOption {x : Except ε α} {a : α} (h : x.toOption = some a) : x = .ok a := by
  cases x with
  | error e => cases h
  | ok b => exact congrArg Except.ok (Option.some.inj h)

/-- What every step keeps holds at the end of a fold that succeeds. -/
theorem foldlM_invariant {step : σ → α → Except ε σ} {holds : σ → Prop}
    (hstep : ∀ {s x s'}, holds s → step s x = .ok s' → holds s') :
    ∀ (xs : List α) {s s' : σ}, holds s → xs.foldlM step s = .ok s' → holds s' := by
  intro xs
  induction xs with
  | nil =>
      intro s s' hs h
      obtain rfl := pure_eq_ok.mp h
      exact hs
  | cons x xs ih =>
      intro s s' hs h
      rw [List.foldlM_cons, bind_eq_ok] at h
      obtain ⟨mid, hmid, hrest⟩ := h
      exact ih (hstep hs hmid) hrest

/-- What every step makes true of one more member holds of all of them at the end
of a fold that succeeds. -/
theorem foldlM_prefix {step : σ → α → Except ε σ} {motive : List α → σ → Prop}
    (hstep : ∀ {done s x s'}, motive done s → step s x = .ok s' → motive (done ++ [x]) s') :
    ∀ (xs : List α) {done : List α} {s s' : σ}, motive done s → xs.foldlM step s = .ok s' →
      motive (done ++ xs) s' := by
  intro xs
  induction xs with
  | nil =>
      intro done s s' hs h
      obtain rfl := pure_eq_ok.mp h
      rw [List.append_nil]
      exact hs
  | cons x xs ih =>
      intro done s s' hs h
      rw [List.foldlM_cons, bind_eq_ok] at h
      obtain ⟨mid, hmid, hrest⟩ := h
      rw [List.append_cons]
      exact ih (hstep hs hmid) hrest

/-- A list of computations succeeds exactly when each of them does. -/
theorem mapM_eq_ok_iff {f : α → Except ε β} {xs : List α} {ys : List β} :
    xs.mapM f = .ok ys ↔ List.Forall₂ (fun x y => f x = .ok y) xs ys := by
  induction xs generalizing ys with
  | nil => rw [List.mapM_nil, pure_eq_ok, List.forall₂_nil_left_iff, eq_comm]
  | cons x xs ih =>
      rw [List.mapM_cons, bind_eq_ok, List.forall₂_cons_left_iff]
      constructor
      · intro h
        obtain ⟨y, hy, h⟩ := h
        obtain ⟨rest, hrest, h⟩ := bind_eq_ok.mp h
        exact ⟨y, rest, hy, ih.mp hrest, (pure_eq_ok.mp h).symm⟩
      · intro h
        obtain ⟨y, rest, hy, hrest, rfl⟩ := h
        exact ⟨y, hy, bind_eq_ok.mpr ⟨rest, ih.mpr hrest, rfl⟩⟩

theorem exists_mapM_eq_ok_iff {f : α → Except ε β} {xs : List α} :
    (∃ ys, xs.mapM f = .ok ys) ↔ ∀ x ∈ xs, ∃ y, f x = .ok y := by
  induction xs with
  | nil => exact ⟨fun _ x hx => absurd hx List.not_mem_nil, fun _ => ⟨[], rfl⟩⟩
  | cons x xs ih =>
      simp only [List.mapM_cons, bind_eq_ok, pure_eq_ok, List.forall_mem_cons, ← ih]
      constructor
      · intro h
        obtain ⟨ys, y, hy, rest, hrest, -⟩ := h
        exact ⟨⟨y, hy⟩, rest, hrest⟩
      · intro h
        obtain ⟨⟨y, hy⟩, rest, hrest⟩ := h
        exact ⟨y :: rest, y, hy, rest, hrest, rfl⟩

/-- A list of computations fails where one of them does. -/
theorem exists_of_mapM_eq_error {f : α → Except ε β} {xs : List α} {e : ε}
    (h : xs.mapM f = .error e) : ∃ x ∈ xs, f x = .error e := by
  induction xs with
  | nil => exact absurd h pure_ne_error
  | cons x xs ih =>
      rw [List.mapM_cons, bind_eq_error] at h
      rcases h with hx | ⟨y, -, h⟩
      · exact ⟨x, List.mem_cons_self, hx⟩
      · rw [bind_eq_error] at h
        rcases h with hrest | ⟨ys, -, hpure⟩
        · obtain ⟨x', hx', hf⟩ := ih hrest
          exact ⟨x', List.mem_cons_of_mem _ hx', hf⟩
        · exact absurd hpure pure_ne_error

/-- A list of computations that all succeed gives all results. -/
theorem mapM_eq_pure {f : α → Except ε β} {g : α → β} {xs : List α}
    (h : ∀ x ∈ xs, f x = pure (g x)) : xs.mapM f = pure (xs.map g) := by
  refine mapM_eq_ok_iff.mpr ?_
  rw [List.forall₂_map_right_iff, List.forall₂_same]
  exact h

/-- A fold whose steps succeed, as long as they keep what they rely on, gives what
the steps give. -/
theorem foldlM_eq_pure {step : σ → α → Except ε σ} {next : σ → α → σ} {motive : σ → Prop} :
    ∀ {xs : List α} {s : σ}, motive s →
      (∀ s, ∀ x ∈ xs, motive s → step s x = pure (next s x) ∧ motive (next s x)) →
      xs.foldlM step s = pure (xs.foldl next s) := by
  intro xs
  induction xs with
  | nil => intro s _ _; rfl
  | cons x xs ih =>
      intro s hs hstep
      obtain ⟨hx, hnext⟩ := hstep s x List.mem_cons_self hs
      rw [List.foldlM_cons, hx, pure_bind, List.foldl_cons]
      exact ih hnext fun s y hy => hstep s y (List.mem_cons_of_mem _ hy)

/-- Each result of a list of computations that succeed comes from one of
them. -/
theorem of_mem_mapM {f : α → Except ε β} :
    ∀ (xs : List α) {ys : List β}, xs.mapM f = .ok ys → ∀ y ∈ ys, ∃ x ∈ xs, f x = .ok y := by
  intro xs
  induction xs with
  | nil =>
      intro ys h y hy
      rw [List.mapM_nil, pure_eq_ok] at h
      subst h
      cases hy
  | cons x xs ih =>
      intro ys h y hy
      rw [List.mapM_cons, bind_eq_ok] at h
      obtain ⟨z, hz, h⟩ := h
      rw [bind_eq_ok] at h
      obtain ⟨zs, hzs, h⟩ := h
      obtain rfl := pure_eq_ok.mp h
      rcases List.mem_cons.mp hy with rfl | hmem
      · exact ⟨x, List.mem_cons_self, hz⟩
      · obtain ⟨x', hx', hf⟩ := ih hzs y hmem
        exact ⟨x', List.mem_cons_of_mem _ hx', hf⟩

end Checks

end TransitRouting
