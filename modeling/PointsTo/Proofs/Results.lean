namespace PointsTo

variable {ε δ α β γ : Type}

theorem bind_eq_ok_iff {x : Except ε α} {f : α → Except ε β} {b : β} :
    x >>= f = .ok b ↔ ∃ a, x = .ok a ∧ f a = .ok b := by
  cases x <;> simp [bind, Except.bind]

theorem map_eq_ok_iff {x : Except ε α} {f : α → β} {b : β} : x.map f = .ok b ↔ ∃ a, x = .ok a ∧ f a = b := by
  cases x with
  | error => exact ⟨nofun, nofun⟩
  | ok a =>
    constructor
    · intro same
      exact ⟨a, rfl, Except.ok.inj same⟩
    · rintro ⟨_, same, rfl⟩
      cases same
      rfl

theorem mapError_eq_ok_iff {x : Except ε α} {f : ε → δ} {a : α} : x.mapError f = .ok a ↔ x = .ok a := by
  cases x with
  | error => exact ⟨nofun, nofun⟩
  | ok =>
    constructor
    all_goals
      intro same
      cases same
      rfl

theorem mapError_ok_bind (a : α) (f : ε → δ) (k : α → Except δ β) : (Except.ok a).mapError f >>= k = k a := rfl

/-- A result of which something can be checked is there. -/
theorem exists_of_any {x : Except ε α} {check : α → Bool} (checked : x.toOption.any check) :
    ∃ a, x = .ok a ∧ check a := by
  cases x with
  | error => cases checked
  | ok a => exact ⟨a, rfl, checked⟩

theorem mapM_total {f : α → Except ε β} {xs : List α} (each : ∀ x ∈ xs, ∃ y, f x = .ok y) :
    ∃ ys, xs.mapM f = .ok ys := by
  induction xs with
  | nil => exact ⟨[], rfl⟩
  | cons x xs ih =>
    obtain ⟨y, first⟩ := each x List.mem_cons_self
    obtain ⟨ys, rest⟩ := ih fun x' member => each x' (List.mem_cons_of_mem x member)
    refine ⟨y :: ys, ?_⟩
    rw [List.mapM_cons, first, rest]
    rfl

theorem mapM_eq_ok {f : α → Except ε β} {g : α → β} {xs : List α} (each : ∀ x ∈ xs, f x = .ok (g x)) :
    xs.mapM f = .ok (xs.map g) := by
  induction xs with
  | nil => rfl
  | cons x xs ih =>
    rw [List.mapM_cons, each x List.mem_cons_self, ih fun x' member => each x' (List.mem_cons_of_mem x member)]
    rfl

/-- A loop that acts on a part of its state as `step` does acts on that part as the loop of `step` does. -/
theorem foldlM_view {f : β → α → Except ε β} {view : β → γ} {step : γ → α → γ} {xs : List α} {b : β}
    (each : ∀ x ∈ xs, ∀ b, ∃ c, f b x = .ok c ∧ view c = step (view b) x) :
    ∃ c, xs.foldlM f b = .ok c ∧ view c = xs.foldl step (view b) := by
  induction xs generalizing b with
  | nil => exact ⟨b, rfl, rfl⟩
  | cons x xs ih =>
    obtain ⟨c, first, viewC⟩ := each x List.mem_cons_self b
    rw [List.foldlM_cons, first, List.foldl_cons, ← viewC]
    exact ih fun x' member => each x' (List.mem_cons_of_mem x member)

/-- What every step keeps, a loop keeps. -/
theorem foldlM_keeps {f : β → α → Except ε β} {P : β → Prop} {xs : List α} {b c : β}
    (step : ∀ x ∈ xs, ∀ b c, P b → f b x = .ok c → P c) (start : P b) (run : xs.foldlM f b = .ok c) : P c := by
  induction xs generalizing b with
  | nil =>
    cases run
    exact start
  | cons x xs ih =>
    rw [List.foldlM_cons] at run
    obtain ⟨next, first, rest⟩ := bind_eq_ok_iff.mp run
    exact ih (fun x' member => step x' (List.mem_cons_of_mem x member)) (step x List.mem_cons_self b next start first) rest

/-- A loop whose every step succeeds and keeps a property does so as well. -/
theorem foldlM_reaches {f : β → α → Except ε β} {P : β → Prop} {xs : List α} {b : β} (start : P b)
    (each : ∀ x ∈ xs, ∀ b, P b → ∃ c, f b x = .ok c ∧ P c) : ∃ c, xs.foldlM f b = .ok c ∧ P c := by
  induction xs generalizing b with
  | nil => exact ⟨b, rfl, start⟩
  | cons x xs ih =>
    obtain ⟨c, first, next⟩ := each x List.mem_cons_self b start
    rw [List.foldlM_cons, first]
    exact ih next fun x' member => each x' (List.mem_cons_of_mem x member)

end PointsTo
