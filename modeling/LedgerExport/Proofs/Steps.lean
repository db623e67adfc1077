import LedgerExport.Text.Basic

/-! # Steps that may fail

What is known of the parts when steps one after the other come to a result or to a fault. Readers,
checks and file systems are made of such steps, which are taken apart here once for all of them.
-/
namespace LedgerExport
variable {ε ε' α β : Type} {step : Except ε α}

@[simp] theorem pure_eq_ok_iff {a b : α} : (pure a : Except ε α) = .ok b ↔ a = b := by
  simp [pure, Except.pure]

@[simp] theorem throw_ne_ok {fault : ε} {a : α} : (throw fault : Except ε α) ≠ .ok a := by
  simp [throw, throwThe, MonadExceptOf.throw]

theorem bind_eq_ok_iff {next : α → Except ε β} {b : β} :
    step >>= next = .ok b ↔ ∃ a, step = .ok a ∧ next a = .ok b := by
  cases step <;> simp [bind, Except.bind]

/-- Steps fail at the first one that does. -/
theorem bind_eq_error_iff {next : α → Except ε β} {fault : ε} :
    step >>= next = .error fault ↔
      step = .error fault ∨ ∃ a, step = .ok a ∧ next a = .error fault := by
  cases step <;> simp [bind, Except.bind]

theorem map_eq_ok_iff {f : α → β} {b : β} :
    step.map f = .ok b ↔ ∃ a, step = .ok a ∧ f a = b := by
  cases step <;> simp [Except.map]

theorem mapError_eq_ok_iff {f : ε → ε'} {a : α} : step.mapError f = .ok a ↔ step = .ok a := by
  cases step with
  | error fault => exact iff_of_false nofun nofun
  | ok b => exact ⟨fun h => congrArg _ (Except.ok.inj h), fun h => congrArg _ (Except.ok.inj h)⟩

theorem eq_ok_of_toOption {a : α} (h : step.toOption = some a) : step = .ok a := by
  cases step with
  | error fault => cases h
  | ok b => exact congrArg Except.ok (Option.some.inj h)

/-- A result does not depend on what else the step gives. -/
theorem map_fst_congr {γ : Type} {step other : Except ε (α × β)}
    (h : step.map Prod.fst = other.map Prod.fst) (f : α → γ) :
    step.map (fun p => f p.1) = other.map fun p => f p.1 := by
  have hmap (s : Except ε (α × β)) : s.map (fun p => f p.1) = (s.map Prod.fst).map f := by
    cases s <;> rfl
  rw [hmap, hmap, h]

end LedgerExport
