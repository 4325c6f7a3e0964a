import Mathlib.Tactic.Common

/-! # Chains of checks

When a chain of checks succeeds, every check of it did. -/

namespace RestFleet

variable {ε α β : Type}

/-- A check that fails when `c` holds, and what comes after it. -/
theorem guard_ok {c : Prop} {_ : Decidable c} {e : ε} {k : PUnit → Except ε β} {b : β} :
    (if c then (Except.error e : Except ε PUnit) >>= k else k ⟨⟩) = .ok b ↔
      ¬c ∧ k ⟨⟩ = .ok b := by
  by_cases h : c
  · simp [h, bind, Except.bind]
  · simp [h]

theorem last_guard_ok {c : Prop} {_ : Decidable c} {e : ε} :
    (if c then (Except.error e : Except ε PUnit) else pure ⟨⟩) = .ok () ↔ ¬c := by
  by_cases h : c
  · simp [h]
  · simp [h, pure, Except.pure]

theorem map_ok {x : Except ε α} {f : α → β} {b : β} :
    x.map f = .ok b ↔ ∃ a, x = .ok a ∧ f a = b := by
  cases x <;> simp [Except.map]

theorem bind_ok {x : Except ε α} {k : α → Except ε β} {b : β} :
    (x >>= k) = .ok b ↔ ∃ a, x = .ok a ∧ k a = .ok b := by
  cases x with
  | error e => simp [bind, Except.bind]
  | ok a => simp [bind, Except.bind]

/-- A check without a result, and what comes after it. -/
theorem check_ok {x : Except ε Unit} {k : Unit → Except ε β} {b : β} :
    (x >>= k) = .ok b ↔ x = .ok () ∧ k () = .ok b := by
  rw [bind_ok]
  exact ⟨fun ⟨_, hx, hk⟩ => ⟨hx, hk⟩, fun ⟨hx, hk⟩ => ⟨(), hx, hk⟩⟩

theorem forM_ok {f : α → Except ε Unit} {xs : List α} :
    xs.forM f = .ok () ↔ ∀ x ∈ xs, f x = .ok () := by
  induction xs with
  | nil => simp [pure, Except.pure]
  | cons x xs ih =>
      refine Iff.trans check_ok ?_
      rw [ih, List.forall_mem_cons]

end RestFleet
