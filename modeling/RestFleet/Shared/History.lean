import Mathlib.Data.List.Induction

/-! # Histories

A history grows at its end. It is checked when every entry was admissible with respect to
the entries before it, which is what an append-only log can promise. -/

namespace RestFleet

variable {ε : Type}

/-- Every entry of the history satisfies `ok` with respect to what precedes it. -/
def Checked (ok : List ε → ε → Prop) (history : List ε) : Prop :=
  ∀ before e after, history = before ++ e :: after → ok before e

namespace Checked

variable {ok : List ε → ε → Prop} {history : List ε} {e : ε}

theorem nil : Checked ok [] := by
  intro before e after h
  simp at h

theorem snoc (h : Checked ok history) (he : ok history e) : Checked ok (history ++ [e]) := by
  intro before e' after heq
  rcases List.eq_nil_or_concat after with rfl | ⟨after, last, rfl⟩
  · obtain ⟨rfl, hlast⟩ := List.append_inj' heq rfl
    cases hlast
    exact he
  · rw [List.concat_eq_append, ← List.cons_append, ← List.append_assoc] at heq
    obtain ⟨rfl, -⟩ := List.append_inj' heq rfl
    exact h before e' after rfl

theorem of_append {rest : List ε} (h : Checked ok (history ++ rest)) : Checked ok history := by
  intro before e after heq
  exact h before e (after ++ rest) (by simp [heq])

theorem last (h : Checked ok (history ++ [e])) : ok history e := h history e [] rfl

theorem iff_get :
    Checked ok history ↔ ∀ k : Fin history.length, ok (history.take k) (history.get k) := by
  constructor
  · intro h k
    refine h _ _ (history.drop (k + 1)) ?_
    rw [List.get_eq_getElem, ← List.drop_eq_getElem_cons, List.take_append_drop]
  · intro h before e after heq
    subst heq
    have hk := h ⟨before.length, by simp⟩
    simpa using hk

instance [∀ before e, Decidable (ok before e)] : Decidable (Checked ok history) :=
  decidable_of_iff _ iff_get.symm

/-- Induction along a checked history, from its start. -/
@[elab_as_elim]
theorem induction {motive : (history : List ε) → Checked ok history → Prop}
    (nil : motive [] Checked.nil)
    (snoc : ∀ before e (hb : Checked ok before) (he : ok before e), motive before hb →
      motive (before ++ [e]) (hb.snoc he))
    (h : Checked ok history) : motive history h := by
  induction history using List.reverseRecOn with
  | nil => exact nil
  | append_singleton before e ih => exact snoc before e h.of_append h.last (ih h.of_append)

end Checked

end RestFleet
