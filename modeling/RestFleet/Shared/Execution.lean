import Mathlib.Data.Nat.Notation
import RestFleet.Shared.Interleaving

/-! # Executing programs

An oracle picks one of the replies that a system allows, so that concrete runs can be
computed. -/

namespace RestFleet

variable {State Thread Op : Type} {Reply : Op → Type}

structure Oracle (sys : System State Thread Op Reply) where
  next : Thread → (op : Op) → State → Option (Reply op × State)
  allowed : ∀ t op s r s', next t op s = some (r, s') → sys.act t op s r s'

namespace Oracle

variable {sys : System State Thread Op Reply} {α : Type}

/-- Perform at most `n` operations of a program. -/
def advance (o : Oracle sys) (t : Thread) :
    ℕ → Program Op Reply α → State → Option (Program Op Reply α × State)
  | 0, p, s => some (p, s)
  | _ + 1, .done a, s => some (.done a, s)
  | n + 1, .step op k, s =>
    match o.next t op s with
    | none => none
    | some (r, s') => advance o t n (k r) s'

theorem advance_run [DecidableEq Thread] (o : Oracle sys) {t : Thread} {n : ℕ}
    {p p' : Program Op Reply Unit} {s s' : State}
    {threads : Thread → Option (Program Op Reply Unit)}
    (h : o.advance t n p s = some (p', s')) :
    sys.Run ⟨s, Function.update threads t (some p)⟩
      ⟨s', Function.update threads t (some p')⟩ := by
  induction n generalizing p s with
  | zero =>
      cases h
      exact Relation.ReflTransGen.refl
  | succ n ih =>
      cases p with
      | done a =>
          cases h
          exact Relation.ReflTransGen.refl
      | step op k =>
          rw [advance] at h
          cases hn : o.next t op s with
          | none =>
              rw [hn] at h
              cases h
          | some reply =>
              obtain ⟨r, s₁⟩ := reply
              rw [hn] at h
              have hstep : sys.Step ⟨s, Function.update threads t (some (.step op k))⟩
                  ⟨s₁, Function.update threads t (some (k r))⟩ := by
                have hact : sys.Step ⟨s, Function.update threads t (some (.step op k))⟩ _ :=
                  .act (Function.update_self t _ threads) (o.allowed t op s r s₁ hn)
                simpa using hact
              exact Relation.ReflTransGen.head hstep (ih h)

end Oracle

end RestFleet
