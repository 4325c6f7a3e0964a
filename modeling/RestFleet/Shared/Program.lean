import Mathlib.Logic.Basic
import Mathlib.Tactic.TypeStar

/-! # Interaction programs

A program performs operations one at a time and continues with the reply of each.
The operations are not interpreted here: a transition system says what they do. -/

namespace RestFleet

/-- A program over the operations `Op`, each answered by a value of its reply type. -/
inductive Program (Op : Type) (Reply : Op → Type) (α : Type) where
  | done : α → Program Op Reply α
  | step : (op : Op) → (Reply op → Program Op Reply α) → Program Op Reply α

namespace Program

variable {Op : Type} {Reply : Op → Type} {α β γ : Type}

def bind : Program Op Reply α → (α → Program Op Reply β) → Program Op Reply β
  | .done a, f => f a
  | .step op k, f => .step op fun r => bind (k r) f

instance : Monad (Program Op Reply) where
  pure := .done
  bind := bind

/-- The program that performs one operation and returns its reply. -/
def perform (op : Op) : Program Op Reply (Reply op) := .step op .done

@[simp] theorem done_bind (a : α) (f : α → Program Op Reply β) :
    (.done a >>= f : Program Op Reply β) = f a := rfl

@[simp] theorem step_bind (op : Op) (k : Reply op → Program Op Reply α)
    (f : α → Program Op Reply β) :
    (.step op k >>= f : Program Op Reply β) = .step op fun r => k r >>= f := rfl

theorem bind_done (p : Program Op Reply α) : p >>= .done = p := by
  induction p with
  | done a => rfl
  | step op k ih =>
      rw [step_bind]
      exact congrArg (Program.step op) (funext ih)

theorem bind_bind (p : Program Op Reply α) (f : α → Program Op Reply β)
    (g : β → Program Op Reply γ) : p >>= f >>= g = p >>= fun a => f a >>= g := by
  induction p with
  | done a => rfl
  | step op k ih =>
      simp only [step_bind]
      exact congrArg (Program.step op) (funext ih)

instance : LawfulMonad (Program Op Reply) :=
  LawfulMonad.mk' _ (fun p => bind_done p) (fun _ _ => rfl) (fun p f g => bind_bind p f g)

/-! ## Traces -/

/-- The operations of a program that ends with `b`, each with a reply that is `allowed`. -/
def Trace (allowed : (op : Op) → Reply op → Prop) :
    Program Op Reply α → List (Σ op, Reply op) → α → Prop
  | .done a, es, b => es = [] ∧ a = b
  | .step op k, es, b => ∃ r rest, allowed op r ∧ es = ⟨op, r⟩ :: rest ∧ Trace allowed (k r) rest b

variable {allowed : (op : Op) → Reply op → Prop} {es : List (Σ op, Reply op)}

theorem trace_perform {op : Op} {r : Reply op} :
    (perform op : Program Op Reply (Reply op)).Trace allowed es r ↔
      allowed op r ∧ es = [⟨op, r⟩] := by
  constructor
  · rintro ⟨_, _, hr, rfl, rfl, rfl⟩
    exact ⟨hr, rfl⟩
  · rintro ⟨hr, rfl⟩
    exact ⟨r, [], hr, rfl, rfl, rfl⟩

theorem trace_bind {p : Program Op Reply α} {f : α → Program Op Reply β} {b : β}
    (h : (p >>= f).Trace allowed es b) :
    ∃ a es₁ es₂, es = es₁ ++ es₂ ∧ p.Trace allowed es₁ a ∧ (f a).Trace allowed es₂ b := by
  induction p generalizing es with
  | done a => exact ⟨a, [], es, rfl, ⟨rfl, rfl⟩, h⟩
  | step op k ih =>
      obtain ⟨r, rest, hr, rfl, hrest⟩ := h
      obtain ⟨a, es₁, es₂, rfl, hfirst, hsecond⟩ := ih r hrest
      exact ⟨a, ⟨op, r⟩ :: es₁, es₂, rfl, ⟨r, es₁, hr, rfl, hfirst⟩, hsecond⟩

theorem Trace.bind {p : Program Op Reply α} {f : α → Program Op Reply β} {a : α} {b : β}
    {es' : List (Σ op, Reply op)} (hp : p.Trace allowed es a) (hf : (f a).Trace allowed es' b) :
    (p >>= f).Trace allowed (es ++ es') b := by
  induction p generalizing es with
  | done a' =>
      obtain ⟨rfl, rfl⟩ := hp
      exact hf
  | step op k ih =>
      obtain ⟨r, rest, hr, rfl, hrest⟩ := hp
      exact ⟨r, rest ++ es', hr, rfl, ih r hrest⟩

/-- The first operation of a program, and what follows it. -/
theorem trace_perform_bind {op : Op} {f : Reply op → Program Op Reply β} {b : β}
    (h : (perform op >>= f).Trace allowed es b) :
    ∃ r rest, allowed op r ∧ es = ⟨op, r⟩ :: rest ∧ (f r).Trace allowed rest b := h

end Program

end RestFleet
