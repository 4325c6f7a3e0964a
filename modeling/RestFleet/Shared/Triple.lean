import RestFleet.Shared.Interleaving

/-! # Pre- and postconditions of interleaved programs

An assertion of a thread is stable when the changes that the thread tolerates keep it.
The rules below prove programs safe from stable assertions, one operation at a time. -/

namespace RestFleet.Outline

variable {State Thread Op : Type} {Reply : Op → Type} {sys : System State Thread Op Reply}
  {o : Outline sys} {t : Thread} {α β : Type} {P : State → Prop}

/-- What the other threads do keeps the assertion. -/
def Stable (o : Outline sys) (t : Thread) (P : State → Prop) : Prop :=
  ∀ s s', o.rely t s s' → P s → P s'

theorem Stable.and {Q : State → Prop} (hp : o.Stable t P) (hq : o.Stable t Q) :
    o.Stable t fun s => P s ∧ Q s :=
  fun s s' hr h => ⟨hp s s' hr h.1, hq s s' hr h.2⟩

theorem Stable.pure {a : Prop} : o.Stable t fun _ => a := fun _ _ _ h => h

/-- From the assertion `P` the program is safe and ends in `Q`. -/
def Triple (o : Outline sys) (t : Thread) (P : State → Prop) (p : Program Op Reply α)
    (Q : α → State → Prop) : Prop :=
  ∀ s, P s → o.Safe t Q p s

theorem Triple.done {a : α} {Q : α → State → Prop} (hp : o.Stable t P)
    (hq : ∀ s, o.inv s → P s → Q a s) : o.Triple t P (.done a) Q :=
  fun s h s' hr hi => hq s' hi (hp s s' hr h)

theorem Triple.step {op : Op} {k : Reply op → Program Op Reply α} {R : Reply op → State → Prop}
    {Q : α → State → Prop} (hp : o.Stable t P)
    (hop : ∀ s r s', o.inv s → P s → sys.act t op s r s' → o.Allows t s s' ∧ R r s')
    (hk : ∀ r, o.Triple t (R r) (k r) Q) : o.Triple t P (.step op k) Q := by
  intro s h s' hr hi r s'' ha
  obtain ⟨hg, hR⟩ := hop s' r s'' hi (hp s s' hr h) ha
  exact ⟨hg, hk r s'' hR⟩

theorem Triple.bind {p : Program Op Reply α} {f : α → Program Op Reply β}
    {R : α → State → Prop} {Q : β → State → Prop} (hp : o.Triple t P p R)
    (hf : ∀ a, o.Triple t (R a) (f a) Q) : o.Triple t P (p >>= f) Q :=
  fun s h => Safe.bind ((hp s h).conseq fun a s' _ hR => hf a s' hR)

theorem Triple.conseq {P' : State → Prop} {p : Program Op Reply α} {Q Q' : α → State → Prop}
    (h : o.Triple t P p Q) (hp : ∀ s, P' s → P s) (hq : ∀ a s, o.inv s → Q a s → Q' a s) :
    o.Triple t P' p Q' :=
  fun s hs => (h s (hp s hs)).conseq hq

theorem Triple.of_pre {a : Prop} {p : Program Op Reply α} {Q : α → State → Prop}
    (h : a → o.Triple t P p Q) : o.Triple t (fun s => a ∧ P s) p Q :=
  fun s hs => h hs.1 s hs.2

/-- An operation that keeps the invariant and is tolerated by every thread, its own included. -/
def QuietOp (o : Outline sys) (t : Thread) (op : Op) : Prop :=
  ∀ s r s', o.inv s → sys.act t op s r s' → o.inv s' ∧ ∀ u, o.rely u s s'

/-- A quiet operation keeps every stable assertion. -/
theorem Triple.quiet {op : Op} {k : Reply op → Program Op Reply α} {Q : α → State → Prop}
    (hp : o.Stable t P) (hop : o.QuietOp t op) (hk : ∀ r, o.Triple t P (k r) Q) :
    o.Triple t P (.step op k) Q := by
  refine Triple.step hp ?_ hk
  intro s r s' hi h ha
  obtain ⟨hi', hr⟩ := hop s r s' hi ha
  exact ⟨⟨hi', fun u _ => hr u⟩, hp s s' (hr t) h⟩

/-- As `Triple.quiet`, recording a fact about the reply. -/
theorem Triple.observe {op : Op} {k : Reply op → Program Op Reply α}
    {F : Reply op → State → Prop} {Q : α → State → Prop} (hp : o.Stable t P)
    (hop : o.QuietOp t op)
    (hF : ∀ s r s', o.inv s → P s → sys.act t op s r s' → F r s')
    (hk : ∀ r, o.Triple t (fun s => P s ∧ F r s) (k r) Q) : o.Triple t P (.step op k) Q := by
  refine Triple.step hp ?_ hk
  intro s r s' hi h ha
  obtain ⟨hi', hr⟩ := hop s r s' hi ha
  exact ⟨⟨hi', fun u _ => hr u⟩, hp s s' (hr t) h, hF s r s' hi h ha⟩

/-- A program made of quiet operations. -/
def Quiet (o : Outline sys) (t : Thread) : Program Op Reply α → Prop
  | .done _ => True
  | .step op k => o.QuietOp t op ∧ ∀ r, Quiet o t (k r)

theorem Quiet.bind {p : Program Op Reply α} {f : α → Program Op Reply β} (hp : o.Quiet t p)
    (hf : ∀ a, o.Quiet t (f a)) : o.Quiet t (p >>= f) := by
  induction p with
  | done a => exact hf a
  | step op k ih => exact ⟨hp.1, fun r => ih r (hp.2 r)⟩

theorem Quiet.triple {p : Program Op Reply α} (h : o.Quiet t p) (hp : o.Stable t P) :
    o.Triple t P p fun _ => P := by
  induction p with
  | done a => exact Triple.done hp fun _ _ h => h
  | step op k ih => exact Triple.quiet hp h.1 fun r => ih r (h.2 r)

end RestFleet.Outline
