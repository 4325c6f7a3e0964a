import Mathlib.Logic.Function.Basic
import Mathlib.Logic.Relation
import RestFleet.Shared.Program

/-! # Interleaved programs and rely/guarantee outlines

A system runs any number of programs over one shared state, one operation at a time and in any order.
An outline assigns every thread the changes that it tolerates from the others. -/

namespace RestFleet

open Relation

/-- What operations, thread creation, thread loss and the environment do to the state. -/
structure System (State Thread Op : Type) (Reply : Op → Type) where
  act : Thread → (op : Op) → State → Reply op → State → Prop
  spawn : Thread → Program Op Reply Unit → State → State → Prop
  kill : Thread → State → State → Prop
  env : State → State → Prop

structure Config (State Thread Op : Type) (Reply : Op → Type) where
  state : State
  threads : Thread → Option (Program Op Reply Unit)

namespace System

variable {State Thread Op : Type} {Reply : Op → Type} [DecidableEq Thread]

/-- One step of the whole system. A thread identifier is used at most once between losses. -/
inductive Step (sys : System State Thread Op Reply) :
    Config State Thread Op Reply → Config State Thread Op Reply → Prop where
  | act {s s' threads t op k} {r : Reply op} (ht : threads t = some (.step op k))
      (ha : sys.act t op s r s') :
      Step sys ⟨s, threads⟩ ⟨s', Function.update threads t (some (k r))⟩
  | spawn {s s' threads t p} (ht : threads t = none) (hs : sys.spawn t p s s') :
      Step sys ⟨s, threads⟩ ⟨s', Function.update threads t (some p)⟩
  | kill {s s' threads t p} (ht : threads t = some p) (hk : sys.kill t s s') :
      Step sys ⟨s, threads⟩ ⟨s', Function.update threads t none⟩
  | env {s s' threads} (he : sys.env s s') : Step sys ⟨s, threads⟩ ⟨s', threads⟩

/-- Every finite run, with any interleaving. -/
def Run (sys : System State Thread Op Reply) :
    Config State Thread Op Reply → Config State Thread Op Reply → Prop :=
  ReflTransGen sys.Step

/-- The configurations of the runs that start in state `s` with no thread. -/
def Reachable (sys : System State Thread Op Reply) (s : State)
    (c : Config State Thread Op Reply) : Prop :=
  sys.Run ⟨s, fun _ => none⟩ c

theorem Reachable.step {sys : System State Thread Op Reply} {s : State}
    {c d : Config State Thread Op Reply} (h : sys.Reachable s c) (hs : sys.Step c d) :
    sys.Reachable s d :=
  ReflTransGen.tail h hs

end System

/-- An invariant of the state and, for each thread, the changes it tolerates. -/
structure Outline {State Thread Op : Type} {Reply : Op → Type}
    (sys : System State Thread Op Reply) where
  inv : State → Prop
  rely : Thread → State → State → Prop
  refl : ∀ t s, rely t s s
  trans : ∀ t s s' s'', rely t s s' → rely t s' s'' → rely t s s''

namespace Outline

variable {State Thread Op : Type} {Reply : Op → Type} {sys : System State Thread Op Reply}
  {α β : Type}

/-- A state change of thread `t` that keeps the invariant and disturbs no other thread. -/
structure Allows (o : Outline sys) (t : Thread) (s s' : State) : Prop where
  inv : o.inv s'
  rely : ∀ u, u ≠ t → o.rely u s s'

/-- From `s`, every operation of the program is allowed, whatever the other threads do in
between, and the result satisfies `post` when the program ends. -/
def Safe (o : Outline sys) (t : Thread) (post : α → State → Prop) :
    Program Op Reply α → State → Prop
  | .done a, s => ∀ s', o.rely t s s' → o.inv s' → post a s'
  | .step op k, s => ∀ s', o.rely t s s' → o.inv s' → ∀ r s'', sys.act t op s' r s'' →
      o.Allows t s' s'' ∧ Safe o t post (k r) s''

/-- The other threads may run before a safe program goes on. -/
theorem Safe.weaken {o : Outline sys} {t : Thread} {post : α → State → Prop}
    {p : Program Op Reply α} {s s' : State} (h : o.Safe t post p s)
    (hr : o.rely t s s') : o.Safe t post p s' := by
  cases p with
  | done a => exact fun s'' hr' => h s'' (o.trans t s s' s'' hr hr')
  | step op k => exact fun s'' hr' => h s'' (o.trans t s s' s'' hr hr')

theorem Safe.conseq {o : Outline sys} {t : Thread} {post post' : α → State → Prop}
    {p : Program Op Reply α} {s : State} (h : o.Safe t post p s)
    (hp : ∀ a s', o.inv s' → post a s' → post' a s') : o.Safe t post' p s := by
  induction p generalizing s with
  | done a => exact fun s' hr hi => hp a s' hi (h s' hr hi)
  | step op k ih =>
      intro s' hr hi r s'' ha
      obtain ⟨hg, hk⟩ := h s' hr hi r s'' ha
      exact ⟨hg, ih r hk⟩

/-- Safety may be shown in whatever state the other threads leave behind. -/
theorem Safe.of_rely {o : Outline sys} {t : Thread} {post : α → State → Prop}
    {p : Program Op Reply α} {s : State}
    (h : ∀ s', o.rely t s s' → o.inv s' → o.Safe t post p s') : o.Safe t post p s := by
  cases p with
  | done a => exact fun s' hr hi => h s' hr hi s' (o.refl t s') hi
  | step op k => exact fun s' hr hi => h s' hr hi s' (o.refl t s') hi

/-- Sequential composition: the second program is safe from where the first one ends. -/
theorem Safe.bind {o : Outline sys} {t : Thread} {post : β → State → Prop}
    {p : Program Op Reply α} {f : α → Program Op Reply β} {s : State}
    (h : o.Safe t (fun a s' => o.Safe t post (f a) s') p s) : o.Safe t post (p >>= f) s := by
  induction p generalizing s with
  | done a => exact Safe.of_rely h
  | step op k ih =>
      intro s' hr hi r s'' ha
      obtain ⟨hg, hk⟩ := h s' hr hi r s'' ha
      exact ⟨hg, ih r hk⟩

/-- The obligations that make an outline hold of every run. -/
structure Sound (o : Outline sys) : Prop where
  spawn : ∀ t p s s', o.inv s → sys.spawn t p s s' →
    o.Allows t s s' ∧ o.Safe t (fun _ _ => True) p s'
  kill : ∀ t s s', o.inv s → sys.kill t s s' → o.Allows t s s'
  env : ∀ s s', o.inv s → sys.env s s' → o.inv s' ∧ ∀ t, o.rely t s s'

/-- The invariant holds and every running program is safe. -/
structure Holds (o : Outline sys) (c : Config State Thread Op Reply) : Prop where
  inv : o.inv c.state
  safe : ∀ t p, c.threads t = some p → o.Safe t (fun _ _ => True) p c.state

/-- Replacing the program of `t` keeps the outline when its own change is allowed. -/
theorem Holds.update [DecidableEq Thread] {o : Outline sys} {s s' : State}
    {threads : Thread → Option (Program Op Reply Unit)} (h : o.Holds ⟨s, threads⟩)
    {t : Thread} {next : Option (Program Op Reply Unit)} (ha : o.Allows t s s')
    (hn : ∀ p, next = some p → o.Safe t (fun _ _ => True) p s') :
    o.Holds ⟨s', Function.update threads t next⟩ := by
  refine ⟨ha.inv, ?_⟩
  intro u p hp
  change Function.update threads t next u = some p at hp
  by_cases hu : u = t
  · subst hu
    rw [Function.update_self] at hp
    exact hn p hp
  · rw [Function.update_of_ne hu] at hp
    exact (h.safe u p hp).weaken (ha.rely u hu)

theorem Holds.step [DecidableEq Thread] {o : Outline sys} (hs : o.Sound)
    {c d : Config State Thread Op Reply} (h : o.Holds c) (hd : sys.Step c d) : o.Holds d := by
  cases hd with
  | @act s s' threads t op k r ht ha =>
      obtain ⟨hg, hk⟩ := h.safe t _ ht s (o.refl t s) h.inv r s' ha
      refine h.update hg ?_
      intro p hp
      cases hp
      exact hk
  | @spawn s s' threads t p ht hp =>
      obtain ⟨hg, hk⟩ := hs.spawn t p s s' h.inv hp
      refine h.update hg ?_
      intro q hq
      cases hq
      exact hk
  | @kill s s' threads t p ht hk =>
      refine h.update (hs.kill t s s' h.inv hk) ?_
      intro q hq
      cases hq
  | @env s s' threads he =>
      obtain ⟨hi, hr⟩ := hs.env s s' h.inv he
      exact ⟨hi, fun t p hp => (h.safe t p hp).weaken (hr t)⟩

/-- Every step is one that all threads but one tolerate. -/
theorem Holds.allows [DecidableEq Thread] {o : Outline sys} (hs : o.Sound)
    {c d : Config State Thread Op Reply} (h : o.Holds c) (hd : sys.Step c d) :
    (∃ t, o.Allows t c.state d.state) ∨ ∀ t, o.rely t c.state d.state := by
  cases hd with
  | @act s s' threads t op k r ht ha =>
      exact Or.inl ⟨t, (h.safe t _ ht s (o.refl t s) h.inv r s' ha).1⟩
  | @spawn s s' threads t p ht hp => exact Or.inl ⟨t, (hs.spawn t p s s' h.inv hp).1⟩
  | @kill s s' threads t p ht hk => exact Or.inl ⟨t, hs.kill t s s' h.inv hk⟩
  | @env s s' threads he => exact Or.inr (hs.env s s' h.inv he).2

theorem Holds.run [DecidableEq Thread] {o : Outline sys} (hs : o.Sound)
    {c d : Config State Thread Op Reply} (h : o.Holds c) (hd : sys.Run c d) : o.Holds d := by
  induction hd with
  | refl => exact h
  | tail _ hstep ih => exact ih.step hs hstep

/-- A sound outline whose invariant holds initially describes every reachable state. -/
theorem Sound.reachable [DecidableEq Thread] {o : Outline sys} (hs : o.Sound) {s : State}
    (hi : o.inv s) {c : Config State Thread Op Reply} (hc : sys.Reachable s c) : o.Holds c := by
  refine Holds.run hs ⟨hi, ?_⟩ hc
  intro t p hp
  cases hp

theorem Sound.inv_of_reachable [DecidableEq Thread] {o : Outline sys} (hs : o.Sound)
    {s : State} (hi : o.inv s) {c : Config State Thread Op Reply}
    (hc : sys.Reachable s c) : o.inv c.state :=
  (hs.reachable hi hc).inv

end Outline

end RestFleet
