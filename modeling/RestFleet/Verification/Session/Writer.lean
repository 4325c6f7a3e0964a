import Mathlib.Data.List.Perm.Subperm
import RestFleet.Verification.Session.Outline

/-! # The holder of the write semaphore -/

namespace RestFleet.Session

open Outline

variable {cfg : Config} {sha256 : Bytes → Bytes} {t : ℕ} {s : State} {path : Text}

/-- A handler that the session cannot be closed under. -/
def Inside (t : ℕ) (s : State) : Prop := t ∈ s.handlers ∧ s.closed = false

theorem stable_inside : (outline cfg sha256).Stable t (Inside t) := by
  intro s s' hr h
  obtain ⟨ht, hc⟩ := hr.handler h.1
  exact ⟨ht, hc.trans h.2⟩

/-- The holder of the write semaphore, its pending mutation and what it knows. -/
structure Held (t : ℕ) (pending : Option ℕ) (F : List (Text × Bool) → List Event → Prop)
    (s : State) : Prop where
  inside : Inside t s
  writer : s.writer = some t
  settled : s.flags.retryUnsafe = false → AllSettled s.log pending
  fact : F s.locks s.log

/-- A fact about the map and the log that requests without mutations do not disturb. -/
def Lasting (F : List (Text × Bool) → List Event → Prop) : Prop :=
  ∀ locks log new, (∀ e ∈ new, ¬ e.Mutates) → F locks log → F locks (log ++ new)

theorem stable_held {pending : Option ℕ} {F : List (Text × Bool) → List Event → Prop}
    (hF : Lasting F) : (outline cfg sha256).Stable t (Held t pending F) := by
  intro s s' hr h
  obtain ⟨new, hlog, hnew⟩ := hr.log
  refine ⟨stable_inside s s' hr h.inside, hr.writer.mpr h.writer, ?_, ?_⟩
  · intro hf
    have hf' : s.flags.retryUnsafe = false := by
      by_contra hne
      rw [hr.flags (by simpa using hne)] at hf
      cases hf
    rw [hlog]
    exact (h.settled hf').append (hnew h.writer)
  · rw [hlog, hr.locks h.writer]
    exact hF s.locks s.log new (hnew h.writer) h.fact

theorem Held.mono {pending : Option ℕ} {F G : List (Text × Bool) → List Event → Prop}
    (h : Held t pending F s) (hG : F s.locks s.log → G s.locks s.log) : Held t pending G s :=
  ⟨h.inside, h.writer, h.settled, hG h.fact⟩

theorem lasting_true : Lasting fun _ _ => True := fun _ _ _ _ _ => trivial

theorem Lasting.and {F G : List (Text × Bool) → List Event → Prop} (hF : Lasting F)
    (hG : Lasting G) : Lasting fun locks log => F locks log ∧ G locks log :=
  fun locks log new hnew h => ⟨hF locks log new hnew h.1, hG locks log new hnew h.2⟩

theorem lasting_locks {F : List (Text × Bool) → Prop} : Lasting fun locks _ => F locks :=
  fun _ _ _ _ h => h

/-! ## Entering and leaving -/

theorem rLock_allows {s' : State} (hi : Inv cfg sha256 s) (ha : act t .rLock s () s') :
    (outline cfg sha256).Allows t s s' ∧ t ∈ s'.handlers ∧ s'.writer ≠ some t := by
  obtain ⟨hfresh, rfl⟩ := ha
  refine ⟨⟨⟨hi.log, hi.closed, ?_, hi.keys, hi.count, hi.limit, hi.posted, hi.owned,
    ⟨hi.retry.snapshot, hi.retry.settled, hi.retry.denied⟩⟩, ?_⟩, by simp, ?_⟩
  · exact fun u hu => List.mem_cons_of_mem t (hi.inside u hu)
  · exact fun u _ => ⟨⟨[], by simp⟩, id, fun h => ⟨List.mem_cons_of_mem t h, rfl⟩, Iff.rfl,
      fun _ => rfl⟩
  · exact fun hw => hfresh (hi.inside t hw)

theorem rUnlock_allows {s' : State} (hi : Inv cfg sha256 s)
    (hw : s.writer ≠ some t) (ha : act t .rUnlock s () s') :
    (outline cfg sha256).Allows t s s' := by
  obtain rfl := ha
  refine ⟨⟨hi.log, hi.closed, ?_, hi.keys, hi.count, hi.limit, hi.posted, hi.owned,
    ⟨hi.retry.snapshot, hi.retry.settled, hi.retry.denied⟩⟩, ?_⟩
  · intro u hu
    have hne : u ≠ t := fun h => hw (h ▸ hu)
    exact (List.mem_erase_of_ne hne).mpr (hi.inside u hu)
  · intro u hne
    exact ⟨⟨[], by simp⟩, id, fun h => ⟨(List.mem_erase_of_ne hne).mpr h, rfl⟩, Iff.rfl,
      fun _ => rfl⟩

/-- The semaphore is free only when every mutation is settled. -/
theorem acquireWrite_allows {s' : State} {r : Bool} (hi : Inv cfg sha256 s) (h : Inside t s)
    (ha : act t .acquireWrite s r s') :
    (outline cfg sha256).Allows t s s' ∧
      (r = true → Held t none (fun _ _ => True) s') ∧ (r = false → s' = s) := by
  rcases ha with ⟨rfl, hnone, rfl⟩ | ⟨rfl, rfl⟩
  · refine ⟨⟨⟨hi.log, hi.closed, ?_, hi.keys, hi.count, hi.limit, hi.posted, hi.owned,
      ⟨hi.retry.snapshot, by simp, hi.retry.denied⟩⟩, ?_⟩, ?_, by simp⟩
    · intro u hu
      cases hu
      exact h.1
    · intro u hne
      refine ⟨⟨[], by simp⟩, id, fun h => ⟨h, rfl⟩, ?_, fun _ => rfl⟩
      simp [hnone, hne.symm]
    · exact fun _ => ⟨h, rfl, hi.retry.settled hnone, trivial⟩
  · exact ⟨⟨hi, fun u _ => Rely.refl u s'⟩, by simp, fun _ => rfl⟩

theorem releaseWrite_allows {s' : State} {F : List (Text × Bool) → List Event → Prop}
    (hi : Inv cfg sha256 s) (h : Held t none F s) (ha : act t .releaseWrite s () s') :
    (outline cfg sha256).Allows t s s' ∧ t ∈ s'.handlers ∧ s'.writer ≠ some t := by
  obtain rfl := ha
  refine ⟨⟨⟨hi.log, hi.closed, by simp, hi.keys, hi.count, hi.limit, hi.posted, hi.owned,
    ⟨hi.retry.snapshot, fun _ => h.settled, hi.retry.denied⟩⟩, ?_⟩, h.inside.1, by simp⟩
  intro u hne
  refine ⟨⟨[], by simp⟩, id, fun h => ⟨h, rfl⟩, ?_, fun _ => rfl⟩
  simp [h.writer, hne.symm]

/-! ## Changing the map -/

theorem setLock_allows {s' : State} {confirmed : Bool} {pending : Option ℕ}
    {F G : List (Text × Bool) → List Event → Prop} (hi : Inv cfg sha256 s)
    (h : Held t pending F s)
    (hcount : path ∈ s.locks.map Prod.fst ∨ s.locks.length < maxLocks)
    (howned : confirmed = true → IsLock path ∧ Confirmed s.log path ∧ ¬ Deleted s.log path)
    (hG : G (assign s.locks path confirmed) s.log)
    (ha : act t (.setLock path confirmed) s () s') :
    (outline cfg sha256).Allows t s s' ∧ Held t pending G s' := by
  obtain rfl := ha
  refine ⟨⟨hi.assign hcount howned, ?_⟩, h.inside, h.writer, h.settled, hG⟩
  intro u hne
  refine ⟨⟨[], by simp⟩, id, fun h => ⟨h, rfl⟩, Iff.rfl, ?_⟩
  intro hu
  rw [h.writer] at hu
  cases hu
  exact absurd rfl hne

/-! ## Forwarding a mutation -/

/-- What the map has to say before a mutation is forwarded. -/
def MapOk (locks : List (Text × Bool)) (m : Method) (path : Text) : Prop :=
  (m = .post → IsLock path → path ∈ locks.map Prod.fst) ∧
    (m = .delete → locks.lookup path ≠ some true)

theorem AllSettled.sent {log : List Event} {id : ℕ} {m : Method} {body : Bytes}
    (h : AllSettled log none) : AllSettled (log ++ [.sent id m path body]) (some id) := by
  intro id' m' path' body' hmem hm hne
  rcases List.mem_append.mp hmem with hlog | hmem
  · exact (h id' m' path' body' hlog hm (by simp)).append
  · cases List.mem_singleton.mp hmem
    exact absurd rfl hne

theorem Inv.send {m : Method} {body : Bytes} (hi : Inv cfg sha256 s) (hw : s.writer = some t)
    (hclosed : s.closed = false) (hm : m = .post ∨ m = .delete)
    (hok : SendOk cfg sha256 s.log m path body) (hmap : MapOk s.locks m path)
    (hsnap : m = .post → "snapshots/".toList <+: path → s.flags.retryUnsafe = true) :
    Inv cfg sha256 { s with log := s.log ++ [.sent s.log.length m path body] } := by
  have hlog : Checked (EventOk cfg sha256) (s.log ++ [.sent s.log.length m path body]) :=
    hi.log.snoc ⟨rfl, hok⟩
  have hposted : ∀ p ∈ postedLocks (s.log ++ [.sent s.log.length m path body]),
      p ∈ s.locks.map Prod.fst := by
    intro p hp
    rw [postedLocks_snoc, List.mem_append, Option.mem_toList] at hp
    rcases hp with hp | hp
    · exact hi.posted hclosed p hp
    · obtain ⟨hlock, id, b, heq⟩ := Event.postedLock_eq_some hp
      cases heq
      exact hmap.1 rfl hlock
  refine ⟨hlog, hi.closed, hi.inside, hi.keys, hi.count, ?_, fun _ => hposted, ?_, ⟨?_, ?_, ?_⟩⟩
  · have hle := (List.Nodup.subperm (postedLocks_nodup hlog) hposted).length_le
    rw [List.length_map] at hle
    exact Nat.le_trans hle hi.count
  · intro p hlookup
    obtain ⟨hlock, hc, hd⟩ := hi.owned p hlookup
    refine ⟨hlock, hc.append, ?_⟩
    rintro ⟨id, b, hmem⟩
    rcases List.mem_append.mp hmem with hmem | hmem
    · exact hd ⟨id, b, hmem⟩
    · cases List.mem_singleton.mp hmem
      exact hmap.2 rfl hlookup
  · intro id p b hmem hp
    rcases List.mem_append.mp hmem with hmem | hmem
    · exact hi.retry.snapshot id p b hmem hp
    · cases List.mem_singleton.mp hmem
      exact hsnap rfl hp
  · intro hnone
    rw [show s.writer = none from hnone] at hw
    cases hw
  · intro event recorded hmem hden
    rcases List.mem_append.mp hmem with hmem | hmem
    · exact hi.retry.denied event recorded hmem hden
    · cases List.mem_singleton.mp hmem

theorem send_allows {s' : State} {m : Method} {body : Bytes} {range : Text} {id : ℕ}
    {F : List (Text × Bool) → List Event → Prop} (hi : Inv cfg sha256 s)
    (h : Held t none F s) (hm : m = .post ∨ m = .delete)
    (hok : SendOk cfg sha256 s.log m path body) (hmap : MapOk s.locks m path)
    (hsnap : m = .post → "snapshots/".toList <+: path → s.flags.retryUnsafe = true)
    (ha : act t (.send m path body range) s id s') :
    (outline cfg sha256).Allows t s s' ∧ Held t (some id)
      (fun locks log => locks = s.locks ∧ log = s.log ++ [.sent id m path body]) s' := by
  obtain ⟨rfl, rfl⟩ := ha
  refine ⟨⟨hi.send h.writer h.inside.2 hm hok hmap hsnap, ?_⟩, h.inside, h.writer,
    fun hf => (h.settled hf).sent, rfl, rfl⟩
  intro u hne
  refine ⟨⟨_, rfl, ?_⟩, id, fun h => ⟨h, rfl⟩, Iff.rfl, fun _ => rfl⟩
  intro hu
  rw [h.writer] at hu
  cases hu
  exact absurd rfl hne

end RestFleet.Session
