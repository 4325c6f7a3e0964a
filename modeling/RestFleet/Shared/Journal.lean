import RestFleet.Shared.Action

/-! # Journals

Transactions refine a machine of atomic events when each commit is one event whose guard holds in the
committed database and which touches only held keys. -/

namespace RestFleet.Tx

structure Journal (M : Schema) where
  Event : Type
  initial : M.Db → Prop
  apply : Event → M.Db → M.Db
  guard : Event → M.Db → Prop
  touches : Event → M.Key → Prop
  author : Event → Option ℕ := fun _ => none

namespace Journal

variable {M : Schema} (J : Journal M)

/-- Databases related by guarded events that satisfy `allowed`. -/
inductive Extends (allowed : J.Event → Prop) (db : M.Db) : M.Db → Prop where
  | refl : Extends allowed db db
  | event {db' : M.Db} {e : J.Event} (h : Extends allowed db db') (ha : allowed e)
      (hg : J.guard e db') : Extends allowed db (J.apply e db')

def Reaches (db : M.Db) : Prop := ∃ start, J.initial start ∧ J.Extends (fun _ => True) start db

variable {J} {allowed : J.Event → Prop} {db db' db'' : M.Db} {P : M.Db → Prop}

theorem Extends.trans (h : J.Extends allowed db db') (h' : J.Extends allowed db' db'') :
    J.Extends allowed db db'' := by
  induction h' with
  | refl => exact h
  | event _ ha hg ih => exact ih.event ha hg

theorem Extends.keeps (h : J.Extends allowed db db')
    (hstep : ∀ e db, allowed e → J.guard e db → P db → P (J.apply e db)) (hP : P db) : P db' := by
  induction h with
  | refl => exact hP
  | event _ ha hg ih => exact hstep _ _ ha hg ih

theorem Reaches.event {e : J.Event} (h : J.Reaches db) (hg : J.guard e db) :
    J.Reaches (J.apply e db) := by
  obtain ⟨start, hs, he⟩ := h
  exact ⟨start, hs, he.event trivial hg⟩

theorem Reaches.invariant (h : J.Reaches db) (hinit : ∀ db, J.initial db → P db)
    (hstep : ∀ e db, J.guard e db → P db → P (J.apply e db)) : P db := by
  obtain ⟨start, hs, he⟩ := h
  exact he.keeps (fun e db _ => hstep e db) (hinit start hs)

variable (J)

/-- The discipline that makes commits events of the journal. -/
def discipline : Discipline M where
  good := J.Reaches
  frame := fun k => J.Extends fun e => ¬ J.touches e k
  own := fun t => J.Extends fun e => J.author e ≠ some t
  evolves := J.Extends fun _ => True
  frame_refl := fun _ _ => .refl
  frame_trans := fun _ _ _ _ => Extends.trans
  own_refl := fun _ _ => .refl
  own_trans := fun _ _ _ _ => Extends.trans
  evolves_refl := fun _ => .refl
  evolves_trans := fun _ _ _ => Extends.trans

variable {J} {t : ℕ} {keys : List M.Key}

/-- The committer of an event holds each key that it touches, or one in conflict with it. -/
theorem commits_sharing {e : J.Event} (h : J.Reaches db) (hg : J.guard e db)
    (hk : ∀ k, J.touches e k → k ∈ keys ∨ ∃ k' ∈ keys, M.conflicts k' k)
    (ht : ∀ u, J.author e = some u → u = t) : J.discipline.Commits t keys db (J.apply e db) := by
  refine ⟨h.event hg, Extends.refl.event trivial hg,
    fun u hu => Extends.refl.event (fun ha => hu (ht u ha)) hg, ?_⟩
  intro k hmem hfree
  refine Extends.refl.event (fun htouch => ?_) hg
  rcases hk k htouch with hheld | ⟨k', hheld, hconf⟩
  · exact hmem hheld
  · exact hfree k' hheld hconf

theorem commits {e : J.Event} (h : J.Reaches db) (hg : J.guard e db)
    (hk : ∀ k, J.touches e k → k ∈ keys) (ht : ∀ u, J.author e = some u → u = t) :
    J.discipline.Commits t keys db (J.apply e db) :=
  commits_sharing h hg (fun k hk' => Or.inl (hk k hk')) ht

/-- A fact that only events touching `k` can change lasts while `k` is held. -/
theorem lasts_of_key {k : M.Key} (hk : k ∈ keys)
    (h : ∀ e db, ¬ J.touches e k → J.guard e db → P db → P (J.apply e db)) :
    Lasts J.discipline t keys P :=
  fun _ _ hf _ _ => (hf k hk).keeps h

/-- A fact that only events of `t` can change lasts for `t`. -/
theorem lasts_of_author
    (h : ∀ e db, J.author e ≠ some t → J.guard e db → P db → P (J.apply e db)) :
    Lasts J.discipline t keys P :=
  fun _ _ _ ho _ => ho.keeps h

theorem lasts_of_event (h : ∀ e db, J.guard e db → P db → P (J.apply e db)) :
    Lasts J.discipline t keys P :=
  fun _ _ _ _ he => he.keeps fun e db _ => h e db

variable [DecidableEq M.Key] {arrivals : Program (Op M) (Reply M) Unit → Prop}

/-- Interleaved transactions refine the atomic machine. -/
theorem reaches_of_reachable
    (h : ∀ t p, arrivals p → (outline arrivals J.discipline).Triple t (fun _ => True) p
      fun _ _ => True)
    {start : M.Db} (hs : J.initial start) {c : Config (State M) ℕ (Op M) (Reply M)}
    (hc : (system arrivals).Reachable (State.initial start) c) : J.Reaches c.state.db := by
  have hi : (outline arrivals J.discipline).inv (State.initial start) :=
    ⟨⟨start, hs, .refl⟩, compatible_initial start⟩
  exact ((sound h).inv_of_reachable hi hc).1

end Journal

end RestFleet.Tx
