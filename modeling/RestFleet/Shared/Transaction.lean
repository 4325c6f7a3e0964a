import Mathlib.Data.Nat.Notation
import RestFleet.Shared.Triple

/-! # Transactions at READ COMMITTED

Transactions interleave one statement at a time. A statement sees the committed database with
the writes of its own transaction; row locks and the keys of unique indexes are held until the
transaction ends. -/

namespace RestFleet.Tx

/-- A database with its lockable keys, and the values that statements get from elsewhere. -/
structure Schema where
  Db : Type
  Key : Type
  Choice : Type
  Answer : Choice → Type
  present : Key → Db → Bool
  /-- Keys that different transactions do not hold at once, as a row and a share of it. -/
  conflicts : Key → Key → Prop := fun _ _ => False

/-- The statements: `lock` is a `select for update`, `claim` inserts a unique key, `self` is the
connection that runs the transaction. -/
inductive Op (M : Schema) where
  | start
  | view
  | write (f : M.Db → M.Db)
  | lock (k : M.Key)
  | claim (k : M.Key)
  | choose (q : M.Choice)
  | self
  | commit
  | rollback

abbrev Reply (M : Schema) : Op M → Type
  | .view => M.Db
  | .lock _ => Bool
  | .choose q => M.Answer q
  | .self => ℕ
  | _ => Unit

structure State (M : Schema) where
  db : M.Db
  pend : ℕ → M.Db → M.Db
  held : M.Key → Option ℕ

variable {M : Schema}

def State.initial (db : M.Db) : State M := ⟨db, fun _ => id, fun _ => none⟩

def release (t : ℕ) (held : M.Key → Option ℕ) (k : M.Key) : Option ℕ :=
  if held k = some t then none else held k

/-- The end of the transaction of `t`, with the database it leaves behind. -/
def State.finish (s : State M) (t : ℕ) (db : M.Db) : State M :=
  ⟨db, Function.update s.pend t id, release t s.held⟩

/-- Nobody else holds the key. -/
def Free (s : State M) (t : ℕ) (k : M.Key) : Prop := s.held k = none ∨ s.held k = some t

/-- A key can be taken when nobody else holds it or a key in conflict with it. -/
def Takes (s : State M) (t : ℕ) (k : M.Key) : Prop :=
  ∀ k', k' = k ∨ M.conflicts k k' ∨ M.conflicts k' k → Free s t k'

def act [DecidableEq M.Key] (t : ℕ) : (op : Op M) → State M → Reply M op → State M → Prop
  | .start, s, _, s' => s' = { s with pend := Function.update s.pend t id }
  | .view, s, r, s' => r = s.pend t s.db ∧ s' = s
  | .write f, s, _, s' => s' = { s with pend := Function.update s.pend t (f ∘ s.pend t) }
  | .lock k, s, r, s' =>
    (r = true ∧ M.present k (s.pend t s.db) = true ∧ Takes s t k ∧
        s' = { s with held := Function.update s.held k (some t) }) ∨
      (r = false ∧ M.present k (s.pend t s.db) = false ∧ s' = s)
  | .claim k, s, _, s' =>
    Takes s t k ∧ s' = { s with held := Function.update s.held k (some t) }
  | .choose _, s, _, s' => s' = s
  | .self, s, r, s' => r = t ∧ s' = s
  | .commit, s, _, s' => s' = s.finish t (s.pend t s.db)
  | .rollback, s, _, s' => s' = s.finish t s.db

/-- Any of the given programs may start at any time, and any transaction may be lost. -/
def system [DecidableEq M.Key] (arrivals : Program (Op M) (Reply M) Unit → Prop) :
    System (State M) ℕ (Op M) (Reply M) where
  act := act
  spawn := fun _ p s s' => s' = s ∧ arrivals p
  kill := fun t s s' => s' = s.finish t s.db
  env := fun _ _ => False

/-- What commits keep: an invariant, what the holder of a key can count on, what is left to
each connection, and how the database may evolve. -/
structure Discipline (M : Schema) where
  good : M.Db → Prop
  frame : M.Key → M.Db → M.Db → Prop
  own : ℕ → M.Db → M.Db → Prop
  evolves : M.Db → M.Db → Prop
  frame_refl : ∀ k db, frame k db db
  frame_trans : ∀ k db db' db'', frame k db db' → frame k db' db'' → frame k db db''
  own_refl : ∀ t db, own t db db
  own_trans : ∀ t db db' db'', own t db db' → own t db' db'' → own t db db''
  evolves_refl : ∀ db, evolves db db
  evolves_trans : ∀ db db' db'', evolves db db' → evolves db' db'' → evolves db db''

/-- A commit of `t` that respects the discipline when its transaction holds `keys`. -/
structure Discipline.Commits (d : Discipline M) (t : ℕ) (keys : List M.Key) (db db' : M.Db) :
    Prop where
  good : d.good db'
  evolves : d.evolves db db'
  own : ∀ u, u ≠ t → d.own u db db'
  frame : ∀ k, k ∉ keys → (∀ k' ∈ keys, ¬ M.conflicts k' k) → d.frame k db db'

theorem Discipline.commits_refl (d : Discipline M) {t : ℕ} {keys : List M.Key} {db : M.Db}
    (h : d.good db) : d.Commits t keys db db :=
  ⟨h, d.evolves_refl db, fun u _ => d.own_refl u db, fun k _ _ => d.frame_refl k db⟩

/-- Conflicting keys have one holder. -/
def State.Compatible (s : State M) : Prop :=
  ∀ k k' t u, M.conflicts k k' → s.held k = some t → s.held k' = some u → t = u

/-- What transaction `t` tolerates. -/
structure Rely (d : Discipline M) (t : ℕ) (s s' : State M) : Prop where
  pend : s'.pend t = s.pend t
  held : ∀ k, s'.held k = some t ↔ s.held k = some t
  frame : ∀ k, s.held k = some t → d.frame k s.db s'.db
  own : d.own t s.db s'.db
  evolves : d.evolves s.db s'.db

theorem Rely.refl (d : Discipline M) (t : ℕ) (s : State M) : Rely d t s s :=
  ⟨rfl, fun _ => Iff.rfl, fun k _ => d.frame_refl k s.db, d.own_refl t s.db,
    d.evolves_refl s.db⟩

theorem Rely.trans (d : Discipline M) (t : ℕ) (s s' s'' : State M) (h : Rely d t s s')
    (h' : Rely d t s' s'') : Rely d t s s'' := by
  refine ⟨h'.pend.trans h.pend, fun k => (h'.held k).trans (h.held k), ?_,
    d.own_trans t _ _ _ h.own h'.own, d.evolves_trans _ _ _ h.evolves h'.evolves⟩
  intro k hk
  exact d.frame_trans k _ _ _ (h.frame k hk) (h'.frame k ((h.held k).mpr hk))

/-- The assertion of a transaction: keys it holds, its pending writes and a fact about the
committed database. -/
structure In (t : ℕ) (keys : List M.Key) (f : M.Db → M.Db) (P : M.Db → Prop) (s : State M) :
    Prop where
  held : ∀ k ∈ keys, s.held k = some t
  pend : s.pend t = f
  fact : P s.db

/-- A fact that `t` can count on while it holds `keys`. -/
def Lasts (d : Discipline M) (t : ℕ) (keys : List M.Key) (P : M.Db → Prop) : Prop :=
  ∀ db db', (∀ k ∈ keys, d.frame k db db') → d.own t db db' → d.evolves db db' → P db → P db'

variable {d : Discipline M} {t : ℕ} {keys : List M.Key} {f : M.Db → M.Db} {P : M.Db → Prop}
  {α : Type} {Q : α → State M → Prop}

theorem lasts_const {a : Prop} : Lasts d t keys fun _ => a := fun _ _ _ _ _ h => h

theorem Lasts.and {R : M.Db → Prop} (hP : Lasts d t keys P) (hR : Lasts d t keys R) :
    Lasts d t keys fun db => P db ∧ R db :=
  fun db db' hk ho he h => ⟨hP db db' hk ho he h.1, hR db db' hk ho he h.2⟩

theorem Lasts.mono {keys' : List M.Key} (hP : Lasts d t keys P) (hk : ∀ k ∈ keys, k ∈ keys') :
    Lasts d t keys' P :=
  fun db db' hf ho he h => hP db db' (fun k hmem => hf k (hk k hmem)) ho he h

theorem Lasts.cons {k : M.Key} (hP : Lasts d t keys P) : Lasts d t (k :: keys) P :=
  hP.mono fun _ h => List.mem_cons_of_mem k h

theorem In.mono {s : State M} {R : M.Db → Prop} {keys' : List M.Key} (h : In t keys f P s)
    (hk : ∀ k ∈ keys', k ∈ keys) (hR : P s.db → R s.db) : In t keys' f R s :=
  ⟨fun k hmem => h.held k (hk k hmem), h.pend, hR h.fact⟩

theorem In.drop {s : State M} {k : M.Key} (h : In t (k :: keys) f P s) : In t keys f P s :=
  h.mono (fun _ hk => List.mem_cons_of_mem k hk) fun h => h

theorem release_eq {held : M.Key → Option ℕ} {u : ℕ} (hu : u ≠ t) (k : M.Key) :
    release t held k = some u ↔ held k = some u := by
  unfold release
  by_cases hk : held k = some t
  · simp [hk, hu.symm]
  · simp [hk]

theorem Takes.free {s : State M} {k : M.Key} (h : Takes s t k) : Free s t k := h k (Or.inl rfl)

theorem Free.eq {s : State M} {k : M.Key} {u : ℕ} (h : Free s t k) (hu : s.held k = some u) :
    u = t := by
  rcases h with h | h
  · rw [h] at hu
    cases hu
  · rw [h] at hu
    exact (Option.some.inj hu).symm

theorem compatible_initial (db : M.Db) : (State.initial db).Compatible :=
  fun _ _ _ _ _ h _ => nomatch h

theorem State.Compatible.finish {s : State M} (h : s.Compatible) (t : ℕ) (db : M.Db) :
    (s.finish t db).Compatible := by
  have hold : ∀ k u, release t s.held k = some u → s.held k = some u := by
    intro k u hk
    unfold release at hk
    split at hk
    · cases hk
    · exact hk
  exact fun k k' u v hc hu hv => h k k' u v hc (hold k u hu) (hold k' v hv)

variable [DecidableEq M.Key] {arrivals : Program (Op M) (Reply M) Unit → Prop}

def outline (arrivals : Program (Op M) (Reply M) Unit → Prop) (d : Discipline M) :
    Outline (system arrivals) where
  inv := fun s => d.good s.db ∧ s.Compatible
  rely := Rely d
  refl := Rely.refl d
  trans := Rely.trans d

theorem State.Compatible.take {s : State M} {k : M.Key} (h : s.Compatible) (hk : Takes s t k) :
    ({ s with held := Function.update s.held k (some t) } : State M).Compatible := by
  intro a b u v hc hu hv
  simp only at hu hv
  by_cases ha : a = k
  · subst ha
    rw [Function.update_self] at hu
    by_cases hb : b = a
    · subst hb
      rw [Function.update_self] at hv
      exact Option.some.inj (hu.symm.trans hv)
    · rw [Function.update_of_ne hb] at hv
      rw [(hk b (Or.inr (Or.inl hc))).eq hv]
      exact (Option.some.inj hu).symm
  · rw [Function.update_of_ne ha] at hu
    by_cases hb : b = k
    · subst hb
      rw [Function.update_self] at hv
      rw [(hk a (Or.inr (Or.inr hc))).eq hu]
      exact Option.some.inj hv
    · rw [Function.update_of_ne hb] at hv
      exact h a b u v hc hu hv

theorem stable_in (hP : Lasts d t keys P) : (outline arrivals d).Stable t (In t keys f P) := by
  intro s s' hr h
  refine ⟨fun k hk => (hr.held k).mpr (h.held k hk), hr.pend.trans h.pend, ?_⟩
  exact hP s.db s'.db (fun k hk => hr.frame k (h.held k hk)) hr.own hr.evolves h.fact

/-! ## One statement at a time -/

/-- Changing only the own writes and locks of `t` disturbs nobody. -/
theorem allows_of_own {s s' : State M} (hg : d.good s.db) (hc : s'.Compatible)
    (hdb : s'.db = s.db) (hpend : ∀ u, u ≠ t → s'.pend u = s.pend u)
    (hheld : ∀ u, u ≠ t → ∀ k, s'.held k = some u ↔ s.held k = some u) :
    (outline arrivals d).Allows t s s' := by
  refine ⟨⟨?_, hc⟩, fun u hu => ⟨hpend u hu, hheld u hu, ?_, ?_, ?_⟩⟩
  · rw [hdb]
    exact hg
  · intro k _
    rw [hdb]
    exact d.frame_refl k s.db
  · rw [hdb]
    exact d.own_refl u s.db
  · rw [hdb]
    exact d.evolves_refl s.db

theorem start_triple {k : Unit → Program (Op M) (Reply M) α} {A : State M → Prop}
    (hA : (outline arrivals d).Stable t A) (hP : ∀ s, A s → P s.db)
    (hk : (outline arrivals d).Triple t (In t [] id P) (k ()) Q) :
    (outline arrivals d).Triple t A (.step .start k) Q := by
  refine Outline.Triple.step hA (R := fun _ => In t [] id P) ?_ fun _ => hk
  rintro s r _ hi h rfl
  refine ⟨allows_of_own hi.1 hi.2 rfl ?_ fun u _ k => Iff.rfl, by simp, by simp, hP s h⟩
  intro u hu
  simp [hu]

/-- A statement sees the committed database through the own writes; what lasts of that is `R`. -/
theorem view_triple {k : M.Db → Program (Op M) (Reply M) α} {R : M.Db → M.Db → Prop}
    (hP : Lasts d t keys P) (hR : ∀ db, d.good db → P db → R (f db) db)
    (hk : ∀ v, (outline arrivals d).Triple t (In t keys f (R v)) (k v) Q) :
    (outline arrivals d).Triple t (In t keys f P) (.step .view k) Q := by
  refine Outline.Triple.step (stable_in hP) (R := fun v => In t keys f (R v)) ?_ hk
  rintro s v s' hi h ⟨rfl, rfl⟩
  refine ⟨allows_of_own hi.1 hi.2 rfl (fun _ _ => rfl) fun _ _ _ => Iff.rfl, h.held, h.pend, ?_⟩
  rw [h.pend]
  exact hR s'.db hi.1 h.fact

theorem write_triple {k : Unit → Program (Op M) (Reply M) α} {g : M.Db → M.Db}
    (hP : Lasts d t keys P)
    (hk : (outline arrivals d).Triple t (In t keys (g ∘ f) P) (k ()) Q) :
    (outline arrivals d).Triple t (In t keys f P) (.step (.write g) k) Q := by
  refine Outline.Triple.step (stable_in hP) (R := fun _ => In t keys (g ∘ f) P) ?_ fun _ => hk
  rintro s r _ hi h rfl
  refine ⟨allows_of_own hi.1 hi.2 rfl ?_ fun _ _ _ => Iff.rfl, h.held, by simp [h.pend], h.fact⟩
  intro u hu
  simp [hu]

theorem choose_triple {q : M.Choice} {k : M.Answer q → Program (Op M) (Reply M) α}
    (hP : Lasts d t keys P)
    (hk : ∀ r, (outline arrivals d).Triple t (In t keys f P) (k r) Q) :
    (outline arrivals d).Triple t (In t keys f P) (.step (.choose q) k) Q := by
  refine Outline.Triple.step (stable_in hP) (R := fun _ => In t keys f P) ?_ hk
  rintro s r s' hi h rfl
  exact ⟨allows_of_own hi.1 hi.2 rfl (fun _ _ => rfl) fun _ _ _ => Iff.rfl, h⟩

theorem self_triple {k : ℕ → Program (Op M) (Reply M) α} (hP : Lasts d t keys P)
    (hk : (outline arrivals d).Triple t (In t keys f P) (k t) Q) :
    (outline arrivals d).Triple t (In t keys f P) (.step .self k) Q := by
  refine Outline.Triple.step (stable_in hP) (R := fun r s => r = t ∧ In t keys f P s) ?_ ?_
  · rintro s r s' hi h ⟨rfl, rfl⟩
    exact ⟨allows_of_own hi.1 hi.2 rfl (fun _ _ => rfl) fun _ _ _ => Iff.rfl, rfl, h⟩
  · intro r
    refine Outline.Triple.of_pre fun hr => ?_
    rw [hr]
    exact hk

/-- Taking a free key changes no other holder. -/
theorem held_update {s : State M} {k₀ : M.Key} (hfree : Free s t k₀) (u : ℕ) (hu : u ≠ t)
    (k : M.Key) : Function.update s.held k₀ (some t) k = some u ↔ s.held k = some u := by
  by_cases hk : k = k₀
  · subst hk
    rcases hfree with h | h <;> simp [h, hu.symm]
  · simp [hk]

theorem In.take {s : State M} {k₀ : M.Key} (h : In t keys f P s) :
    In t (k₀ :: keys) f P { s with held := Function.update s.held k₀ (some t) } := by
  refine ⟨?_, h.pend, h.fact⟩
  intro k hk
  by_cases heq : k = k₀
  · simp [heq]
  · rcases List.mem_cons.mp hk with hk | hk
    · exact absurd hk heq
    · simpa [heq] using h.held k hk

theorem claim_triple {k₀ : M.Key} {k : Unit → Program (Op M) (Reply M) α} (hP : Lasts d t keys P)
    (hk : (outline arrivals d).Triple t (In t (k₀ :: keys) f P) (k ()) Q) :
    (outline arrivals d).Triple t (In t keys f P) (.step (.claim k₀) k) Q := by
  refine Outline.Triple.step (stable_in hP) (R := fun _ => In t (k₀ :: keys) f P) ?_ fun _ => hk
  rintro s r _ hi h ⟨hfree, rfl⟩
  exact ⟨allows_of_own hi.1 (hi.2.take hfree) rfl (fun _ _ => rfl) (held_update hfree.free), h.take⟩

/-- A lock also tells whether there is such a row. -/
theorem lock_triple {k₀ : M.Key} {k : Bool → Program (Op M) (Reply M) α} {T F : M.Db → Prop}
    (hP : Lasts d t keys P) (hT : ∀ db, d.good db → P db → M.present k₀ (f db) = true → T db)
    (hF : ∀ db, d.good db → P db → M.present k₀ (f db) = false → F db)
    (htrue : (outline arrivals d).Triple t (In t (k₀ :: keys) f fun db => T db ∧ P db) (k true) Q)
    (hfalse : (outline arrivals d).Triple t (In t keys f fun db => F db ∧ P db) (k false) Q) :
    (outline arrivals d).Triple t (In t keys f P) (.step (.lock k₀) k) Q := by
  refine Outline.Triple.step (stable_in hP) (R := fun r s =>
    (r = true → In t (k₀ :: keys) f (fun db => T db ∧ P db) s) ∧
      (r = false → In t keys f (fun db => F db ∧ P db) s)) ?_ ?_
  · rintro s r s' hi h (⟨rfl, hp, hfree, rfl⟩ | ⟨rfl, hp, rfl⟩)
    · rw [h.pend] at hp
      have hs : In t keys f (fun db => T db ∧ P db) s :=
        h.mono (fun _ hk => hk) fun hf => ⟨hT s.db hi.1 hf hp, hf⟩
      exact ⟨allows_of_own hi.1 (hi.2.take hfree) rfl (fun _ _ => rfl) (held_update hfree.free),
        fun _ => hs.take, by simp⟩
    · rw [h.pend] at hp
      exact ⟨allows_of_own hi.1 hi.2 rfl (fun _ _ => rfl) fun _ _ _ => Iff.rfl, by simp,
        fun _ => h.mono (fun _ hk => hk) fun hf => ⟨hF _ hi.1 hf hp, hf⟩⟩
  · intro r
    cases r with
    | true => exact htrue.conseq (fun _ h => h.1 rfl) fun _ _ _ h => h
    | false => exact hfalse.conseq (fun _ h => h.2 rfl) fun _ _ _ h => h

theorem finish_allows {s : State M} {db : M.Db} (hs : s.Compatible)
    (hc : d.Commits t keys s.db db) (hkeys : ∀ k ∈ keys, s.held k = some t) :
    (outline arrivals d).Allows t s (s.finish t db) := by
  refine ⟨⟨hc.good, hs.finish t db⟩, fun u hu =>
    ⟨by simp [State.finish, hu], release_eq hu, ?_, hc.own u hu, hc.evolves⟩⟩
  intro k hk
  refine hc.frame k ?_ ?_
  · intro hmem
    rw [hkeys k hmem] at hk
    exact hu (Option.some.inj hk).symm
  · intro k' hmem hconf
    exact hu (hs k' k t u hconf (hkeys k' hmem) hk).symm

theorem commit_triple {k : Unit → Program (Op M) (Reply M) α} {R : M.Db → Prop}
    (hP : Lasts d t keys P) (hc : ∀ db, d.good db → P db → d.Commits t keys db (f db))
    (hR : ∀ db, d.good db → P db → R (f db))
    (hk : (outline arrivals d).Triple t (In t [] id R) (k ()) Q) :
    (outline arrivals d).Triple t (In t keys f P) (.step .commit k) Q := by
  refine Outline.Triple.step (stable_in hP) (R := fun _ => In t [] id R) ?_ fun _ => hk
  rintro s r _ hi h rfl
  rw [h.pend]
  refine ⟨finish_allows hi.2 (hc s.db hi.1 h.fact) h.held, by simp, by simp [State.finish], ?_⟩
  exact hR s.db hi.1 h.fact

theorem rollback_triple {k : Unit → Program (Op M) (Reply M) α} (hP : Lasts d t keys P)
    (hk : (outline arrivals d).Triple t (In t [] id fun _ => True) (k ()) Q) :
    (outline arrivals d).Triple t (In t keys f P) (.step .rollback k) Q := by
  refine Outline.Triple.step (stable_in hP) (R := fun _ => In t [] id fun _ => True) ?_ fun _ => hk
  rintro s r _ hi h rfl
  exact ⟨finish_allows hi.2 (d.commits_refl hi.1) h.held, by simp, by simp [State.finish], trivial⟩

/-- A fact that no commit ends. -/
def Persists (d : Discipline M) (P : M.Db → Prop) : Prop :=
  ∀ db db', d.evolves db db' → P db → P db'

omit [DecidableEq M.Key] in
theorem Persists.lasts (h : Persists d P) : Lasts d t keys P := fun db db' _ _ he => h db db' he

omit [DecidableEq M.Key] in
theorem Persists.and {R : M.Db → Prop} (hP : Persists d P) (hR : Persists d R) :
    Persists d fun db => P db ∧ R db :=
  fun db db' he h => ⟨hP db db' he h.1, hR db db' he h.2⟩

/-- A persistent fact holds beside every triple, whatever the program itself commits. -/
theorem Persists.triple {A : State M → Prop} {p : Program (Op M) (Reply M) α} (hP : Persists d P)
    (h : (outline arrivals d).Triple t A p Q) :
    (outline arrivals d).Triple t (fun s => A s ∧ P s.db) p fun a s => Q a s ∧ P s.db := by
  rintro s ⟨hA, hs⟩
  replace h := h s hA
  clear hA
  induction p generalizing s with
  | done a => exact fun s' hr hi => ⟨h s' hr hi, hP _ _ hr.evolves hs⟩
  | step op k ih =>
      intro s' hr hi r s'' ha
      obtain ⟨hall, hk⟩ := h s' hr hi r s'' ha
      have hs' : P s'.db := hP _ _ hr.evolves hs
      have hev := (hall.rely (t + 1) (Nat.succ_ne_self t)).evolves
      exact ⟨hall, ih r s'' (hP _ _ hev hs') hk⟩

/-- A discipline that every arriving program respects holds of every run. -/
theorem sound (h : ∀ t p, arrivals p → (outline arrivals d).Triple t (fun _ => True) p
    fun _ _ => True) : (outline arrivals d).Sound where
  spawn := by
    rintro t p s _ hi ⟨rfl, hp⟩
    exact ⟨allows_of_own hi.1 hi.2 rfl (fun _ _ => rfl) fun _ _ _ => Iff.rfl, h t p hp _ trivial⟩
  kill := by
    rintro t s _ hi rfl
    have hc : d.Commits t [] s.db s.db := d.commits_refl hi.1
    exact finish_allows hi.2 hc (by simp)
  env := fun _ _ _ h => h.elim

/-- In every run the database stays good and evolves. -/
theorem run_evolves (hs : (outline arrivals d).Sound)
    {c c' : Config (State M) ℕ (Op M) (Reply M)} (h : (outline arrivals d).Holds c)
    (hrun : (system arrivals).Run c c') : d.evolves c.state.db c'.state.db := by
  induction hrun with
  | refl => exact d.evolves_refl _
  | @tail b c' hb hstep ih =>
      refine d.evolves_trans _ _ _ ih ?_
      rcases (h.run hs hb).allows hs hstep with ⟨t, ht⟩ | hall
      · exact (ht.rely (t + 1) (Nat.succ_ne_self t)).evolves
      · exact (hall 0).evolves

end RestFleet.Tx
