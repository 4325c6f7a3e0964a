import RestFleet.Shared.Transaction

/-! # Transaction bodies that can fail

An error ends in the deferred rollback, which every discipline allows, so the rules ask nothing of
failing actions. -/

namespace RestFleet.Tx

variable {M : Schema} {ε : Type}

abbrev Action (M : Schema) (ε : Type) := ExceptT ε (Program (Op M) (Reply M))

def statement (op : Op M) : Action M ε (Reply M op) := ExceptT.lift (Program.perform op)

/-- What a query sees. -/
def view : Action M ε M.Db := statement .view

def write (f : M.Db → M.Db) : Action M ε Unit := statement (.write f)

/-- `select ... for update` on one row; false when there is no such row. -/
def lock (k : M.Key) : Action M ε Bool := statement (.lock k)

/-- The unique index entry of an inserted row. -/
def claim (k : M.Key) : Action M ε Unit := statement (.claim k)

def choose (q : M.Choice) : Action M ε (M.Answer q) := statement (.choose q)

/-- The connection that runs the action. -/
def self : Action M ε ℕ := statement .self

def commit : Action M ε Unit := statement .commit

/-- `Begin` with the deferred `Rollback`. -/
def transaction {α : Type} (body : Action M ε α) : Program (Op M) (Reply M) (Except ε α) :=
  .step .start fun _ => do
    let result ← body.run
    .step .rollback fun _ => .done result

variable [DecidableEq M.Key] {arrivals : Program (Op M) (Reply M) Unit → Prop}
  {d : Discipline M} {t : ℕ} {keys : List M.Key} {f : M.Db → M.Db} {P : M.Db → Prop}
  {α β : Type} {Q : α → State M → Prop}

/-- From `A` the action is safe, and it ends in `Q` when it does not fail. -/
def Body (arrivals : Program (Op M) (Reply M) Unit → Prop) (d : Discipline M) (t : ℕ)
    (A : State M → Prop) (p : Action M ε α) (Q : α → State M → Prop) : Prop :=
  (outline arrivals d).Triple t A p.run fun result s => ∀ a, result = .ok a → Q a s

theorem Body.conseq {A A' : State M → Prop} {p : Action M ε α} {Q' : α → State M → Prop}
    (h : Body arrivals d t A p Q) (hA : ∀ s, A' s → A s)
    (hQ : ∀ a s, d.good s.db → Q a s → Q' a s) : Body arrivals d t A' p Q' :=
  Outline.Triple.conseq h hA fun _ s hi hr a ha => hQ a s hi.1 (hr a ha)

theorem Body.bind {A : State M → Prop} {p : Action M ε α} {k : α → Action M ε β}
    {Q' : β → State M → Prop} (hp : Body arrivals d t A p Q)
    (hk : ∀ a, Body arrivals d t (Q a) (k a) Q') : Body arrivals d t A (p >>= k) Q' := by
  refine Outline.Triple.bind hp fun result => ?_
  cases result with
  | error e => exact Outline.Triple.done (fun _ _ _ _ a ha => nomatch ha) fun _ _ _ a ha => nomatch ha
  | ok a => exact (hk a).conseq (fun _ h => h a rfl) fun _ _ _ h => h

theorem Body.pure {A : State M → Prop} {a : α} (hA : (outline arrivals d).Stable t A)
    (h : ∀ s, d.good s.db → A s → Q a s) :
    Body arrivals d t A (Pure.pure a : Action M ε α) Q := by
  refine Outline.Triple.done hA fun s hi hs b hb => ?_
  cases hb
  exact h s hi.1 hs

theorem Body.throw {A : State M → Prop} {e : ε} :
    Body arrivals d t A (throw e : Action M ε α) Q := by
  intro s _ s' _ _ a ha
  cases ha

theorem Body.of_pre {a : Prop} {A : State M → Prop} {p : Action M ε α}
    (h : a → Body arrivals d t A p Q) : Body arrivals d t (fun s => a ∧ A s) p Q :=
  Outline.Triple.of_pre h

theorem Body.of_exists {ι : Type} {A : ι → State M → Prop} {p : Action M ε α}
    (h : ∀ i, Body arrivals d t (A i) p Q) : Body arrivals d t (fun s => ∃ i, A i s) p Q := by
  rintro s ⟨i, hs⟩
  exact h i s hs

theorem Body.of_fact {a : Prop} {p : Action M ε α}
    (h : a → Body arrivals d t (In t keys f P) p Q) :
    Body arrivals d t (In t keys f fun db => a ∧ P db) p Q :=
  fun s hs => h hs.fact.1 s (hs.mono (fun _ hk => hk) And.right)

theorem Body.forget {p : Action M ε α}
    (h : Body arrivals d t (In t [] f fun _ => True) p Q) :
    Body arrivals d t (In t keys f P) p Q :=
  fun s hs => h s (hs.mono (by simp) fun _ => trivial)

/-! ## Statements -/

theorem Body.view {k : M.Db → Action M ε α} {R : M.Db → M.Db → Prop} (hP : Lasts d t keys P)
    (hR : ∀ db, d.good db → P db → R (f db) db)
    (hk : ∀ v, Body arrivals d t (In t keys f (R v)) (k v) Q) :
    Body arrivals d t (In t keys f P) (Tx.view >>= k) Q :=
  view_triple hP hR hk

theorem Body.see {k : M.Db → Action M ε α} {S : M.Db → Prop} (hP : Lasts d t keys P)
    (hS : ∀ db, d.good db → P db → S (f db))
    (hk : ∀ v, S v → Body arrivals d t (In t keys f P) (k v) Q) :
    Body arrivals d t (In t keys f P) (Tx.view >>= k) Q :=
  Body.view (R := fun v db => S v ∧ P db) hP (fun db hg h => ⟨hS db hg h, h⟩)
    fun v => Body.of_fact (hk v)

/-- A query that decides how to go on; what is known of its outcomes is `T` and `F`. -/
theorem Body.branch {c : M.Db → Prop} [DecidablePred c] {p q : M.Db → Action M ε α}
    {T F : M.Db → Prop} (hP : Lasts d t keys P)
    (hT : ∀ db, d.good db → P db → c (f db) → T db)
    (hF : ∀ db, d.good db → P db → ¬ c (f db) → F db)
    (hp : ∀ v, c v → Body arrivals d t (In t keys f fun db => T db ∧ P db) (p v) Q)
    (hq : ∀ v, ¬ c v → Body arrivals d t (In t keys f fun db => F db ∧ P db) (q v) Q) :
    Body arrivals d t (In t keys f P) (Tx.view >>= fun v => if c v then p v else q v) Q := by
  refine Body.view (R := fun v db => (c v → T db) ∧ (¬ c v → F db) ∧ P db) hP
    (fun db hg h => ⟨hT db hg h, hF db hg h, h⟩) fun v => ?_
  split
  · rename_i hc
    exact (hp v hc).conseq (fun s h => h.mono (fun _ hk => hk) fun h => ⟨h.1 hc, h.2.2⟩)
      fun _ _ _ h => h
  · rename_i hc
    exact (hq v hc).conseq (fun s h => h.mono (fun _ hk => hk) fun h => ⟨h.2.1 hc, h.2.2⟩)
      fun _ _ _ h => h

/-- A query that decides how to go on; what lasts of the second outcome is `F`. -/
theorem Body.check {c : M.Db → Prop} [DecidablePred c] {p q : M.Db → Action M ε α}
    {F : M.Db → Prop} (hP : Lasts d t keys P) (hF : ∀ db, d.good db → P db → ¬ c (f db) → F db)
    (hp : ∀ v, c v → Body arrivals d t (In t keys f P) (p v) Q)
    (hq : ∀ v, ¬ c v → Body arrivals d t (In t keys f fun db => F db ∧ P db) (q v) Q) :
    Body arrivals d t (In t keys f P) (Tx.view >>= fun v => if c v then p v else q v) Q :=
  Body.branch (T := fun _ => True) hP (fun _ _ _ _ => trivial) hF
    (fun v hc => (hp v hc).conseq (fun _ h => h.mono (fun _ hk => hk) And.right) fun _ _ _ h => h)
    hq

theorem Body.write {k : Unit → Action M ε α} {g : M.Db → M.Db} (hP : Lasts d t keys P)
    (hk : Body arrivals d t (In t keys (g ∘ f) P) (k ()) Q) :
    Body arrivals d t (In t keys f P) (Tx.write g >>= k) Q :=
  write_triple hP hk

theorem Body.choose {q : M.Choice} {k : M.Answer q → Action M ε α} (hP : Lasts d t keys P)
    (hk : ∀ r, Body arrivals d t (In t keys f P) (k r) Q) :
    Body arrivals d t (In t keys f P) (Tx.choose q >>= k) Q :=
  choose_triple hP hk

theorem Body.self {k : ℕ → Action M ε α} (hP : Lasts d t keys P)
    (hk : Body arrivals d t (In t keys f P) (k t) Q) :
    Body arrivals d t (In t keys f P) (Tx.self >>= k) Q :=
  self_triple hP hk

theorem Body.claim {k₀ : M.Key} {k : Unit → Action M ε α} (hP : Lasts d t keys P)
    (hk : Body arrivals d t (In t (k₀ :: keys) f P) (k ()) Q) :
    Body arrivals d t (In t keys f P) (Tx.claim k₀ >>= k) Q :=
  claim_triple hP hk

/-- A lock with what its two outcomes tell. -/
theorem Body.find {k₀ : M.Key} {k : Bool → Action M ε α} {T F : M.Db → Prop}
    (hP : Lasts d t keys P) (hT : ∀ db, d.good db → P db → M.present k₀ (f db) = true → T db)
    (hF : ∀ db, d.good db → P db → M.present k₀ (f db) = false → F db)
    (htrue : Body arrivals d t (In t (k₀ :: keys) f fun db => T db ∧ P db) (k true) Q)
    (hfalse : Body arrivals d t (In t keys f fun db => F db ∧ P db) (k false) Q) :
    Body arrivals d t (In t keys f P) (Tx.lock k₀ >>= k) Q :=
  lock_triple hP hT hF htrue hfalse

theorem Body.lock {k₀ : M.Key} {k : Bool → Action M ε α} (hP : Lasts d t keys P)
    (htrue : Body arrivals d t (In t (k₀ :: keys) f P) (k true) Q)
    (hfalse : Body arrivals d t (In t keys f P) (k false) Q) :
    Body arrivals d t (In t keys f P) (Tx.lock k₀ >>= k) Q :=
  Body.find (T := fun _ => True) (F := fun _ => True) hP (fun _ _ _ _ => trivial)
    (fun _ _ _ _ => trivial)
    (htrue.conseq (fun _ h => h.mono (fun _ hk => hk) And.right) fun _ _ _ h => h)
    (hfalse.conseq (fun _ h => h.mono (fun _ hk => hk) And.right) fun _ _ _ h => h)

/-- After a commit nothing is held and nothing is pending. -/
theorem Body.commit {k : Unit → Action M ε α} (R : M.Db → Prop) (hP : Lasts d t keys P)
    (hc : ∀ db, d.good db → P db → d.Commits t keys db (f db) ∧ R (f db))
    (hk : Body arrivals d t (In t [] id R) (k ()) Q) :
    Body arrivals d t (In t keys f P) (Tx.commit >>= k) Q :=
  commit_triple hP (fun db hg h => (hc db hg h).1) (fun db hg h => (hc db hg h).2) hk

/-- Committing without a write is always allowed. -/
theorem Body.commit_unchanged {k : Unit → Action M ε α} (hP : Lasts d t keys P)
    (hk : Body arrivals d t (In t [] id fun _ => True) (k ()) Q) :
    Body arrivals d t (In t keys id P) (Tx.commit >>= k) Q :=
  Body.commit (fun _ => True) hP (fun _ hg _ => ⟨d.commits_refl hg, trivial⟩) hk

theorem Body.return {a : α} {R : M.Db → Prop} (hP : Lasts d t keys P) (h : ∀ db, d.good db → P db → R db) :
    Body arrivals d t (In t keys f P) (Pure.pure a : Action M ε α) fun _ s => R s.db :=
  Body.pure (stable_in hP) fun s hg hs => h s.db hg hs.fact

theorem Body.last {A : State M → Prop} {p : Action M ε α}
    (h : Body arrivals d t A (p >>= Pure.pure) Q) : Body arrivals d t A p Q := by
  rwa [bind_pure] at h

/-- What a transaction needs, and what it leaves behind when it does not fail. -/
theorem Body.transaction {body : Action M ε α} {R : α → M.Db → Prop} (hP : Lasts d t [] P)
    (hR : ∀ a, Lasts d t [] (R a)) (h : Body arrivals d t (In t [] id P) body fun a s => R a s.db) :
    (outline arrivals d).Triple t (fun s => P s.db) (transaction body) fun result s =>
      ∀ a, result = .ok a → R a s.db := by
  have hA : (outline arrivals d).Stable t fun s => P s.db :=
    fun s s' hr hs => hP s.db s'.db (by simp) hr.own hr.evolves hs
  have hS : ∀ result : Except ε α, (outline arrivals d).Stable t fun s =>
      ∀ a, result = .ok a → R a s.db := by
    intro result s s' hr hs a ha
    exact hR a s.db s'.db (by simp) hr.own hr.evolves (hs a ha)
  refine start_triple hA (fun _ hs => hs) (Outline.Triple.bind h fun result => ?_)
  refine Outline.Triple.step (hS result) (R := fun _ s => ∀ a, result = .ok a → R a s.db) ?_
    fun _ => Outline.Triple.done (hS result) fun _ _ h => h
  rintro s r _ hi hs rfl
  have hc : d.Commits t [] s.db s.db := d.commits_refl hi.1
  exact ⟨finish_allows hi.2 hc (by simp), hs⟩

end RestFleet.Tx
