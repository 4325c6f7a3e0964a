import RestFleet.Shared.Action

/-! # Serial runs

A program that runs alone never waits for a lock. What it does is a function of the database. -/

namespace RestFleet.Tx

variable {M : Schema} {α : Type}

/-- The values that one program gets from elsewhere. -/
abbrev Answers (M : Schema) := (q : M.Choice) → M.Answer q

/-- The committed database, and what the current transaction sees. -/
structure Alone (M : Schema) where
  db : M.Db
  seen : M.Db

/-- The reply to one statement of a program that runs alone. -/
def reply (answers : Answers M) (t : ℕ) : (op : Op M) → Alone M → Reply M op
  | .view, s => s.seen
  | .lock k, s => M.present k s.seen
  | .choose q, _ => answers q
  | .self, _ => t
  | .start, _ | .write _, _ | .claim _, _ | .commit, _ | .rollback, _ => ()

def perform : Op M → Alone M → Alone M
  | .start, s | .rollback, s => ⟨s.db, s.db⟩
  | .write f, s => ⟨s.db, f s.seen⟩
  | .commit, s => ⟨s.seen, s.seen⟩
  | _, s => s

def solo (answers : Answers M) (t : ℕ) :
    Program (Op M) (Reply M) α → Alone M → α × Alone M
  | .done a, s => (a, s)
  | .step op k, s => solo answers t (k (reply answers t op s)) (perform op s)

def exec {ε : Type} (answers : Answers M) (t : ℕ) (body : Action M ε α) (s : Alone M) :
    Except ε α × Alone M :=
  solo answers t body.run s

section Exec

variable {ε β : Type} {answers : Answers M} {t : ℕ} {s : Alone M}

theorem solo_bind (p : Program (Op M) (Reply M) α) (f : α → Program (Op M) (Reply M) β) :
    solo answers t (p >>= f) s = solo answers t (f (solo answers t p s).1) (solo answers t p s).2 := by
  induction p generalizing s with
  | done a => rfl
  | step op k ih => exact ih _

theorem solo_transaction (body : Action M ε α) :
    solo answers t (transaction body) s =
      ((exec answers t body ⟨s.db, s.db⟩).1,
        ⟨(exec answers t body ⟨s.db, s.db⟩).2.db, (exec answers t body ⟨s.db, s.db⟩).2.db⟩) := by
  change solo answers t (body.run >>= fun result => .step .rollback fun _ => .done result) _ = _
  rw [solo_bind]
  rfl

@[simp] theorem exec_pure (a : α) :
    exec answers t (pure a : Action M ε α) s = (.ok a, s) := rfl

@[simp] theorem exec_throw (e : ε) :
    exec answers t (throw e : Action M ε α) s = (.error e, s) := rfl

theorem exec_bind (x : Action M ε α) (f : α → Action M ε β) :
    exec answers t (x >>= f) s =
      match exec answers t x s with
      | (.ok a, s') => exec answers t (f a) s'
      | (.error e, s') => (.error e, s') := by
  change solo answers t (x.run >>= ExceptT.bindCont f) s = _
  rw [solo_bind]
  unfold exec
  generalize solo answers t x.run s = y
  obtain ⟨r, s'⟩ := y
  cases r <;> rfl

/-- A query that returns only what satisfies `P`. -/
def Shows (P : M.Db → Prop) : (op : Op M) → Reply M op → Prop
  | .view, db => P db
  | _, _ => True

/-- Every write of the program preserves `P`, when what the program has seen satisfies it, and
the result satisfies `Q`. -/
def Preserves (P : M.Db → Prop) (Q : α → Prop) : Program (Op M) (Reply M) α → Prop
  | .done a => Q a
  | .step op k =>
    (∀ f, op = .write f → ∀ db, P db → P (f db)) ∧ ∀ r, Shows P op r → Preserves P Q (k r)

variable {P : M.Db → Prop} {Q : α → Prop} {R : β → Prop}

theorem Preserves.bind {p : Program (Op M) (Reply M) α} {f : α → Program (Op M) (Reply M) β}
    (hp : Preserves P Q p) (hf : ∀ a, Q a → Preserves P R (f a)) : Preserves P R (p >>= f) := by
  induction p with
  | done a => exact hf a hp
  | step op k ih => exact ⟨hp.1, fun r hr => ih r (hp.2 r hr)⟩

theorem Preserves.solo {p : Program (Op M) (Reply M) α} (hp : Preserves P Q p) (hdb : P s.db)
    (hseen : P s.seen) :
    P (Tx.solo answers t p s).2.db ∧ P (Tx.solo answers t p s).2.seen := by
  induction p generalizing s with
  | done a => exact ⟨hdb, hseen⟩
  | step op k ih =>
      refine ih _ (hp.2 _ ?_) ?_ ?_
      · cases op <;> first | exact hseen | trivial
      · cases op <;> first | exact hdb | exact hseen
      · cases op with
        | write f => exact hp.1 f rfl _ hseen
        | start => exact hdb
        | rollback => exact hdb
        | _ => exact hseen

end Exec

/-- The state of the system while only `t` runs. -/
structure Sees (t : ℕ) (s : State M) (x : Alone M) : Prop where
  db : s.db = x.db
  seen : s.pend t s.db = x.seen
  rest : ∀ u, u ≠ t → s.pend u = id
  free : ∀ k, Free s t k

/-- No transaction is open. -/
structure Quiet (s : State M) (db : M.Db) : Prop where
  db : s.db = db
  pend : ∀ t, s.pend t = id
  held : ∀ k, s.held k = none

variable {answers : Answers M} {t : ℕ} {s : State M} {x : Alone M}
  {arrivals : Program (Op M) (Reply M) Unit → Prop}

theorem quiet_initial (db : M.Db) : Quiet (State.initial db) db :=
  ⟨rfl, fun _ => rfl, fun _ => rfl⟩

theorem Quiet.sees {db : M.Db} (h : Quiet s db) (t : ℕ) : Sees t s ⟨db, db⟩ :=
  ⟨h.db, by rw [h.pend, h.db]; rfl, fun u _ => h.pend u, fun k => Or.inl (h.held k)⟩

/-- Nothing of a transaction is left when it ends. -/
theorem Sees.finish (h : Sees t s x) (db : M.Db) : Quiet (s.finish t db) db where
  db := rfl
  pend := by
    intro u
    by_cases hu : u = t
    · subst hu
      exact Function.update_self u _ _
    · exact (Function.update_of_ne hu _ _).trans (h.rest u hu)
  held := by
    intro k
    rcases h.free k with hk | hk <;> simp [State.finish, release, hk]

theorem Sees.write (h : Sees t s x) {f : M.Db → M.Db} {seen : M.Db} (hf : f s.db = seen) :
    Sees t { s with pend := Function.update s.pend t f } ⟨x.db, seen⟩ where
  db := h.db
  seen := by simpa using hf
  rest := fun u hu => (Function.update_of_ne hu _ _).trans (h.rest u hu)
  free := h.free

variable [DecidableEq M.Key]

theorem Sees.take (h : Sees t s x) (k : M.Key) :
    Sees t { s with held := Function.update s.held k (some t) } x where
  db := h.db
  seen := h.seen
  rest := h.rest
  free := by
    intro k'
    by_cases hk : k' = k
    · subst hk
      exact Or.inr (Function.update_self k' _ _)
    · have hold : Function.update s.held k (some t) k' = s.held k' := Function.update_of_ne hk _ _
      simpa [Free, hold] using h.free k'

/-- Alone, every statement is allowed. -/
theorem Sees.act (h : Sees t s x) (op : Op M) :
    ∃ s', (system arrivals).act t op s (reply answers t op x) s' ∧ Sees t s' (perform op x) := by
  cases op with
  | start => exact ⟨_, rfl, h.write h.db⟩
  | view => exact ⟨s, ⟨h.seen.symm, rfl⟩, h⟩
  | write f => exact ⟨_, rfl, h.write (congrArg f h.seen)⟩
  | lock k =>
      cases hp : M.present k x.seen with
      | true =>
          refine ⟨_, Or.inl ⟨hp, ?_, fun k' _ => h.free k', rfl⟩, h.take k⟩
          rw [h.seen]
          exact hp
      | false =>
          refine ⟨s, Or.inr ⟨hp, ?_, rfl⟩, h⟩
          rw [h.seen]
          exact hp
  | claim k => exact ⟨_, ⟨fun k' _ => h.free k', rfl⟩, h.take k⟩
  | choose q => exact ⟨s, rfl, h⟩
  | self => exact ⟨s, ⟨rfl, rfl⟩, h⟩
  | commit =>
      refine ⟨_, rfl, ?_⟩
      rw [h.seen]
      exact (h.finish x.seen).sees t
  | rollback =>
      refine ⟨_, rfl, ?_⟩
      rw [h.db]
      exact (h.finish x.db).sees t

theorem solo_run {p : Program (Op M) (Reply M) Unit}
    {threads : ℕ → Option (Program (Op M) (Reply M) Unit)} (h : Sees t s x) :
    ∃ s', (system arrivals).Run ⟨s, Function.update threads t (some p)⟩
      ⟨s', Function.update threads t (some (.done ()))⟩ ∧
      Sees t s' (solo answers t p x).2 := by
  induction p generalizing s x with
  | done a => exact ⟨s, Relation.ReflTransGen.refl, h⟩
  | step op k ih =>
      obtain ⟨s₁, hact, h₁⟩ : ∃ s', (system arrivals).act t op s (reply answers t op x) s' ∧
        Sees t s' (perform op x) := h.act op
      obtain ⟨s', hrun, hs'⟩ := ih (reply answers t op x) h₁
      have hstep : (system arrivals).Step ⟨s, Function.update threads t (some (.step op k))⟩ _ :=
        .act (Function.update_self t _ threads) hact
      rw [Function.update_idem] at hstep
      exact ⟨s', Relation.ReflTransGen.head hstep hrun, hs'⟩

/-- A program that starts when no transaction is open leaves none open. -/
theorem quiet_solo {p : Program (Op M) (Reply M) Unit} {db : M.Db} (hp : arrivals p)
    (hs : Quiet s db) (answers : Answers M) (t : ℕ) :
    ∃ s', (system arrivals).Run ⟨s, fun _ => none⟩ ⟨s', fun _ => none⟩ ∧
      Quiet s' (solo answers t p ⟨db, db⟩).2.db := by
  have hspawn : (system arrivals).Step ⟨s, fun _ => none⟩
      ⟨s, Function.update (fun _ => none) t (some p)⟩ := .spawn rfl ⟨rfl, hp⟩
  obtain ⟨s₁, hrun, hsees⟩ : ∃ s₁, (system arrivals).Run
      ⟨s, Function.update (fun _ => none) t (some p)⟩
      ⟨s₁, Function.update (fun _ => none) t (some (.done ()))⟩ ∧
      Sees t s₁ (solo answers t p ⟨db, db⟩).2 := solo_run (hs.sees t)
  have hkill : (system arrivals).Step
      ⟨s₁, Function.update (fun _ => none) t (some (.done ()))⟩
      ⟨s₁.finish t s₁.db, Function.update _ t none⟩ := .kill (Function.update_self t _ _) rfl
  have hquiet := hsees.finish s₁.db
  rw [hsees.db] at hquiet
  rw [Function.update_idem, hsees.db, Function.update_eq_self_iff.mpr rfl] at hkill
  exact ⟨_, (hrun.head hspawn).tail hkill, hquiet⟩

/-- One program after the other, each on a connection of its own that is closed at the end. -/
def serial : ℕ → List (Answers M × Program (Op M) (Reply M) Unit) → M.Db → M.Db
  | _, [], db => db
  | t, (answers, p) :: rest, db => serial (t + 1) rest (solo answers t p ⟨db, db⟩).2.db

theorem quiet_serial {t : ℕ} {calls : List (Answers M × Program (Op M) (Reply M) Unit)}
    {s : State M} {db : M.Db} (hp : ∀ x ∈ calls, arrivals x.2) (hs : Quiet s db) :
    ∃ s', (system arrivals).Run ⟨s, fun _ => none⟩ ⟨s', fun _ => none⟩ ∧
      Quiet s' (serial t calls db) := by
  induction calls generalizing t s db with
  | nil => exact ⟨s, Relation.ReflTransGen.refl, hs⟩
  | cons call rest ih =>
      obtain ⟨answers, p⟩ := call
      obtain ⟨s₁, hrun, hs₁⟩ := quiet_solo (hp (answers, p) List.mem_cons_self) hs answers t
      obtain ⟨s', hrest, hs'⟩ := ih (t := t + 1) (fun x hx => hp x (List.mem_cons_of_mem _ hx)) hs₁
      exact ⟨s', hrun.trans hrest, hs'⟩

theorem serial_reachable {calls : List (Answers M × Program (Op M) (Reply M) Unit)} (db : M.Db)
    (hp : ∀ x ∈ calls, arrivals x.2) :
    ∃ c, (system arrivals).Reachable (State.initial db) c ∧ c.state.db = serial 0 calls db := by
  obtain ⟨s', hrun, hs'⟩ := quiet_serial hp (quiet_initial db)
  exact ⟨_, hrun, hs'.db⟩

end RestFleet.Tx
