import RestFleet.Verification.Backup.Finality

/-! # What entries leave alone -/

namespace RestFleet.Backup

open Tx (Lasts)

variable {start db : Database} {e : Entry} {id : UUID} {t : ℕ} {keys : List Key}
  {P : Database → Prop}

abbrev Spec {α : Type} (start : Database) (t : ℕ) (A : Tx.State schema → Prop) (p : BackupM α)
    (Q : α → Tx.State schema → Prop) : Prop :=
  Tx.Body arrivals (journal start).discipline t A p Q

abbrev Within (t : ℕ) (keys : List Key) (f : Database → Database) (P : Database → Prop)
    (s : Tx.State schema) : Prop :=
  Tx.In (M := schema) t keys f P s

abbrev Keeps (start : Database) (t : ℕ) (keys : List Key) (P : Database → Prop) : Prop :=
  Lasts (journal start).discipline t keys P

/-! ## Facts that last -/

theorem keeps_of_key {k : Key} (hk : k ∈ keys)
    (h : ∀ (e : Entry) (db : Database), ¬ e.touches k → e.Guard db → P db → P (e.commit db)) :
    Keeps start t keys P :=
  Tx.Journal.lasts_of_key (J := journal start) hk h

theorem keeps_of_author
    (h : ∀ (e : Entry) (db : Database), e.author ≠ some t → e.Guard db → P db →
      P (e.commit db)) : Keeps start t keys P :=
  Tx.Journal.lasts_of_author (J := journal start) h

theorem keeps_of_entry
    (h : ∀ (e : Entry) (db : Database), e.Guard db → P db → P (e.commit db)) :
    Keeps start t keys P :=
  Tx.Journal.lasts_of_event (J := journal start) h

theorem keeps_true : Keeps start t keys fun _ => True := Tx.lasts_const

/-! ## Rows under lock -/

theorem rowRule_eq : RowRule Eq fun _ => False :=
  ⟨fun _ => rfl, fun _ _ _ => Eq.trans, fun _ _ h _ => h⟩

theorem respects_eq (h : ¬ e.touches (.operation id)) : e.Respects id Eq fun _ => False := by
  cases e with
  | progressed p => exact fun hid => absurd (Or.inl (congrArg Key.operation hid.symm)) h
  | resulted r p => exact fun hid => absurd (Or.inl (congrArg Key.operation hid.symm)) h
  | created o key savedAt => exact fun hid => absurd (congrArg Key.operation hid.symm) h
  | canceled found now key savedAt => exact fun hid => absurd (congrArg Key.operation hid.symm) h
  | claimed stream i now retryBefore =>
      exact fun hid => absurd (congrArg Key.operation hid.symm) h
  | accepted i now => exact fun hid => absurd (congrArg Key.operation hid.symm) h
  | rejected i now => exact fun hid => absurd (congrArg Key.operation hid.symm) h
  | closed cutoff now ids => exact fun hm => absurd ⟨id, hm, rfl⟩ h
  | reconciled bootCutoff now runs ids => exact fun hm => absurd ⟨id, hm, rfl⟩ h
  | _ => trivial

theorem row_commit (h : ¬ e.touches (.operation id)) (hg : e.Guard db) :
    (e.commit db).operations.row id = db.operations.row id := by
  have hstep : RowStep Eq (fun _ => False) (db.operations.row id)
      ((e.commit db).operations.row id) := commit_rowStep rowRule_eq hg (respects_eq h)
  generalize db.operations.row id = x at hstep ⊢
  generalize (e.commit db).operations.row id = y at hstep ⊢
  cases hstep with
  | keep => rfl
  | insert hn => exact hn.elim
  | change hs => rw [hs]

theorem keeps_row {F : Option Operation → Prop} (hk : .operation id ∈ keys) :
    Keeps start t keys fun db => F (db.operations.row id) := by
  refine keeps_of_key hk fun e db ht hg hF => ?_
  rw [row_commit ht hg]
  exact hF

/-! ## The other tables -/

/-- The tables beside the operations, their events and the requests. -/
structure Surroundings where
  agents : Table UUID Agent
  plans : Table UUID Plan
  snapshots : Table (UUID × Text) Snapshot
  trail : List Entry

def Database.surroundings (db : Database) : Surroundings :=
  ⟨db.agents, db.plans, db.snapshots, db.trail⟩

theorem surroundings_modifyEach (f : UUID → Operation → Operation) (ids : List UUID)
    (db : Database) : (db.modifyEach f ids).surroundings = db.surroundings := by
  induction ids generalizing db with
  | nil => rfl
  | cons i rest ih => exact ih (db.modifyOperation i (f i))

theorem surroundings_applyProgress (p : Progress) (db : Database) :
    (db.applyProgress p).surroundings = db.surroundings := by
  unfold Database.applyProgress
  simp only
  split
  · rfl
  · unfold Database.updateCounters
    split <;> rfl

theorem surroundings_storeSummary (r : Result) (db : Database) :
    (db.storeSummary r).surroundings = db.surroundings := by
  unfold Database.storeSummary
  split <;> rfl

/-- What an entry does beside the operations. -/
def Entry.around : Entry → Surroundings → Surroundings
  | .resulted r p, s =>
    { s with
      plans := s.plans.modify r.planID (·.record r)
      snapshots :=
        if r.snapshotID = [] then s.snapshots
        else s.snapshots.upsert (p.repositoryID, r.snapshotID) (r.snapshot p) fun _ =>
          r.snapshot p }
  | .connected id bootID now, s =>
    { s with agents := s.agents.modify id fun a =>
        { a with
          bootChangedAt :=
            if a.bootID ≠ bootID ∧ a.bootID ≠ [] then some now else a.bootChangedAt
          bootID := bootID } }
  | .planned id status newest now, s =>
    { s with plans := s.plans.modify id (·.setStatus status newest now) }
  | .revised id status hash now, s =>
    { s with plans := s.plans.modify id (·.revise status hash now) }
  | _, s => s

theorem surroundings_applyResult (r : Result) (p : Plan) (db : Database) :
    (db.applyResult r p).surroundings = (Entry.resulted r p).around db.surroundings := by
  have hsum : ((db.upsertResult r).storeSummary r).surroundings = db.surroundings :=
    surroundings_storeSummary r (db.upsertResult r)
  have hplans := congrArg Surroundings.plans hsum
  have hagents := congrArg Surroundings.agents hsum
  have hsnapshots := congrArg Surroundings.snapshots hsum
  have htrail := congrArg Surroundings.trail hsum
  simp only [Database.surroundings] at hplans hagents hsnapshots htrail
  unfold Database.applyResult Entry.around
  simp only
  split <;> simp [Database.surroundings, Database.updatePlan, Database.upsertSnapshot, hplans,
    hagents, hsnapshots, htrail]

theorem surroundings_effect (e : Entry) (db : Database) :
    (e.effect db).surroundings = e.around db.surroundings := by
  cases e with
  | progressed p => exact surroundings_applyProgress p db
  | resulted r p => exact surroundings_applyResult r p db
  | canceled found now key savedAt =>
      rw [Entry.effect]
      split <;> rfl
  | closed cutoff now ids => exact surroundings_modifyEach _ ids db
  | reconciled bootCutoff now runs ids => exact surroundings_modifyEach _ ids db
  | _ => rfl

theorem around_trail (e : Entry) (s : Surroundings) : (e.around s).trail = s.trail := by
  cases e <;> rfl

@[simp] theorem commit_trail (e : Entry) (db : Database) :
    (e.commit db).trail = db.trail ++ [e] := by
  have h : (e.effect db).trail = db.trail := by
    have hs := congrArg Surroundings.trail (surroundings_effect e db)
    rw [around_trail] at hs
    exact hs
  change (e.effect db).trail ++ [e] = db.trail ++ [e]
  rw [h]

theorem commit_plans (e : Entry) (db : Database) :
    (e.commit db).plans = (e.around db.surroundings).plans :=
  congrArg Surroundings.plans (surroundings_effect e db)

theorem commit_agents (e : Entry) (db : Database) :
    (e.commit db).agents = (e.around db.surroundings).agents :=
  congrArg Surroundings.agents (surroundings_effect e db)

theorem commit_snapshots (e : Entry) (db : Database) :
    (e.commit db).snapshots = (e.around db.surroundings).snapshots :=
  congrArg Surroundings.snapshots (surroundings_effect e db)

def Plan.place (p : Plan) : UUID × UUID := (p.hostID, p.repositoryID)

theorem modify_place {plans : Table UUID Plan} {k : UUID} {f : Plan → Plan}
    (h : ∀ p, (f p).place = p.place) (id : UUID) :
    ((plans.modify k f).row id).map Plan.place = (plans.row id).map Plan.place := by
  by_cases hk : id = k
  · subst hk
    rw [Table.row_modify_self, Option.map_map]
    exact congrArg (Option.map · (plans.row id)) (funext h)
  · rw [Table.row_modify_ne hk]

/-- Plans stay on their host and in their repository. -/
theorem commit_place (e : Entry) (db : Database) (id : UUID) :
    ((e.commit db).plans.row id).map Plan.place = (db.plans.row id).map Plan.place := by
  rw [commit_plans]
  cases e with
  | resulted r p => exact modify_place (f := fun p => p.record r) (fun _ => rfl) id
  | planned i status newest now =>
      exact modify_place (f := fun p => p.setStatus status newest now) (fun _ => rfl) id
  | revised i status hash now =>
      exact modify_place (f := fun p => p.revise status hash now) (fun _ => rfl) id
  | _ => rfl

theorem commit_host (e : Entry) (db : Database) (id : UUID) :
    ((e.commit db).agents.row id).map Agent.hostID = (db.agents.row id).map Agent.hostID := by
  rw [commit_agents]
  cases e with
  | connected i bootID now =>
      change ((db.agents.modify i _).row id).map Agent.hostID = _
      by_cases hk : id = i
      · subst hk
        rw [Table.row_modify_self, Option.map_map]
        rfl
      · rw [Table.row_modify_ne hk]
  | _ => rfl

end RestFleet.Backup
