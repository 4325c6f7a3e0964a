import RestFleet.Verification.Backup.Frame

/-! # The transactions of reports keep the journal -/

namespace RestFleet.Backup

variable {start : Database} {t : ℕ} {keys : List Key} {f : Database → Database}
  {P : Database → Prop} {α : Type} {Q : α → Tx.State schema → Prop}

theorem commit_spec {k : Unit → BackupM α} (e : Entry) (S : Database → Prop)
    (hP : Keeps start t keys P) (hf : ∀ db, P db → f db = e.commit db)
    (hg : ∀ db, (journal start).Reaches db → P db → e.Guard db)
    (hkeys : ∀ k, e.touches k → k ∈ keys) (ha : ∀ u, e.author = some u → u = t)
    (hS : ∀ db, (journal start).Reaches db → P db → S (e.commit db))
    (hk : Spec start t (Within t [] id S) (k ()) Q) :
    Spec start t (Within t keys f P) (Tx.commit >>= k) Q := by
  refine Tx.Body.commit S hP ?_ hk
  intro db hr h
  have heq : f db = e.commit db := hf db h
  rw [heq]
  exact ⟨Tx.Journal.commits (J := journal start) hr (hg db hr h) hkeys ha, hS db hr h⟩

theorem glance_spec {k : Database → BackupM α} (hP : Keeps start t keys P)
    (hk : ∀ v, Spec start t (Within t keys f P) (k v) Q) :
    Spec start t (Within t keys f P) (Tx.view >>= k) Q :=
  Tx.Body.see (S := fun _ => True) hP (fun _ _ _ => trivial) fun v _ => hk v

theorem clock_spec {k : Stamp → BackupM α} (hP : Keeps start t keys P)
    (hk : ∀ now, Spec start t (Within t keys f P) (k now) Q) :
    Spec start t (Within t keys f P) (clock >>= k) Q :=
  Tx.Body.choose hP hk

theorem Keeps.cons {k : Key} (hP : Keeps start t keys P) : Keeps start t (k :: keys) P :=
  Tx.Lasts.cons hP

theorem return_spec {a : α} (hP : Keeps start t keys P) :
    Spec start t (Within t keys f P) (pure a : BackupM α) fun _ => Within t keys f P :=
  Tx.Body.pure (Tx.stable_in hP) fun _ _ h => h

theorem forget_spec {p : BackupM α} {S : Database → Prop}
    (h : Spec start t (Within t keys f P) p Q) :
    Spec start t (Within t keys f fun db => S db ∧ P db) p Q :=
  h.conseq (fun _ hs => hs.mono (fun _ hk => hk) And.right) fun _ _ _ hq => hq

def Database.matching (db : Database) (r : Report) : Prop :=
  ∀ o, db.operations.row r.operationID = some o → o.matchesReport r

/-- The check changes nothing. Under the lock of the row its answer lasts. -/
theorem lockReportedOperation_held {r : Report} (hk : .operation r.operationID ∈ keys)
    (hf : ∀ db, (f db).operations = db.operations) (hP : Keeps start t keys P) :
    Spec start t (Within t keys f P) (lockReportedOperation r)
      fun _ => Within t keys f fun db => db.matching r ∧ P db := by
  have hM : ∀ {ks : List Key}, (∀ k ∈ keys, k ∈ ks) →
      Keeps start t ks fun db => db.matching r ∧ P db := fun hks =>
    (keeps_row (F := fun x => ∀ o, x = some o → o.matchesReport r) (hks _ hk)).and (hP.mono hks)
  refine Tx.Body.find (T := fun _ => True) (F := fun db => db.matching r) hP
    (fun _ _ _ _ => trivial) ?_ (forget_spec ?_) ?_
  · intro db _ _ hp o ho
    have hrow : ((f db).operations.row r.operationID).isSome = false := hp
    rw [hf, ho] at hrow
    simp at hrow
  · refine Tx.Body.view (R := fun v db =>
      v.operations.row r.operationID = db.operations.row r.operationID ∧ P db) hP.cons
      (fun db _ h => ⟨by rw [hf], h⟩) fun v => ?_
    split
    · exact Tx.Body.throw
    · rename_i o ho
      split
      · rename_i hm
        have hrow : Keeps start t (.operation r.operationID :: keys) fun db =>
            v.operations.row r.operationID = db.operations.row r.operationID ∧ P db :=
          (keeps_row (F := fun x => v.operations.row r.operationID = x) (by simp)).and hP.cons
        refine (return_spec hrow).conseq (fun _ h => h) fun _ _ _ h => ?_
        refine h.drop.mono (fun _ hk => hk) fun hdb => ⟨?_, hdb.2⟩
        intro o' ho'
        rw [← hdb.1, ho] at ho'
        cases ho'
        exact hm
      · exact Tx.Body.throw
  · refine glance_spec (hM fun _ h => h) fun v => ?_
    split
    · exact return_spec (hM fun _ h => h)
    · exact Tx.Body.throw

/-- The check changes nothing, and its lock need not be remembered. -/
theorem lockReportedOperation_spec (r : Report) (hP : Keeps start t keys P) :
    Spec start t (Within t keys f P) (lockReportedOperation r)
      fun _ => Within t keys f P := by
  refine Tx.Body.lock hP ?_ ?_
  · refine glance_spec hP.cons fun v => ?_
    split
    · exact Tx.Body.throw
    · split
      · exact (return_spec hP.cons).conseq (fun _ h => h) fun _ _ _ h => h.drop
      · exact Tx.Body.throw
  · refine glance_spec hP fun v => ?_
    split
    · exact return_spec hP
    · exact Tx.Body.throw

/-! ## Progress -/

/-- What an upsert that affects its row may count on. -/
theorem keeps_affects {r : Report} (hk : .operation r.operationID ∈ keys) :
    Keeps start t keys fun db => db.affects r :=
  keeps_row (F := fun x => x.all (·.updatable r)) hk

theorem progress_known {p : Progress} {db : Database}
    (h : (db.events.row (p.operationID, p.sequence)).isSome) :
    db.applyProgress p = db.upsertProgress p := by
  have he : ((db.upsertProgress p).events.row (p.operationID, p.sequence)).isSome := h
  simp [Database.applyProgress, he]

theorem progress_new {p : Progress} {db : Database}
    (h : ¬ (db.events.row (p.operationID, p.sequence)).isSome) :
    db.applyProgress p = ((db.upsertProgress p).insertEvent p).updateCounters p := by
  have he : ¬ ((db.upsertProgress p).events.row (p.operationID, p.sequence)).isSome := h
  simp [Database.applyProgress, he]

theorem events_applyProgress {p : Progress} {db : Database} {k : UUID × ℕ}
    (hk : k ≠ (p.operationID, p.sequence)) :
    (db.applyProgress p).events.row k = db.events.row k := by
  by_cases h : (db.events.row (p.operationID, p.sequence)).isSome
  · rw [progress_known h]
    rfl
  · rw [progress_new h]
    unfold Database.updateCounters
    split <;> exact Table.row_insert_ne hk

theorem events_modifyEach (f : UUID → Operation → Operation) (ids : List UUID) (db : Database) :
    (db.modifyEach f ids).events = db.events := by
  induction ids generalizing db with
  | nil => rfl
  | cons i rest ih => exact ih (db.modifyOperation i (f i))

theorem events_applyResult (r : Result) (p : Plan) (db : Database) :
    (db.applyResult r p).events = db.events := by
  unfold Database.applyResult Database.storeSummary
  simp only
  split <;> split <;> rfl

theorem events_kept {e : Entry} {db : Database} (h : ∀ p, e ≠ .progressed p) :
    (e.commit db).events = db.events := by
  cases e with
  | progressed p => exact absurd rfl (h p)
  | resulted r p => exact events_applyResult r p db
  | canceled found now key savedAt =>
      change (Entry.effect (.canceled found now key savedAt) db).events = _
      rw [Entry.effect]
      split <;> rfl
  | closed cutoff now ids => exact events_modifyEach _ ids db
  | reconciled bootCutoff now runs ids => exact events_modifyEach _ ids db
  | _ => rfl

theorem events_commit {e : Entry} {db : Database} {k : UUID × ℕ}
    (h : ¬ e.touches (.event k.1 k.2)) : (e.commit db).events.row k = db.events.row k := by
  by_cases hp : ∃ p, e = .progressed p
  · obtain ⟨p, rfl⟩ := hp
    refine events_applyProgress fun hk => h (Or.inr ?_)
    rw [hk]
  · rw [events_kept (not_exists.mp hp)]

theorem keeps_event {F : Option ProgressEvent → Prop} {i : UUID} {n : ℕ}
    (hk : .event i n ∈ keys) : Keeps start t keys fun db => F (db.events.row (i, n)) := by
  refine keeps_of_key hk fun e db ht _ hF => ?_
  rw [events_commit (k := (i, n)) ht]
  exact hF

theorem progressed_commit {p : Progress}
    (hP : Keeps start t keys P) (hf : ∀ db, P db → f db = db.applyProgress p)
    (hg : ∀ db, P db → db.affects p.toReport)
    (hkeys : ∀ k, (Entry.progressed p).touches k → k ∈ keys) :
    Spec start t (Within t keys f P)
      (do
        Tx.write (·.note (.progressed p))
        Tx.commit) fun _ _ => True := by
  refine Tx.Body.write hP (Tx.Body.last ?_)
  refine commit_spec (.progressed p) (fun _ => True) hP ?_ (fun db _ h => hg db h) hkeys nofun
    (fun _ _ _ => trivial) (Tx.Body.return keeps_true fun _ _ _ => trivial)
  intro db hdb
  change (f db).note _ = _
  rw [hf db hdb]
  rfl

theorem upsertOperationProgress_spec (p : Progress) :
    Spec start t (Within t [] id fun _ => True) (upsertOperationProgress p)
      fun _ _ => True := by
  refine glance_spec keeps_true fun v => ?_
  split
  · exact Tx.Body.throw
  refine Tx.Body.bind (lockReportedOperation_spec p.toReport keeps_true) fun _ => ?_
  refine Tx.Body.claim keeps_true ?_
  refine Tx.Body.check (F := fun db => db.affects p.toReport) keeps_true ?_ ?_ ?_
  · intro db _ _ h
    simpa using h
  · intro v _
    refine Tx.Body.bind (lockReportedOperation_spec p.toReport keeps_true) fun _ => ?_
    exact Tx.Body.last (Tx.Body.commit_unchanged keeps_true
      (Tx.Body.return keeps_true fun _ _ _ => trivial))
  intro v _
  have hP : Keeps start t [.operation p.operationID] fun db =>
      db.affects p.toReport ∧ True := (keeps_affects (by simp)).and keeps_true
  have hkeys : ∀ k, (Entry.progressed p).touches k →
      k ∈ [Key.event p.operationID p.sequence, .operation p.operationID] := by
    rintro k (rfl | rfl) <;> simp
  have hkey (F : Option ProgressEvent → Prop) :
      Keeps start t [.event p.operationID p.sequence, .operation p.operationID] fun db =>
        F (db.events.row (p.operationID, p.sequence)) := keeps_event (by simp)
  refine Tx.Body.write hP (Tx.Body.claim hP ?_)
  refine Tx.Body.branch (T := fun db => (db.events.row (p.operationID, p.sequence)).isSome)
    (F := fun db => ¬ (db.events.row (p.operationID, p.sequence)).isSome)
    hP.cons (fun _ _ _ h => h) (fun _ _ _ h => h) ?_ ?_
  · intro v _
    have hE := (hkey fun x => x.isSome).and hP.cons
    exact progressed_commit hE (fun db h => (progress_known h.1).symm) (fun _ h => h.2.1) hkeys
  · intro v _
    have hE := (hkey fun x => ¬ x.isSome).and hP.cons
    refine Tx.Body.write hE (Tx.Body.write hE ?_)
    exact progressed_commit hE (fun db h => (progress_new h.1).symm) (fun _ h => h.2.1) hkeys

/-! ## Results -/

def Recorded (r : Result) (db : Database) : Prop :=
  ∃ e ∈ db.trail, (∃ p, e = .resulted r p) ∨ ∃ o, e = .repeated r o

theorem keeps_recorded (r : Result) : Keeps start t keys (Recorded r) := by
  refine keeps_of_entry fun e db _ h => ?_
  obtain ⟨e', he', hr⟩ := h
  exact ⟨e', by simp [he'], hr⟩

theorem recorded_commit {e : Entry} {r : Result} (db : Database)
    (h : (∃ p, e = .resulted r p) ∨ ∃ o, e = .repeated r o) : Recorded r (e.commit db) :=
  ⟨e, by simp, h⟩

def Database.placed (db : Database) (id : UUID) (p : Plan) : Prop :=
  (db.plans.row id).map Plan.place = some p.place

theorem keeps_placed (id : UUID) (p : Plan) : Keeps start t keys fun db => db.placed id p := by
  refine keeps_of_entry fun e db _ h => ?_
  rw [Database.placed, commit_place]
  exact h

theorem placed_of_boundPlan {db : Database} {r : Report} {p : Plan}
    (h : db.boundPlan? r = some p) : db.placed r.planID p := by
  unfold Database.boundPlan? at h
  split at h
  · rename_i q a hq ha
    split at h
    · cases h
      simp [Database.placed, hq]
    · cases h
  · cases h

theorem placed_repository {db : Database} {id : UUID} {p : Plan} (h : db.placed id p) :
    (db.plans.row id).any (·.repositoryID = p.repositoryID) := by
  obtain ⟨q, hq, hp⟩ := Option.map_eq_some_iff.mp h
  have hrepo : q.repositoryID = p.repositoryID := congrArg (·.2) hp
  simp [hq, hrepo]

theorem indexSnapshot_spec (r : Result) (p : Plan) (hP : Keeps start t keys P) :
    Spec start t (Within t keys f P) (indexSnapshot r p) fun _ =>
      Within t keys (fun db => if r.snapshotID = [] then f db else (f db).upsertSnapshot r p) P := by
  unfold indexSnapshot
  by_cases hs : r.snapshotID = []
  · simp only [hs, if_true]
    exact return_spec hP
  · simp only [hs, if_false]
    refine Tx.Body.claim hP (Tx.Body.last (Tx.Body.write hP.cons ?_))
    exact (return_spec hP.cons).conseq (fun _ h => h) fun _ _ _ h => h.drop

theorem recordResult_spec {r : Result} {p : Plan} (hr : r.status.final)
    (hk : .operation r.operationID ∈ keys) :
    Spec start t
      (Within t keys id fun db => db.affects r.toReport ∧ db.placed r.planID p)
      (recordResult r p) fun _ => Within t [] id (Recorded r) := by
  have hP : ∀ {ks : List Key}, .operation r.operationID ∈ ks →
      Keeps start t ks fun db => db.affects r.toReport ∧ db.placed r.planID p :=
    fun hks => (keeps_affects hks).and (keeps_placed r.planID p)
  refine Tx.Body.write (hP hk) (Tx.Body.write (hP hk) ?_)
  refine Tx.Body.find (T := fun _ => True) (F := fun _ => False) (hP hk)
    (fun _ _ _ _ => trivial) ?_ (forget_spec ?_) ?_
  · intro db _ hdb hpres
    have hplans : (((db.upsertResult r).storeSummary r).plans.row r.planID).isSome = false := hpres
    have hsum := congrArg Surroundings.plans (surroundings_storeSummary r (db.upsertResult r))
    have hsome := placed_repository hdb.2
    have hrow : ((db.upsertResult r).storeSummary r).plans = db.plans := hsum
    rw [hrow] at hplans
    cases hq : db.plans.row r.planID with
    | none => simp [hq] at hsome
    | some q => simp [hq] at hplans
  · have hP' := hP (List.mem_cons_of_mem (Key.plan r.planID) hk)
    refine Tx.Body.write hP' (Tx.Body.bind (indexSnapshot_spec r p hP') fun _ => ?_)
    refine Tx.Body.write hP' (Tx.Body.last ?_)
    refine commit_spec (.resulted r p) (Recorded r) hP' (fun db _ => ?_)
      (fun db _ h => ⟨h.1, hr, placed_repository h.2⟩) ?_ nofun
      (fun db _ _ => recorded_commit db (Or.inl ⟨p, rfl⟩)) ?_
    · rfl
    · rintro k (rfl | rfl)
      · exact List.mem_cons_of_mem _ hk
      · exact List.mem_cons_self
    · exact return_spec (keeps_recorded r)
  · exact fun s hs => hs.fact.1.elim

theorem finished_of_matching {db : Database} {r : Report} {o : Operation} (hr : 0 ≤ r.attempt)
    (ho : db.operations.row r.operationID = some o) (hm : o.matchesReport r)
    (hn : ¬ db.affects r) : o.finishedAt.isSome := by
  have hnot : o.updatable r = false := by simpa [Database.affects, ho] using hn
  simp only [Operation.matchesReport, Bool.and_eq_true, Bool.or_eq_true, decide_eq_true_eq] at hm
  obtain ⟨⟨⟨hagent, hplan⟩, hrev⟩, hlinks⟩ := hm
  by_contra hopen
  have hnone : o.finishedAt.isNone := by simpa using hopen
  rcases hlinks with h0 | ⟨⟨hatt, hparent⟩, hroot⟩
  · simp [Operation.updatable, hnone, hagent, hplan, hrev, h0] at hnot
  · -- An attempt of zero is not compared, a positive one is stored as it is.
    simp only [Operation.updatable, hnone, hagent, hplan, hrev, hatt, hparent, hroot,
      Report.rowAttempt] at hnot
    by_cases h0 : r.attempt = 0
    · simp [h0] at hnot
    · have hmax : max r.attempt 1 = r.attempt := by omega
      simp [hmax] at hnot

theorem repeatResult_spec {r : Result} (hr : 0 ≤ r.attempt)
    (hk : .operation r.operationID ∈ keys) :
    Spec start t (Within t keys id fun db => ¬ db.affects r.toReport) (repeatResult r)
      fun _ => Within t [] id (Recorded r) := by
  have hN : Keeps start t keys fun db => ¬ db.affects r.toReport :=
    keeps_row (F := fun x => ¬ x.all (·.updatable r.toReport)) hk
  have hM : Keeps start t keys fun db => db.matching r.toReport ∧ ¬ db.affects r.toReport :=
    (keeps_row (F := fun x => ∀ o, x = some o → o.matchesReport r.toReport) hk).and hN
  refine Tx.Body.bind (lockReportedOperation_held hk (fun _ => rfl) hN) fun _ => ?_
  refine Tx.Body.view (R := fun v db => db.operations.row r.operationID =
    v.operations.row r.operationID ∧ db.matching r.toReport ∧ ¬ db.affects r.toReport) hM
    (fun db _ h => ⟨rfl, h⟩) fun v => ?_
  split
  · exact Tx.Body.throw
  · rename_i o ho
    have hR : Keeps start t keys fun db => db.operations.row r.operationID =
        v.operations.row r.operationID ∧ db.matching r.toReport ∧ ¬ db.affects r.toReport :=
      (keeps_row (F := fun x => x = v.operations.row r.operationID) hk).and hM
    refine Tx.Body.write hR (Tx.Body.last ?_)
    refine commit_spec (.repeated r o) (Recorded r) hR (fun db _ => rfl) ?_ (fun _ h => h.elim)
      (by rintro _ ⟨⟩) (fun db _ _ => recorded_commit db (Or.inr ⟨o, rfl⟩))
      (return_spec (keeps_recorded r))
    intro db _ h
    have hrow : db.operations.row r.operationID = some o := h.1.trans ho
    have hmatch : o.matchesReport r.toReport := h.2.1 o hrow
    exact ⟨hrow, hmatch, finished_of_matching hr hrow hmatch h.2.2⟩

theorem upsertOperationResult_spec {r : Result} (hr : r.status.final) (ha : 0 ≤ r.attempt) :
    Spec start t (Within t [] id fun _ => True) (upsertOperationResult r)
      fun _ => Within t [] id (Recorded r) := by
  refine Tx.Body.view (R := fun v db => ∀ p, v.boundPlan? r.toReport = some p →
    db.placed r.planID p) keeps_true (fun db _ _ p h => placed_of_boundPlan h) fun v => ?_
  split
  · exact Tx.Body.throw
  · rename_i p hp
    refine Tx.Body.conseq (A := Within t [] id fun db => db.placed r.planID p) ?_
      (fun s h => h.mono (fun _ hk => hk) fun h => h p hp) fun _ _ _ h => h
    have hP : Keeps start t [] fun db => db.placed r.planID p := keeps_placed r.planID p
    refine Tx.Body.bind (lockReportedOperation_spec r.toReport hP) fun _ => ?_
    refine Tx.Body.claim hP (Tx.Body.branch (T := fun db => db.affects r.toReport)
      (F := fun db => ¬ db.affects r.toReport) hP.cons (fun _ _ _ h => h) (fun _ _ _ h => h) ?_ ?_)
    · exact fun v _ => recordResult_spec hr (by simp)
    · intro v _
      exact (repeatResult_spec ha (by simp)).conseq
        (fun _ h => h.mono (fun _ hk => hk) And.left) fun _ _ _ h => h

end RestFleet.Backup
