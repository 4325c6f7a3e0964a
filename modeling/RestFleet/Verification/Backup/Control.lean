import RestFleet.Verification.Backup.Reports

/-! # The other transactions keep the journal -/

namespace RestFleet.Backup

variable {start : Database} {t : ℕ} {keys : List Key} {f : Database → Database}
  {P : Database → Prop} {α : Type} {Q : α → Tx.State schema → Prop}

theorem commit_return {a : α} (hP : Keeps start t keys P) :
    Spec start t (Within t keys id P)
      (do
        Tx.commit
        return a) fun _ _ => True :=
  Tx.Body.commit_unchanged hP (Tx.Body.pure (Tx.stable_in keeps_true) fun _ _ _ => trivial)

theorem note_return {a : α} (e : Entry) (hP : Keeps start t keys P)
    (hf : ∀ db, P db → f db = e.effect db)
    (hg : ∀ db, (journal start).Reaches db → P db → e.Guard db)
    (hkeys : ∀ k, e.touches k → k ∈ keys) (ha : e.author = none) :
    Spec start t (Within t keys f P)
      (do
        Tx.write (·.note e)
        Tx.commit
        return a) fun _ _ => True := by
  refine Tx.Body.write hP (commit_spec e (fun _ => True) hP (fun db h => ?_) hg hkeys ?_
    (fun _ _ _ => trivial) (Tx.Body.pure (Tx.stable_in keeps_true) fun _ _ _ => trivial))
  · change (f db).note e = (e.effect db).note e
    rw [hf db h]
  · intro u hu
    rw [ha] at hu
    cases hu

theorem note_last (e : Entry) (hP : Keeps start t keys P)
    (hf : ∀ db, P db → f db = e.effect db)
    (hg : ∀ db, (journal start).Reaches db → P db → e.Guard db)
    (hkeys : ∀ k, e.touches k → k ∈ keys) (ha : e.author = none) :
    Spec start t (Within t keys f P)
      (do
        Tx.write (·.note e)
        Tx.commit) fun _ _ => True := by
  have h := note_return (a := ()) e hP hf hg hkeys ha
  exact h

/-! ## Idempotency records -/

theorem lockBackupRequest_spec (key : RequestKey) (hP : Keeps start t keys P) :
    Spec start t (Within t keys f P) (lockBackupRequest key) fun _ => Within t keys f P := by
  unfold lockBackupRequest
  simp only
  split
  · exact Tx.Body.throw
  refine Tx.Body.claim hP (clock_spec hP.cons fun now => glance_spec hP.cons fun v => ?_)
  have hret : ∀ x : Option Operation, Spec start t
      (Within t (.advisory (key.key.take 8) :: keys) f P) (pure x : BackupM (Option Operation))
      fun _ => Within t keys f P := fun x =>
    (return_spec hP.cons).conseq (fun _ h => h) fun _ _ _ h => h.drop
  split
  · exact hret none
  · split
    · exact hret none
    · split
      · exact Tx.Body.throw
      · exact hret _

theorem saveBackupRequest_spec (key : RequestKey) (o : Operation) (hP : Keeps start t keys P) :
    Spec start t (Within t keys f P) (saveBackupRequest key o) fun now =>
      Within t keys (fun db => (f db).saveRequest key o now) P := by
  refine clock_spec hP fun now => Tx.Body.claim hP (Tx.Body.write hP.cons ?_)
  exact Tx.Body.pure (Tx.stable_in hP.cons) fun _ _ h => h.drop

/-! ## `CreateManualOperation` -/

theorem lineage_spec (target : Target) (hP : Keeps start t keys P) :
    Spec start t (Within t keys f P) (lineage target) fun _ => Within t keys f P := by
  cases target with
  | plan id => exact return_spec hP
  | retry id =>
      refine glance_spec hP fun v => ?_
      split
      · exact Tx.Body.throw
      · split
        · exact Tx.Body.throw
        · split
          · exact Tx.Body.throw
          · exact return_spec hP

theorem lockPlan_spec (id : UUID) (hP : Keeps start t keys P) :
    Spec start t (Within t keys f P) (lockPlan id) fun _ => Within t (.plan id :: keys) f P := by
  refine Tx.Body.lock hP (glance_spec hP.cons fun v => ?_) Tx.Body.throw
  split
  · exact Tx.Body.throw
  · split
    · exact Tx.Body.throw
    · exact return_spec hP.cons

theorem insertManual_spec {o : Operation} (key : RequestKey) (ho : o.status = .queued)
    (hf : o.finishedAt = none) (hd : o.dispatchedAt = none) (hs : o.snapshotID = [])
    (hP : Keeps start t keys P) :
    Spec start t (Within t keys id P) (insertManual o key) fun _ _ => True := by
  refine Tx.Body.claim hP (Tx.Body.check (F := fun db => db.operations.row o.id = none) hP.cons
    (fun db _ _ h => by simpa using h) (fun _ _ => Tx.Body.throw) fun v _ => ?_)
  have hR : Keeps start t (.operation o.id :: keys) fun db =>
      db.operations.row o.id = none ∧ P db :=
    (keeps_row (F := fun x => x = none) (by simp)).and hP.cons
  refine Tx.Body.write hR (Tx.Body.bind (saveBackupRequest_spec key o hR) fun savedAt => ?_)
  refine note_return (.created o key savedAt) hR (fun _ _ => rfl)
    (fun db _ h => ⟨h.1, ho, hf, hd, hs⟩) ?_ rfl
  rintro k rfl
  simp

theorem createManualOperation_spec (op : UUID) (target : Target) (key : RequestKey) :
    Spec start t (Within t [] id fun _ => True) (createManualOperation op target key)
      fun _ _ => True := by
  refine Tx.Body.bind (lockBackupRequest_spec key keeps_true) fun original => ?_
  cases original with
  | some original => exact commit_return keeps_true
  | none =>
      refine Tx.Body.bind (lineage_spec target keeps_true) fun l => ?_
      refine Tx.Body.bind (lockPlan_spec l.planID keeps_true) fun p => ?_
      change Spec start t _ (ite _ _ _) _
      split
      · exact Tx.Body.throw
      · refine clock_spec keeps_true fun now => ?_
        exact insertManual_spec key rfl rfl rfl rfl keeps_true

/-! ## `CancelBackupOperation` -/

def Database.has (db : Database) (o : Operation) : Prop := db.operations.row o.id = some o

theorem keeps_has {o : Operation} (hk : .operation o.id ∈ keys) :
    Keeps start t keys fun db => db.has o :=
  keeps_row (F := fun x => x = some o) hk

theorem lockOperation_spec (hs : RowsOk start) (op : UUID) :
    Spec start t (Within t [] id fun _ => True) (lockOperation op) fun o s =>
      o.id = op ∧ Within t [.operation o.id] id (fun db => db.has o) s := by
  refine Tx.Body.lock keeps_true ?_ Tx.Body.throw
  refine Tx.Body.view (R := fun v db => RowsOk v ∧ db.operations.row op = v.operations.row op)
    keeps_true (fun db hr _ => ⟨rowsOk_of_reaches hs hr, rfl⟩) fun v => ?_
  split
  · exact Tx.Body.throw
  · rename_i o ho
    refine Tx.Body.of_fact fun hv => ?_
    have hid : o.id = op := (hv op o ho).2
    subst hid
    have hR : Keeps start t [.operation o.id] fun db =>
        db.operations.row o.id = v.operations.row o.id :=
      keeps_row (F := fun x => x = v.operations.row o.id) (by simp)
    exact Tx.Body.pure (Tx.stable_in hR) fun _ _ h =>
      ⟨rfl, h.mono (fun _ hk => hk) fun hdb => hdb.trans ho⟩

theorem finishCancel_spec {found response : Operation} {now : Stamp} {key : RequestKey}
    (hfinal : found.status.final = false)
    (hf : ∀ db savedAt, (f db).saveRequest key response savedAt =
      (Entry.canceled found now key savedAt).effect db) :
    Spec start t (Within t [.operation found.id] f fun db => db.has found)
      (finishCancel found response now key) fun _ _ => True := by
  have hP : Keeps start t [.operation found.id] fun db => db.has found := keeps_has (by simp)
  refine Tx.Body.bind (saveBackupRequest_spec key response hP) fun savedAt => ?_
  refine note_return (.canceled found now key savedAt) hP (fun db _ => hf db savedAt)
    (fun db _ h => ⟨h, hfinal⟩) ?_ rfl
  rintro k rfl
  simp

theorem cancelBackupOperation_spec (hs : RowsOk start) (op : UUID) (now : Stamp)
    (key : RequestKey) :
    Spec start t (Within t [] id fun _ => True) (cancelBackupOperation op now key)
      fun _ _ => True := by
  refine Tx.Body.bind (lockBackupRequest_spec key keeps_true) fun original => ?_
  cases original with
  | some original => exact commit_return keeps_true
  | none =>
      refine Tx.Body.bind (lockOperation_spec hs op) fun o => Tx.Body.of_pre fun hid => ?_
      subst hid
      change Spec start t _ (ite _ _ (ite _ _ _)) _
      split
      · exact Tx.Body.throw
      · rename_i hfinal
        have hfinal : o.status.final = false := by simpa using hfinal
        split
        · rename_i hc
          exact finishCancel_spec hfinal fun db savedAt => by simp [Entry.effect, hc]
        · rename_i hc
          refine Tx.Body.write (keeps_has (by simp)) (finishCancel_spec hfinal fun db savedAt => ?_)
          simp [Entry.effect, hc]

/-! ## `ClaimManualOperationDispatch` -/

/-- The claims of a stream that it has not dispatched yet. -/
def Unused (stream : ℕ) (op : UUID) (now : Stamp) (db : Database) : Prop :=
  db.trail.countP (Entry.dispatches stream op now) < db.trail.countP (Entry.claims stream op now)

/-- A stream never dispatches more often than it has claimed. -/
def Balanced (db : Database) : Prop :=
  ∀ stream op now, db.trail.countP (Entry.dispatches stream op now) ≤
    db.trail.countP (Entry.claims stream op now)

theorem claims_author {e : Entry} {stream : ℕ} {op : UUID} {now : Stamp}
    (h : e.claims stream op now) : e.author = some stream := by
  cases e <;> simp_all [Entry.claims, Entry.author]

theorem dispatches_author {e : Entry} {stream : ℕ} {op : UUID} {now : Stamp}
    (h : e.dispatches stream op now) : e.author = some stream := by
  cases e <;> simp_all [Entry.dispatches, Entry.author]

theorem keeps_unused (op : UUID) (now : Stamp) : Keeps start t keys (Unused t op now) := by
  refine keeps_of_author fun e db ha _ h => ?_
  have hc : e.claims t op now = false := by
    by_contra hc
    exact ha (claims_author (by simpa using hc))
  have hd : e.dispatches t op now = false := by
    by_contra hd
    exact ha (dispatches_author (by simpa using hd))
  simpa [Unused, List.countP_append, hc, hd] using h

theorem Balanced.commit {e : Entry} {db : Database} (h : Balanced db) (hg : e.Guard db) :
    Balanced (e.commit db) := by
  intro stream op now
  have hle := h stream op now
  simp only [commit_trail, List.countP_append, List.countP_singleton]
  by_cases hd : e.dispatches stream op now
  · cases e with
    | dispatched s i n seen =>
        simp only [Entry.dispatches, Bool.and_eq_true, decide_eq_true_eq] at hd
        obtain ⟨⟨rfl, rfl⟩, rfl⟩ := hd
        have hu : db.trail.countP (Entry.dispatches s i n) <
          db.trail.countP (Entry.claims s i n) := hg.unused
        simp only [Entry.dispatches, Entry.claims, decide_true, Bool.and_self, if_true]
        omega
    | _ => simp [Entry.dispatches] at hd
  · simp only [hd, if_false, Bool.false_eq_true]
    omega

theorem balanced_of_reaches {db : Database} (hs : start.trail = [])
    (h : (journal start).Reaches db) : Balanced db :=
  keeps_of_reaches h (fun _ _ hg hb => hb.commit hg) (by simp [Balanced, hs])

theorem recordClaim_spec (hs : start.trail = []) {o : Operation} {agentID : UUID}
    {now : Stamp} (hc : o.claimable agentID (now - dispatchRetryAfter))
    (hk : .operation o.id ∈ keys) :
    Spec start t (Within t keys id fun db => db.has o)
      (recordClaim o now (now - dispatchRetryAfter)) fun r s =>
        ∀ o', r = some o' → Unused t o'.id now s.db := by
  have hP : Keeps start t keys fun db => db.has o := keeps_has hk
  refine Tx.Body.self hP (Tx.Body.write hP (Tx.Body.write hP ?_))
  refine commit_spec (.claimed t o.id now (now - dispatchRetryAfter)) (Unused t o.id now) hP
    (fun _ _ => rfl) (fun db _ h => ⟨rfl, o, h, agentID, hc⟩) ?_ ?_ ?_ ?_
  · rintro k rfl
    exact hk
  · intro u hu
    exact (Option.some.inj hu).symm
  · intro db hr _
    have hle := balanced_of_reaches hs hr t o.id now
    simp only [Unused, commit_trail, List.countP_append, List.countP_singleton, Entry.claims,
      Entry.dispatches, decide_true, Bool.and_self, if_true, Bool.false_eq_true, if_false]
    omega
  · refine Tx.Body.pure (Tx.stable_in (keeps_unused o.id now)) ?_
    rintro s _ h _ ⟨⟩
    exact h.fact

theorem claimFirst_spec (hs : RowsOk start) (ht : start.trail = []) (agentID : UUID)
    (now : Stamp) (rows : List Operation) :
    Spec start t (Within t keys id fun _ => True)
      (claimFirst agentID now (now - dispatchRetryAfter) rows) fun r s =>
        ∀ o, r = some o → Unused t o.id now s.db := by
  induction rows generalizing keys with
  | nil => exact Tx.Body.pure (Tx.stable_in keeps_true) fun _ _ _ o ho => nomatch ho
  | cons o rest ih =>
      refine Tx.Body.choose keeps_true fun skip => ?_
      cases skip with
      | true => exact ih
      | false =>
          refine Tx.Body.lock keeps_true ?_ ih
          refine Tx.Body.view (R := fun v db => RowsOk v ∧
            db.operations.row o.id = v.operations.row o.id) keeps_true
            (fun db hr _ => ⟨rowsOk_of_reaches hs hr, rfl⟩) fun v => ?_
          refine Tx.Body.of_fact fun hv => ?_
          have hforget : Spec start t (Within t (.operation o.id :: keys) id fun db =>
              db.operations.row o.id = v.operations.row o.id)
              (claimFirst agentID now (now - dispatchRetryAfter) rest) fun r s =>
                ∀ o, r = some o → Unused t o.id now s.db :=
            ih.conseq (fun _ h => h.mono (fun _ hk => hk) fun _ => trivial) fun _ _ _ h => h
          split
          · exact hforget
          · rename_i current hcur
            split
            · rename_i hc
              have hid : current.id = o.id := (hv o.id current hcur).2
              have hk : Key.operation current.id ∈ .operation o.id :: keys := by simp [hid]
              refine (recordClaim_spec ht hc hk).conseq (fun _ h => ?_) fun _ _ _ h => h
              refine h.mono (fun _ hk => hk) fun hdb => ?_
              rw [Database.has, hid]
              exact hdb.trans hcur
            · exact hforget

theorem claimManualOperationDispatch_spec (hs : RowsOk start) (ht : start.trail = [])
    (agentID : UUID) (now : Stamp) :
    Spec start t (Within t [] id fun _ => True)
      (claimManualOperationDispatch agentID now dispatchRetryAfter) fun r s =>
        ∀ o, r = some o → Unused t o.id now s.db :=
  glance_spec keeps_true fun _ => claimFirst_spec hs ht agentID now _

/-! ## Closures and answers -/

theorem modifyEach_append (f : UUID → Operation → Operation) (ids rest : List UUID)
    (db : Database) :
    db.modifyEach f (ids ++ rest) = (db.modifyEach f ids).modifyEach f rest :=
  List.foldl_append

theorem updateEach_spec (g : UUID → Operation → Operation) (ids done : List UUID)
    (hkeys : ∀ op ∈ done, .operation op ∈ keys) :
    Spec start t (Within t keys (·.modifyEach g done) fun _ => True) (updateEach g ids)
      fun locked s => ∃ ks, (∀ op ∈ done ++ locked, .operation op ∈ ks) ∧
        Within t ks (·.modifyEach g (done ++ locked)) (fun _ => True) s := by
  induction ids generalizing keys done with
  | nil =>
      refine Tx.Body.pure (Tx.stable_in keeps_true) fun s _ h => ⟨keys, ?_, ?_⟩
      · simpa using hkeys
      · simpa using h
  | cons op rest ih =>
      refine Tx.Body.lock keeps_true ?_ (ih done hkeys)
      have hf : (fun db : Database => db.modifyEach g (done ++ [op])) =
          (·.modifyOperation op (g op)) ∘ (·.modifyEach g done) := by
        funext db
        rw [modifyEach_append]
        rfl
      refine Tx.Body.write keeps_true ?_
      rw [← hf]
      have hkeys' : ∀ i ∈ done ++ [op], Key.operation i ∈ .operation op :: keys := by
        intro i hi
        rcases List.mem_append.mp hi with hi | hi
        · exact List.mem_cons_of_mem _ (hkeys i hi)
        · simp [List.mem_singleton.mp hi]
      refine Tx.Body.bind (ih (done ++ [op]) hkeys') fun locked => ?_
      refine Tx.Body.of_exists fun ks => Tx.Body.of_pre fun hks => ?_
      refine Tx.Body.pure (Tx.stable_in keeps_true) fun s _ h => ⟨ks, ?_, ?_⟩
      · simpa using hks
      · simpa using h

theorem updateAll_spec (g : UUID → Operation → Operation) (ids : List UUID)
    (entry : List UUID → Entry) (he : ∀ ids db, (entry ids).effect db = db.modifyEach g ids)
    (hg : ∀ ids db, (entry ids).Guard db)
    (ht : ∀ ids k, (entry ids).touches k → ∃ op ∈ ids, k = .operation op)
    (ha : ∀ ids, (entry ids).author = none) :
    Spec start t (Within t [] id fun _ => True)
      (do
        let locked ← updateEach g ids
        Tx.write (·.note (entry locked))
        Tx.commit) fun _ _ => True := by
  have hnone : ∀ op ∈ ([] : List UUID), Key.operation op ∈ ([] : List Key) := by simp
  refine Tx.Body.bind (updateEach_spec g ids [] hnone) fun locked => ?_
  refine Tx.Body.of_exists fun ks => Tx.Body.of_pre fun hks => ?_
  refine note_last (entry locked) keeps_true (fun db _ => (he locked db).symm)
    (fun db _ _ => hg locked db) ?_ (ha locked)
  intro k hk
  obtain ⟨op, hop, rfl⟩ := ht locked k hk
  exact hks op (by simpa using hop)

theorem closeUnstartedCancellations_spec (cutoff now : Stamp) :
    Spec start t (Within t [] id fun _ => True) (closeUnstartedCancellations cutoff now)
      fun _ _ => True :=
  glance_spec keeps_true fun _ => updateAll_spec _ _ (.closed cutoff now) (fun _ _ => rfl)
    (fun _ _ => trivial) (fun _ _ h => h) fun _ => rfl

theorem reconcileLostOperations_spec (bootCutoff now : Stamp) :
    Spec start t (Within t [] id fun _ => True) (reconcileLostOperations bootCutoff now)
      fun _ _ => True :=
  glance_spec keeps_true fun v => updateAll_spec _ _
    (.reconciled bootCutoff now (v.lostRuns bootCutoff)) (fun _ _ => rfl)
    (fun _ _ => trivial) (fun _ _ h => h) fun _ => rfl

theorem updateAgentOperation_spec {agentID op : UUID} {g : Operation → Operation} {e : Entry}
    (he : ∀ db, e.effect db = db.modifyOperation op g) (hg : ∀ db, e.Guard db)
    (ht : ∀ k, e.touches k → k = .operation op) (ha : e.author = none) :
    Spec start t (Within t [] id fun _ => True) (updateAgentOperation agentID op g e)
      fun _ _ => True := by
  refine Tx.Body.lock keeps_true (glance_spec keeps_true fun v => ?_) Tx.Body.throw
  split
  · refine Tx.Body.write keeps_true (note_last e keeps_true (fun db _ => (he db).symm)
      (fun db _ _ => hg db) (fun k hk => ?_) ha)
    rw [ht k hk]
    exact List.mem_cons_self
  · exact Tx.Body.throw

theorem rejectManualOperation_spec (agentID op : UUID) (now : Stamp) :
    Spec start t (Within t [] id fun _ => True) (rejectManualOperation agentID op now)
      fun _ _ => True :=
  updateAgentOperation_spec (fun _ => rfl) (fun _ => trivial) (fun _ h => h) rfl

theorem markOperationDispatched_spec (agentID op : UUID) :
    Spec start t (Within t [] id fun _ => True) (markOperationDispatched agentID op)
      fun _ _ => True :=
  clock_spec keeps_true fun _ =>
    updateAgentOperation_spec (fun _ => rfl) (fun _ => trivial) (fun _ h => h) rfl

/-! ## Plans and Agents -/

theorem lockPlanRevision_spec (planID agentID : UUID) (revision : ℤ) (status : PlanStatus) :
    Spec start t (Within t [] id fun _ => True) (lockPlanRevision planID agentID revision status)
      fun _ => Within t [.plan planID] id fun _ => True := by
  refine glance_spec keeps_true fun v => ?_
  split
  · exact Tx.Body.throw
  rename_i found _
  refine Tx.Body.lock keeps_true ?_ Tx.Body.throw
  change Spec start t _ (ite (found.agentID ≠ agentID) _ _) _
  split
  · exact Tx.Body.throw
  refine Tx.Body.bind (lockPlan_spec planID keeps_true) fun p => ?_
  change Spec start t _ (ite _ _ (ite _ _ _)) _
  split
  · exact Tx.Body.throw
  split
  · exact Tx.Body.throw
  · exact Tx.Body.pure (Tx.stable_in keeps_true) fun _ _ h => h.mono (by simp) fun h => h

theorem updatePlanStatus_spec (planID agentID : UUID) (status : PlanStatus) (revision : ℤ)
    (expected : PlanStatus) (now : Stamp) :
    Spec start t (Within t [] id fun _ => True)
      (updatePlanStatus planID agentID status revision expected now) fun _ _ => True := by
  refine Tx.Body.bind (lockPlanRevision_spec planID agentID revision expected) fun _ => ?_
  refine glance_spec keeps_true fun v => Tx.Body.write keeps_true ?_
  exact note_last (.planned planID status (v.newest planID) now) keeps_true (fun _ _ => rfl)
    (fun _ _ _ => trivial) (by rintro k rfl; simp) rfl

theorem savePlanRevision_spec (planID agentID : UUID) (status : PlanStatus) (hash : Text)
    (revision : ℤ) (expected : PlanStatus) (now : Stamp) :
    Spec start t (Within t [] id fun _ => True)
      (savePlanRevision planID agentID status hash revision expected now) fun _ _ => True := by
  refine Tx.Body.bind (lockPlanRevision_spec planID agentID revision expected) fun _ => ?_
  exact Tx.Body.write keeps_true (note_last (.revised planID status hash now) keeps_true
    (fun _ _ => rfl) (fun _ _ _ => trivial) (by rintro k rfl; simp) rfl)

theorem markAgentConnected_spec (agentID : UUID) (bootID : Text) (now : Stamp) :
    Spec start t (Within t [] id fun _ => True) (markAgentConnected agentID bootID now)
      fun _ _ => True := by
  refine Tx.Body.lock keeps_true (Tx.Body.write keeps_true ?_) Tx.Body.throw
  exact note_last (.connected agentID bootID now) keeps_true (fun _ _ => rfl)
    (fun _ _ _ => trivial) (by rintro k rfl; simp) rfl

end RestFleet.Backup
