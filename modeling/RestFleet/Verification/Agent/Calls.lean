import RestFleet.Verification.Backup.Health

/-! # What single calls do to the rows -/

namespace RestFleet.Backup

variable {start db : Database} {N : UUID → Operation → Prop} {α β : Type}

/-! ## Serial calls -/

/-- A database that serial calls reach. -/
def Served (start db : Database) : Prop :=
  ∃ s, server.Reachable (Tx.State.initial start) ⟨s, fun _ => none⟩ ∧ Tx.Quiet s db

theorem served_start (start : Database) : Served start start :=
  ⟨_, Relation.ReflTransGen.refl, Tx.quiet_initial (M := schema) start⟩

theorem handle_run {s : Tx.State schema} (h : Tx.Quiet s db) (c : Call) (now : Stamp) :
    ∃ s', server.Run ⟨s, fun _ => none⟩ ⟨s', fun _ => none⟩ ∧ Tx.Quiet s' (db.handle c now) :=
  Tx.quiet_solo (M := schema) ⟨c, rfl⟩ h (c.atTime now).1 0

namespace Served

theorem handle (h : Served start db) (c : Call) (now : Stamp) :
    Served start (db.handle c now) := by
  obtain ⟨s, hreach, hquiet⟩ := h
  obtain ⟨s', hrun, hquiet'⟩ := handle_run hquiet c now
  exact ⟨s', hreach.trans hrun, hquiet'⟩

theorem extends_handle (hs : start.Fresh) (h : Served start db) (c : Call) (now : Stamp) :
    (journal start).Extends (fun _ => True) db (db.handle c now) := by
  obtain ⟨s, hreach, hquiet⟩ := h
  obtain ⟨s', hrun, hquiet'⟩ := handle_run hquiet c now
  have hext := extends_of_run hs hreach hrun
  rw [hquiet.db, hquiet'.db] at hext
  exact hext

theorem rowsOk (hs : start.Fresh) (h : Served start db) : RowsOk db := by
  obtain ⟨s, hreach, hquiet⟩ := h
  have hr := reaches_of_reachable hs hreach
  rw [hquiet.db] at hr
  exact rowsOk_of_reaches (rowsOk_of_fresh hs) hr

/-- No row disappears, and each changes as rows may. -/
theorem evolves (hs : start.Fresh) (h : Served start db) (c : Call) (now : Stamp) :
    Evolves db (db.handle c now) :=
  evolves_of_extends (h.rowsOk hs) (h.extends_handle hs c now)

theorem placed (hs : start.Fresh) (h : Served start db) (c : Call) (now : Stamp) (id : UUID) :
    ((db.handle c now).plans.row id).map Plan.place = (db.plans.row id).map Plan.place ∧
      ((db.handle c now).agents.row id).map Agent.hostID =
        (db.agents.row id).map Agent.hostID := by
  refine keeps_of_extends (P := fun db' =>
    (db'.plans.row id).map Plan.place = (db.plans.row id).map Plan.place ∧
      (db'.agents.row id).map Agent.hostID = (db.agents.row id).map Agent.hostID)
    (h.extends_handle hs c now) (fun e db' _ hp => ?_) ⟨rfl, rfl⟩
  exact ⟨(commit_place e db' id).trans hp.1, (commit_host e db' id).trans hp.2⟩

end Served

/-! ## Programs that keep a property of the rows -/

def RowsAre (N : UUID → Operation → Prop) (db : Database) : Prop :=
  ∀ op o, db.operations.row op = some o → N op o

/-- A property of what a row is about. -/
def OfIdentity (N : UUID → Operation → Prop) : Prop :=
  ∀ op o o', o'.identity = o.identity → N op o → N op o'

theorem rowsAre_modify (hN : OfIdentity N) {k : UUID} {f : Operation → Operation}
    (hf : ∀ o, (f o).identity = o.identity) (h : RowsAre N db) :
    RowsAre N { db with operations := db.operations.modify k f } := by
  intro op o ho
  by_cases hk : op = k
  · subst hk
    rw [Table.row_modify_self] at ho
    obtain ⟨o', ho', rfl⟩ := Option.map_eq_some_iff.mp ho
    exact hN op o' (f o') (hf o') (h op o' ho')
  · rw [Table.row_modify_ne hk] at ho
    exact h op o ho

theorem rowsAre_insert {k : UUID} {o : Operation} (ho : N k o) (h : RowsAre N db) :
    RowsAre N { db with operations := db.operations.insert k o } := by
  intro op o' ho'
  by_cases hk : op = k
  · subst hk
    rw [Table.row_insert_self] at ho'
    cases ho'
    exact ho
  · rw [Table.row_insert_ne hk] at ho'
    exact h op o' ho'

theorem rowsAre_upsert (hN : OfIdentity N) {k : UUID} {o : Operation}
    {f : Operation → Operation} (ho : N k o) (hf : ∀ o, (f o).identity = o.identity)
    (h : RowsAre N db) :
    RowsAre N { db with operations := db.operations.upsert k o f } := by
  unfold Table.upsert
  split
  · exact rowsAre_insert ho h
  · exact rowsAre_modify hN hf h

/-- Alone, a program that preserves the property keeps it. -/
abbrev Preserves (N : UUID → Operation → Prop) (p : BackupProgram α) : Prop :=
  Tx.Preserves (M := schema) (RowsAre N) (fun _ => True) p

/-- An action that preserves the property and returns only what satisfies `Q`. -/
abbrev Yields (N : UUID → Operation → Prop) (Q : α → Prop) (x : BackupM α) : Prop :=
  Tx.Preserves (M := schema) (RowsAre N) (fun r => ∀ a, r = .ok a → Q a) x.run

section Rules

variable {x : BackupM α} {f : α → BackupM β}

theorem yields_bind {Q : α → Prop} (hx : Yields N Q x) (hf : ∀ a, Q a → Preserves N (f a).run) :
    Preserves N (x >>= f).run := by
  refine Tx.Preserves.bind hx fun r hr => ?_
  cases r with
  | ok a => exact hf a (hr a rfl)
  | error e => trivial

theorem preserves_bind (hx : Preserves N x.run) (hf : ∀ a, Preserves N (f a).run) :
    Preserves N (x >>= f).run := by
  refine Tx.Preserves.bind hx fun r _ => ?_
  cases r with
  | ok a => exact hf a
  | error e => trivial

theorem yields_throw {Q : α → Prop} (e : BackupError) : Yields N Q (throw e) := by
  rintro _ ⟨⟩

theorem yields_view {Q : β → Prop} {f : Database → BackupM β}
    (hf : ∀ db, RowsAre N db → Yields N Q (f db)) : Yields N Q (Tx.view >>= f) :=
  ⟨by rintro _ ⟨⟩, hf⟩

theorem preserves_view {f : Database → BackupM β}
    (hf : ∀ db, RowsAre N db → Preserves N (f db).run) : Preserves N (Tx.view >>= f).run :=
  ⟨nofun, fun db hdb => hf db hdb⟩

theorem preserves_write {g : Database → Database} {f : Unit → BackupM β}
    (hg : ∀ db, RowsAre N db → RowsAre N (g db)) (hf : Preserves N (f ()).run) :
    Preserves N (Tx.write g >>= f).run := by
  refine ⟨fun g' hg' => ?_, fun _ _ => hf⟩
  cases hg'
  exact hg

theorem preserves_lock {k : Key} {f : Bool → BackupM β} (hf : ∀ b, Preserves N (f b).run) :
    Preserves N (Tx.lock k >>= f).run :=
  ⟨nofun, fun b _ => hf b⟩

theorem preserves_claim {k : Key} {f : Unit → BackupM β} (hf : Preserves N (f ()).run) :
    Preserves N (Tx.claim k >>= f).run :=
  ⟨nofun, fun _ _ => hf⟩

theorem preserves_clock {f : Stamp → BackupM β} (hf : ∀ now, Preserves N (f now).run) :
    Preserves N (clock >>= f).run :=
  ⟨nofun, fun now _ => hf now⟩

theorem preserves_skip {id : UUID} {f : Bool → BackupM β} (hf : ∀ b, Preserves N (f b).run) :
    Preserves N (Tx.choose (M := schema) (.skipLocked id) >>= f).run :=
  ⟨nofun, fun b _ => hf b⟩

theorem preserves_self {f : ℕ → BackupM β} (hf : ∀ t, Preserves N (f t).run) :
    Preserves N (Tx.self >>= f).run :=
  ⟨nofun, fun t _ => hf t⟩

theorem preserves_commit {f : Unit → BackupM β} (hf : Preserves N (f ()).run) :
    Preserves N (Tx.commit >>= f).run :=
  ⟨nofun, fun _ _ => hf⟩

theorem preserves_end : Preserves N (Tx.commit : BackupM Unit).run := ⟨nofun, fun _ _ => trivial⟩

theorem preserves_transaction (hx : Preserves N x.run) : Preserves N (Tx.transaction x) :=
  ⟨nofun, fun _ _ => Tx.Preserves.bind hx fun _ _ => ⟨nofun, fun _ _ => trivial⟩⟩

theorem preserves_other {g : Database → Database} {f : Unit → BackupM β}
    (hg : ∀ db, (g db).operations = db.operations) (hf : Preserves N (f ()).run) :
    Preserves N (Tx.write g >>= f).run :=
  preserves_write (fun db h op o ho => h op o (by rwa [hg] at ho)) hf

end Rules

/-! ## The calls -/

section Calls

variable (hN : OfIdentity N)
include hN

theorem preserves_modify {k : UUID} {g : Operation → Operation} {f : Unit → BackupM β}
    (hg : ∀ o, (g o).identity = o.identity) (hf : Preserves N (f ()).run) :
    Preserves N (Tx.write (fun db : Database => db.modifyOperation k g) >>= f).run :=
  preserves_write (fun _ h => rowsAre_modify hN hg h) hf

omit hN in
theorem lockReportedOperation_preserves (r : Report) :
    Preserves N (lockReportedOperation r).run := by
  refine preserves_lock fun b => ?_
  cases b with
  | false =>
      refine preserves_view fun db _ => ?_
      split <;> trivial
  | true =>
      refine preserves_view fun db _ => ?_
      split
      · trivial
      · split <;> trivial

omit hN in
theorem progress_identity (o : Operation) (p : Progress) : (o.progress p).identity = o.identity := by
  unfold Operation.progress
  split <;> rfl

omit hN in
theorem count_identity (o : Operation) (p : Progress) : (o.count p).identity = o.identity := by
  unfold Operation.count
  split <;> rfl

omit hN in
theorem finish_identity (o : Operation) (r : Result) : (o.finish r).identity = o.identity := by
  unfold Operation.finish
  split <;> rfl

theorem upsertOperationProgress_preserves {p : Progress} (hp : N p.operationID p.newRow) :
    Preserves N (upsertOperationProgress p).run := by
  refine preserves_view fun db _ => ?_
  split
  · trivial
  · refine preserves_bind (lockReportedOperation_preserves _) fun _ => preserves_claim ?_
    refine preserves_view fun db _ => ?_
    split
    · exact preserves_bind (lockReportedOperation_preserves _) fun _ => preserves_end
    · refine preserves_write
        (fun _ h => rowsAre_upsert hN hp (progress_identity · p) h) (preserves_claim ?_)
      refine preserves_view fun db _ => ?_
      split
      · exact preserves_other (fun _ => rfl) preserves_end
      · refine preserves_other (fun _ => rfl) (preserves_write (fun db h => ?_)
          (preserves_other (fun _ => rfl) preserves_end))
        unfold Database.updateCounters
        split
        · exact rowsAre_modify hN (count_identity · p) h
        · exact h

theorem upsertOperationResult_preserves {r : Result} (hr : N r.operationID r.newRow) :
    Preserves N (upsertOperationResult r).run := by
  refine preserves_view fun db _ => ?_
  split
  · trivial
  · refine preserves_bind (lockReportedOperation_preserves _) fun _ => preserves_claim ?_
    refine preserves_view fun db _ => ?_
    split
    · refine preserves_write (fun _ h => rowsAre_upsert hN hr (finish_identity · r) h) ?_
      refine preserves_write (fun db h => ?_) (preserves_lock fun _ => ?_)
      · unfold Database.storeSummary
        split
        · exact h
        · exact rowsAre_modify hN (fun _ => rfl) h
      · refine preserves_other (fun _ => rfl) (preserves_bind ?_ fun _ =>
          preserves_other (fun _ => rfl) preserves_end)
        unfold indexSnapshot
        split
        · trivial
        · exact preserves_claim (preserves_other (f := pure) (fun _ => rfl) trivial)
    · refine preserves_bind (lockReportedOperation_preserves _) fun _ => ?_
      refine preserves_view fun db _ => ?_
      split
      · trivial
      · exact preserves_other (fun _ => rfl) preserves_end

omit hN in
theorem lockBackupRequest_preserves (key : RequestKey) :
    Preserves N (lockBackupRequest key).run := by
  unfold lockBackupRequest
  simp only
  split
  · trivial
  · refine preserves_claim (preserves_clock fun now => preserves_view fun db _ => ?_)
    split
    · trivial
    · split
      · trivial
      · split <;> trivial

omit hN in
theorem saveBackupRequest_preserves (key : RequestKey) (o : Operation) :
    Preserves N (saveBackupRequest key o).run :=
  preserves_clock fun _ => preserves_claim (preserves_other (fun _ => rfl) trivial)

/-- Where the new operation comes from, if the operations before it satisfy `N`. -/
def Target.Gives (N : UUID → Operation → Prop) : Target → Lineage → Prop
  | .plan id, l => l = ⟨id, none, none, 1⟩
  | .retry id, l => ∃ previous, N id previous ∧ previous.attempt < 10000 ∧
    l = ⟨previous.planID, some id, some (previous.rootOperationID.getD previous.id),
      previous.attempt + 1⟩

omit hN in
theorem lockPlan_preserves (id : UUID) : Preserves N (lockPlan id).run := by
  refine preserves_lock fun b => ?_
  cases b with
  | false => trivial
  | true =>
      refine preserves_view fun db _ => ?_
      split
      · trivial
      · split <;> trivial

omit hN in
theorem insertManual_preserves {o : Operation} (key : RequestKey) (ho : N o.id o) :
    Preserves N (insertManual o key).run := by
  refine preserves_claim (preserves_view fun db _ => ?_)
  split
  · trivial
  · refine preserves_write (fun _ h => rowsAre_insert ho h) ?_
    exact preserves_bind (saveBackupRequest_preserves key o) fun _ =>
      preserves_other (fun _ => rfl) (preserves_commit trivial)

omit hN in
theorem lineage_yields (target : Target) : Yields N (target.Gives N) (lineage target) := by
  cases target with
  | plan id =>
      rintro _ ⟨⟩
      rfl
  | retry id =>
      refine yields_view fun db hdb => ?_
      split
      · exact yields_throw _
      · rename_i previous hrow
        split
        · exact yields_throw _
        · split
          · exact yields_throw _
          · rename_i hlt
            rintro _ ⟨⟩
            exact ⟨previous, hdb id previous hrow, Int.not_le.mp hlt, rfl⟩

omit hN in
theorem createManualOperation_preserves {id : UUID} {target : Target} {key : RequestKey}
    (h : ∀ l p now, target.Gives N l → N id (manualRow id l p now)) :
    Preserves N (createManualOperation id target key).run := by
  refine preserves_bind (lockBackupRequest_preserves key) fun found => ?_
  cases found with
  | some original => exact preserves_commit trivial
  | none =>
      refine yields_bind (lineage_yields target) fun l hl => ?_
      refine preserves_bind (lockPlan_preserves _) fun p => ?_
      split
      · trivial
      · exact preserves_clock fun now => insertManual_preserves key (h l p now hl)

omit hN in
theorem lockOperation_preserves (id : UUID) : Preserves N (lockOperation id).run := by
  refine preserves_lock fun b => ?_
  cases b with
  | false => trivial
  | true =>
      refine preserves_view fun db _ => ?_
      split <;> trivial

omit hN in
theorem finishCancel_preserves (found response : Operation) (now : Stamp) (key : RequestKey) :
    Preserves N (finishCancel found response now key).run :=
  preserves_bind (saveBackupRequest_preserves key response) fun _ =>
    preserves_other (fun _ => rfl) (preserves_commit trivial)

omit hN in
theorem cancel_identity (o : Operation) (now : Stamp) :
    (if o.finishedAt.isNone then o.cancel now else o).identity = o.identity := by
  unfold Operation.cancel
  split
  · split <;> rfl
  · rfl

theorem cancelBackupOperation_preserves (id : UUID) (now : Stamp) (key : RequestKey) :
    Preserves N (cancelBackupOperation id now key).run := by
  refine preserves_bind (lockBackupRequest_preserves key) fun found => ?_
  cases found with
  | some original => exact preserves_commit trivial
  | none =>
      refine preserves_bind (lockOperation_preserves id) fun o => ?_
      split
      · trivial
      · split
        · exact finishCancel_preserves o o now key
        · exact preserves_write (fun _ h => rowsAre_modify hN (cancel_identity · now) h)
            (finishCancel_preserves o (o.cancel now) now key)

theorem claimFirst_preserves (agentID : UUID) (now retryBefore : Stamp) (rows : List Operation) :
    Preserves N (claimFirst agentID now retryBefore rows).run := by
  induction rows with
  | nil => trivial
  | cons o rest ih =>
      refine preserves_skip fun b => ?_
      cases b with
      | true => exact ih
      | false =>
          refine preserves_lock fun b => ?_
          cases b with
          | false => exact ih
          | true =>
              refine preserves_view fun db _ => ?_
              split
              · exact ih
              · split
                · refine preserves_self fun t => preserves_write
                    (fun _ h => rowsAre_modify hN (fun _ => rfl) h) ?_
                  exact preserves_other (fun _ => rfl) (preserves_commit trivial)
                · exact ih

omit hN in
theorem dispatchClaimed_preserves (now : Stamp) (claimed : Except BackupError (Option Operation)) :
    Preserves N (dispatchClaimed now claimed) := by
  unfold dispatchClaimed
  split
  · rename_i o
    have hread : Preserves N (readOperation o.id).run := by
      refine preserves_view fun db _ => ?_
      split <;> trivial
    refine Tx.Preserves.bind (preserves_transaction hread) fun current _ => ?_
    unfold dispatchIfQueued
    split
    · split
      · trivial
      · refine Tx.Preserves.bind (preserves_transaction ?_) fun _ _ => trivial
        exact preserves_self fun _ => preserves_other (fun _ => rfl) preserves_end
    · trivial
  · trivial

theorem dispatchQueuedJob_preserves (agentID : UUID) (now : Stamp) :
    Preserves N (dispatchQueuedJob agentID now) := by
  refine Tx.Preserves.bind (preserves_transaction ?_) fun claimed _ =>
    dispatchClaimed_preserves now claimed
  exact preserves_view fun db _ => claimFirst_preserves hN agentID now _ _

theorem updateEach_preserves {f : UUID → Operation → Operation}
    (hf : ∀ id o, (f id o).identity = o.identity) (ids : List UUID) :
    Preserves N (updateEach f ids).run := by
  induction ids with
  | nil => trivial
  | cons id rest ih =>
      refine preserves_lock fun b => ?_
      cases b with
      | false => exact ih
      | true => exact preserves_modify hN (hf id) (preserves_bind ih fun _ => trivial)

omit hN in
theorem closeUnstarted_identity (o : Operation) (cutoff now : Stamp) :
    (o.closeUnstarted cutoff now).identity = o.identity := by
  unfold Operation.closeUnstarted
  split <;> rfl

omit hN in
theorem reconcileRow_identity (runs : List (UUID × Agent)) (bootCutoff now : Stamp) (id : UUID)
    (o : Operation) : (reconcileRow runs bootCutoff now id o).identity = o.identity := by
  unfold reconcileRow
  split
  · rfl
  · unfold Operation.reconcile
    split <;> rfl

theorem closeUnstartedCancellations_preserves (cutoff now : Stamp) :
    Preserves N (closeUnstartedCancellations cutoff now).run :=
  preserves_view fun _ _ =>
    preserves_bind (updateEach_preserves hN (fun _ o => closeUnstarted_identity o cutoff now) _)
      fun _ => preserves_other (fun _ => rfl) preserves_end

theorem reconcileLostOperations_preserves (bootCutoff now : Stamp) :
    Preserves N (reconcileLostOperations bootCutoff now).run :=
  preserves_view fun db _ =>
    preserves_bind (updateEach_preserves hN
      (reconcileRow_identity (db.lostRuns bootCutoff) bootCutoff now) _)
      fun _ => preserves_other (fun _ => rfl) preserves_end

theorem updateAgentOperation_preserves (agentID id : UUID) {f : Operation → Operation}
    (hf : ∀ o, (f o).identity = o.identity) (entry : Entry) :
    Preserves N (updateAgentOperation agentID id f entry).run := by
  refine preserves_lock fun b => ?_
  cases b with
  | false => trivial
  | true =>
      refine preserves_view fun db _ => ?_
      split
      · exact preserves_modify hN hf (preserves_other (fun _ => rfl) preserves_end)
      · trivial

omit hN in
theorem reject_identity (o : Operation) (now : Stamp) : (o.reject now).identity = o.identity := by
  unfold Operation.reject
  split <;> rfl

omit hN in
theorem accept_identity (o : Operation) (now : Stamp) : (o.accept now).identity = o.identity := by
  unfold Operation.accept
  split <;> rfl

omit hN in
theorem lockPlanRevision_preserves (id agentID : UUID) (revision : ℤ) (expected : PlanStatus) :
    Preserves N (lockPlanRevision id agentID revision expected).run := by
  refine preserves_view fun db _ => ?_
  split
  · trivial
  · refine preserves_lock fun b => ?_
    cases b with
    | false => trivial
    | true =>
        simp only [if_true]
        split
        · trivial
        · refine preserves_bind (lockPlan_preserves id) fun p => ?_
          split
          · trivial
          · split <;> trivial

omit hN in
theorem markAgentConnected_preserves (id : UUID) (bootID : Text) (now : Stamp) :
    Preserves N (markAgentConnected id bootID now).run := by
  refine preserves_lock fun b => ?_
  cases b with
  | false => trivial
  | true => exact preserves_other (fun _ => rfl) (preserves_other (fun _ => rfl) preserves_end)

theorem handleProgress_preserves {p : Progress}
    (hp : reportedOperationLinks p.toReport → p.check = .ok () → N p.operationID p.newRow) :
    Preserves N (handleProgress p) := by
  unfold handleProgress recordOperationProgress
  split
  · trivial
  · rename_i hl
    refine Tx.Preserves.bind (Q := fun _ => True) ?_ fun _ _ => trivial
    cases hc : p.check with
    | error e => trivial
    | ok _ =>
        exact preserves_transaction (upsertOperationProgress_preserves hN (hp (by simpa using hl) hc))

theorem handleResult_preserves {r : Result}
    (hr : reportedOperationLinks r.toReport → r.check = .ok () → N r.operationID r.newRow) :
    Preserves N (handleResult r) := by
  unfold handleResult recordOperationResult
  split
  · trivial
  · rename_i hl
    refine Tx.Preserves.bind (Q := fun _ => True) ?_ fun outcome _ => ?_
    · cases hc : r.check with
      | error e => trivial
      | ok _ =>
          exact preserves_transaction (upsertOperationResult_preserves hN (hr (by simpa using hl) hc))
    · unfold acknowledge
      split
      · trivial
      · refine Tx.Preserves.bind (preserves_transaction ?_) fun _ _ => trivial
        exact preserves_other (fun _ => rfl) preserves_end

omit hN in
theorem run_preserves {x : BackupM α} (hx : Preserves N x.run) : Preserves N (run x) :=
  Tx.Preserves.bind (preserves_transaction hx) fun _ _ => trivial

def Call.Inserts (N : UUID → Operation → Prop) : Call → Prop
  | .progress p => reportedOperationLinks p.toReport → p.check = .ok () → N p.operationID p.newRow
  | .result r => reportedOperationLinks r.toReport → r.check = .ok () → N r.operationID r.newRow
  | .create id target _ => ∀ l p now, target.Gives N l → N id (manualRow id l p now)
  | _ => True

theorem call_preserves {c : Call} (hc : c.Inserts N) : Preserves N c.program := by
  cases c with
  | progress p => exact handleProgress_preserves hN hc
  | result r => exact handleResult_preserves hN hc
  | create id target key => exact run_preserves (createManualOperation_preserves hc)
  | cancel id now key => exact run_preserves (cancelBackupOperation_preserves hN id now key)
  | dispatch agentID now => exact dispatchQueuedJob_preserves hN agentID now
  | accept agentID id =>
      exact run_preserves (preserves_clock fun now =>
        updateAgentOperation_preserves hN agentID id (accept_identity · now) _)
  | reject agentID id now =>
      exact run_preserves
        (updateAgentOperation_preserves hN agentID id (reject_identity · now) _)
  | close cutoff now => exact run_preserves (closeUnstartedCancellations_preserves hN cutoff now)
  | reconcile cutoff now => exact run_preserves (reconcileLostOperations_preserves hN cutoff now)
  | connect agentID bootID now => exact run_preserves (markAgentConnected_preserves _ _ _)
  | setStatus planID agentID status revision expected now =>
      refine run_preserves (preserves_bind (lockPlanRevision_preserves _ _ _ _) fun _ => ?_)
      exact preserves_view fun _ _ => preserves_other (fun _ => rfl)
        (preserves_other (fun _ => rfl) preserves_end)
  | revise planID agentID status hash revision expected now =>
      refine run_preserves (preserves_bind (lockPlanRevision_preserves _ _ _ _) fun _ => ?_)
      exact preserves_other (fun _ => rfl) (preserves_other (fun _ => rfl) preserves_end)

theorem rowsAre_handle {c : Call} (hc : c.Inserts N) (h : RowsAre N db) (now : Stamp) :
    RowsAre N (db.handle c now) :=
  (Tx.Preserves.solo (call_preserves hN hc) h h).1

end Calls

end RestFleet.Backup
