import Mathlib.Data.List.Sort
import RestFleet.Model.Backup.Reports

/-! # Manual operations, cancellation and reconciliation

The other writers of `backup_operations` in `operations.go`, the idempotency records of
`backup_requests.go`, and the changes of plans and Agents that they depend on. -/

namespace RestFleet.Backup

open Tx (view write lock claim commit)

/-! ## Idempotency records -/

def lockBackupRequest (key : RequestKey) : BackupM (Option Operation) := do
  let zero := List.replicate 32 0
  if key.scope = zero ∨ key.key = zero ∨ key.body = zero then throw .idempotencyReused
  else
    claim (.advisory (key.key.take 8))
    let now ← clock
    match (← view).requests.row (key.scope, key.key) with
    | none => return none
    | some request =>
      if request.expiresAt ≤ now then return none
      else if request.body ≠ key.body then throw .idempotencyReused
      else return some request.response

def requestLifetime : Stamp := 86400 * second

def Database.saveRequest (db : Database) (key : RequestKey) (o : Operation) (now : Stamp) :
    Database :=
  let request : Request := ⟨key.body, o, now + requestLifetime⟩
  { db with requests := db.requests.upsert (key.scope, key.key) request fun _ => request }

def saveBackupRequest (key : RequestKey) (o : Operation) : BackupM Stamp := do
  let now ← clock
  claim (.request key.scope key.key)
  write (·.saveRequest key o now)
  return now

/-! ## `CreateManualOperation` -/

/-- Where a new operation comes from: a plan, or the operation that it retries. -/
inductive Target where
  | plan (id : UUID)
  | retry (id : UUID)
  deriving DecidableEq

structure Lineage where
  planID : UUID
  parent : Option UUID
  root : Option UUID
  attempt : ℤ
  deriving DecidableEq

/-- The part of `CreateManualOperation` that follows the parent. The share lock on it is left
out. -/
def lineage : Target → BackupM Lineage
  | .plan id => return ⟨id, none, none, 1⟩
  | .retry id => do
    match (← view).operations.row id with
    | none => throw .notFound
    | some previous =>
      if !previous.status.operationTerminal then throw .operationNotTerminal
      else if 10000 ≤ previous.attempt then throw .operationTransition
      else return ⟨previous.planID, some id, some (previous.rootOperationID.getD previous.id),
        previous.attempt + 1⟩

def manualRow (id : UUID) (l : Lineage) (p : Plan) (now : Stamp) : Operation where
  id := id
  planID := l.planID
  agentID := p.agentID
  source := .manual
  status := .queued
  planRevision := p.desiredRevision
  configHash := p.configHash
  scheduledAt := some now
  startedAt := none
  finishedAt := none
  exitCode := none
  errorCode := .none
  snapshotID := []
  filesDone := 0
  totalFiles := 0
  bytesDone := 0
  totalBytes := 0
  createdAt := now
  updatedAt := now
  parentOperationID := l.parent
  rootOperationID := l.root
  cancelRequestedAt := none
  cancelReason := []
  dispatchedAt := none
  attempt := l.attempt
  summary := none

def Database.insertOperation (db : Database) (o : Operation) : Database :=
  { db with operations := db.operations.insert o.id o }

/-- `select ... from plans where id and archived_at is null for update`. -/
def lockPlan (id : UUID) : BackupM Plan := do
  if ← lock (.plan id) then
    match (← view).plans.row id with
    | none => throw .notFound
    | some p => if p.archived then throw .notFound else return p
  else throw .notFound

def insertManual (o : Operation) (key : RequestKey) : BackupM Operation := do
  claim (.operation o.id)
  if ((← view).operations.row o.id).isSome then throw .alreadyExists
  else
    write (·.insertOperation o)
    let savedAt ← saveBackupRequest key o
    write (·.note (.created o key savedAt))
    commit
    return o

def createManualOperation (id : UUID) (target : Target) (key : RequestKey) :
    BackupM Operation := do
  match ← lockBackupRequest key with
  | some original =>
    commit
    return original
  | none =>
    let l ← lineage target
    let p ← lockPlan l.planID
    if p.status ≠ .active then throw .planStateInvalid
    else
      let now ← clock
      insertManual (manualRow id l p now) key

/-! ## `CancelBackupOperation` -/

def userCanceled : Text := "USER_CANCELED".toList

def Operation.markCancel (o : Operation) (now : Stamp) : Operation :=
  { o with
    cancelRequestedAt := some now
    cancelReason := userCanceled
    updatedAt := now }

/-- The row that a cancel writes: an operation that was never claimed is closed. -/
def Operation.cancel (o : Operation) (now : Stamp) : Operation :=
  if o.status = .queued ∧ o.dispatchedAt = none then
    { o.markCancel now with status := .canceled, finishedAt := some now, errorCode := .canceled }
  else { o.markCancel now with status := .cancelRequested }

/-- The update of a cancel, with its `where finished_at is null`. -/
def Database.cancelRow (db : Database) (id : UUID) (now : Stamp) : Database :=
  { db with operations := db.operations.modify id fun o =>
      if o.finishedAt.isNone then o.cancel now else o }

def lockOperation (id : UUID) : BackupM Operation := do
  if ← lock (.operation id) then
    match (← view).operations.row id with
    | none => throw .notFound
    | some o => return o
  else throw .notFound

def finishCancel (found response : Operation) (now : Stamp) (key : RequestKey) :
    BackupM Operation := do
  let savedAt ← saveBackupRequest key response
  write (·.note (.canceled found now key savedAt))
  commit
  return response

def cancelBackupOperation (id : UUID) (now : Stamp) (key : RequestKey) : BackupM Operation := do
  match ← lockBackupRequest key with
  | some original =>
    commit
    return original
  | none =>
    let o ← lockOperation id
    if o.status.final then throw .operationTerminal
    else if o.status = .cancelRequested then finishCancel o o now key
    else
      write (·.cancelRow id now)
      finishCancel o (o.cancel now) now key

/-! ## `ClaimManualOperationDispatch` -/

def Operation.claimable (o : Operation) (agentID : UUID) (retryBefore : Stamp) : Bool :=
  o.agentID = agentID && o.source = .manual && o.status = .queued &&
    o.dispatchedAt.all (· ≤ retryBefore)

def Database.candidates (db : Database) (agentID : UUID) (retryBefore : Stamp) :
    List Operation :=
  (db.operations.rows.filter (·.claimable agentID retryBefore)).insertionSort
    fun a b => a.createdAt ≤ b.createdAt

def Operation.dispatch (o : Operation) (now : Stamp) : Operation :=
  { o with dispatchedAt := some now, updatedAt := now }

def Database.claimRow (db : Database) (id : UUID) (now : Stamp) : Database :=
  { db with operations := db.operations.modify id (·.dispatch now) }

def recordClaim (o : Operation) (now retryBefore : Stamp) : BackupM (Option Operation) := do
  let stream ← Tx.self
  write (·.claimRow o.id now)
  write (·.note (.claimed stream o.id now retryBefore))
  commit
  return some (o.dispatch now)

/-- `for update skip locked`: the first row that is free and still matches is claimed. -/
def claimFirst (agentID : UUID) (now retryBefore : Stamp) :
    List Operation → BackupM (Option Operation)
  | [] => return none
  | o :: rest => do
    if ← Tx.choose (M := schema) (.skipLocked o.id) then claimFirst agentID now retryBefore rest
    else if ← lock (.operation o.id) then
      match (← view).operations.row o.id with
      | none => claimFirst agentID now retryBefore rest
      | some current =>
        if current.claimable agentID retryBefore then recordClaim current now retryBefore
        else claimFirst agentID now retryBefore rest
    else claimFirst agentID now retryBefore rest

def claimManualOperationDispatch (agentID : UUID) (now retryAfter : Stamp) :
    BackupM (Option Operation) := do
  let db ← view
  claimFirst agentID now (now - retryAfter) (db.candidates agentID (now - retryAfter))

/-! ## Closures -/

def Operation.unstarted (o : Operation) (cutoff : Stamp) : Bool :=
  o.status = .cancelRequested && o.startedAt.isNone && o.finishedAt.isNone &&
    o.cancelRequestedAt.any (· ≤ cutoff)

def Operation.closeUnstarted (o : Operation) (cutoff now : Stamp) : Operation :=
  if o.unstarted cutoff then
    { o with
      status := .canceled
      errorCode := .canceled
      finishedAt := some now
      updatedAt := now }
  else o

/-- The `where` of `ReconcileLostOperations`, with the Agent row that the join read. -/
def Operation.lostWith (o : Operation) (a : Agent) (bootCutoff : Stamp) : Bool :=
  o.agentID = a.id && (o.status = .running || o.status = .cancelRequested) &&
    o.finishedAt.isNone && a.bootChangedAt.any fun t =>
      t ≤ bootCutoff && o.startedAt.getD o.createdAt < t

def Operation.reconcile (o : Operation) (a : Agent) (bootCutoff now : Stamp) : Operation :=
  if o.lostWith a bootCutoff then
    { o with
      status := .lost
      errorCode := .localOperationRecovered
      finishedAt := some now
      updatedAt := now }
  else o

def Database.modifyOperation (db : Database) (id : UUID) (f : Operation → Operation) : Database :=
  { db with operations := db.operations.modify id f }

/-- An update of several rows locks each one and checks it again; the result lists the locked
ones. -/
def updateEach (f : UUID → Operation → Operation) : List UUID → BackupM (List UUID)
  | [] => return []
  | id :: rest => do
    if ← lock (.operation id) then
      write (·.modifyOperation id (f id))
      return id :: (← updateEach f rest)
    else updateEach f rest

def Database.unstarted (db : Database) (cutoff : Stamp) : List UUID :=
  (db.operations.rows.filter (·.unstarted cutoff)).map (·.id)

def closeUnstartedCancellations (cutoff now : Stamp) : BackupM Unit := do
  let db ← view
  let ids ← updateEach (fun _ o => o.closeUnstarted cutoff now) (db.unstarted cutoff)
  write (·.note (.closed cutoff now ids))
  commit

def Database.lostRuns (db : Database) (bootCutoff : Stamp) : List (UUID × Agent) :=
  db.operations.rows.filterMap fun o =>
    ((db.agents.row o.agentID).filter (o.lostWith · bootCutoff)).map fun a => (o.id, a)

def reconcileRow (runs : List (UUID × Agent)) (bootCutoff now : Stamp) (id : UUID)
    (o : Operation) : Operation :=
  match runs.find? (·.1 = id) with
  | none => o
  | some (_, a) => o.reconcile a bootCutoff now

def reconcileLostOperations (bootCutoff now : Stamp) : BackupM Unit := do
  let db ← view
  let runs := db.lostRuns bootCutoff
  let ids ← updateEach (reconcileRow runs bootCutoff now) (runs.map (·.1))
  write (·.note (.reconciled bootCutoff now runs ids))
  commit

/-! ## Answers of the Agent -/

def updateAgentOperation (agentID id : UUID) (f : Operation → Operation) (entry : Entry) :
    BackupM Unit := do
  if ← lock (.operation id) then
    if ((← view).operations.row id).any (·.agentID = agentID) then
      write (·.modifyOperation id f)
      write (·.note entry)
      commit
    else throw .planBindingInvalid
  else throw .planBindingInvalid

def Operation.reject (o : Operation) (now : Stamp) : Operation :=
  if o.source = .manual ∧ (o.status = .queued ∨ o.status = .running ∨
      o.status = .cancelRequested) ∧ o.finishedAt = none then
    { o with
      status := .failed
      errorCode := .agentRejected
      finishedAt := some now
      updatedAt := now }
  else o

def rejectManualOperation (agentID id : UUID) (now : Stamp) : BackupM Unit :=
  updateAgentOperation agentID id (·.reject now) (.rejected id now)

def Operation.accept (o : Operation) (now : Stamp) : Operation :=
  if (o.status = .queued ∨ o.status = .cancelRequested) ∧ o.finishedAt = none then
    { o with
      status := if o.status = .queued then .running else o.status
      startedAt := o.startedAt.orElse fun _ => some now
      updatedAt := now }
  else o

/-- `MarkOperationDispatched`; its `now()` is the time of the transaction. -/
def markOperationDispatched (agentID id : UUID) : BackupM Unit := do
  let now ← clock
  updateAgentOperation agentID id (·.accept now) (.accepted id now)

/-! ## Plans and Agents -/

def Status.planHealth : Status → Health
  | .succeeded => .healthy
  | .succeededWithWarnings => .warning
  | .missed => .overdue
  | _ => .failed

def Status.counts : Status → Bool
  | .succeeded | .succeededWithWarnings | .failed | .lost | .missed => true
  | _ => false

/-- `order by finished_at desc, id desc`: nulls come first. -/
def Operation.newerThan (o b : Operation) : Bool :=
  match o.finishedAt, b.finishedAt with
  | none, some _ => true
  | some _, none => false
  | none, none => b.id < o.id
  | some t, some u => u < t || (t = u && b.id < o.id)

def newestOf (best : Option Operation) (o : Operation) : Option Operation :=
  match best with
  | none => some o
  | some b => if o.newerThan b then some o else some b

def Database.newest (db : Database) (planID : UUID) : Option Operation :=
  (db.operations.rows.filter fun o => o.planID = planID && o.status.counts).foldl newestOf none

/-- The health of a plan that becomes `ACTIVE`, from the newest operation that counts. -/
def Plan.recomputedHealth (p : Plan) (newest : Option Operation) : Health :=
  match newest with
  | some o => o.status.planHealth
  | none => if p.lastSuccessAt.isNone then .neverRun else .healthy

def Plan.setStatus (p : Plan) (status : PlanStatus) (newest : Option Operation) (now : Stamp) :
    Plan :=
  { p with
    status := status
    updatedAt := now
    backupHealth :=
      if status = .paused then .paused
      else if status = .active then p.recomputedHealth newest
      else p.backupHealth
    nextRunAt := if status = .paused then none else p.nextRunAt }

def Database.modifyPlan (db : Database) (id : UUID) (f : Plan → Plan) : Database :=
  { db with plans := db.plans.modify id f }

/-- `lockPlanAgent` and the checks that follow it. -/
def lockPlanRevision (id agentID : UUID) (expectedRevision : ℤ) (expectedStatus : PlanStatus) :
    BackupM Unit := do
  match (← view).plans.row id with
  | none => throw .notFound
  | some found =>
    if ← lock (.agent found.agentID) then
      if found.agentID ≠ agentID then throw .planBindingInvalid
      else
        let p ← lockPlan id
        if p.desiredRevision ≠ expectedRevision then throw .revisionConflict
        else if p.status ≠ expectedStatus then throw .planStateInvalid
        else return ()
    else throw .notFound

/-- `UpdatePlanStatus`; the subquery reads what the statement sees. -/
def updatePlanStatus (id agentID : UUID) (status : PlanStatus) (expectedRevision : ℤ)
    (expectedStatus : PlanStatus) (now : Stamp) : BackupM Unit := do
  lockPlanRevision id agentID expectedRevision expectedStatus
  let newest := (← view).newest id
  write (·.modifyPlan id (·.setStatus status newest now))
  write (·.note (.planned id status newest now))
  commit

def Plan.revise (p : Plan) (status : PlanStatus) (configHash : Text) (now : Stamp) : Plan :=
  { p with
    status := status
    configHash := configHash
    desiredRevision := p.desiredRevision + 1
    updatedAt := now }

/-- `SavePlanRevision`, without the configuration itself. -/
def savePlanRevision (id agentID : UUID) (status : PlanStatus) (configHash : Text)
    (expectedRevision : ℤ) (expectedStatus : PlanStatus) (now : Stamp) : BackupM Unit := do
  lockPlanRevision id agentID expectedRevision expectedStatus
  write (·.modifyPlan id (·.revise status configHash now))
  write (·.note (.revised id status configHash now))
  commit

def Database.connectAgent (db : Database) (id : UUID) (bootID : Text) (now : Stamp) : Database :=
  { db with agents := db.agents.modify id fun a =>
      { a with
        bootChangedAt := if a.bootID ≠ bootID ∧ a.bootID ≠ [] then some now else a.bootChangedAt
        bootID := bootID } }

/-- `MarkAgentConnected`, as far as the modelled columns go. -/
def markAgentConnected (id : UUID) (bootID : Text) (now : Stamp) : BackupM Unit := do
  if ← lock (.agent id) then
    write (·.connectAgent id bootID now)
    write (·.note (.connected id bootID now))
    commit
  else throw .notFound

end RestFleet.Backup
