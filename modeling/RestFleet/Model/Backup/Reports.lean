import RestFleet.Model.Backup.Schema

/-! # Progress and results

`UpsertOperationProgress`, `UpsertOperationResult` and `lockReportedOperation` of
`operations.go`. -/

namespace RestFleet.Backup

open Tx (view write lock claim commit)

def Database.boundPlan? (db : Database) (r : Report) : Option Plan :=
  match db.plans.row r.planID, db.agents.row r.agentID with
  | some p, some a => if a.hostID = p.hostID then some p else none
  | _, _ => none

/-! ## `lockReportedOperation` -/

def Operation.matchesReport (o : Operation) (r : Report) : Bool :=
  o.agentID = r.agentID && o.planID = r.planID && o.planRevision = r.planRevision &&
    (r.attempt = 0 || (o.attempt = r.attempt && o.parentOperationID = r.parentOperationID &&
      o.rootOperationID = r.rootOperationID))

def Operation.allowsChild (previous : Operation) (r : Report) : Bool :=
  previous.agentID = r.agentID && previous.planID = r.planID &&
    previous.planRevision = r.planRevision && previous.status = .failed &&
    previous.errorCode.retryable && r.attempt = previous.attempt + 1 && r.attempt ≤ 10 &&
    r.rootOperationID = some (previous.rootOperationID.getD previous.id)

def Database.linksValid (db : Database) (r : Report) : Bool :=
  match r.parentOperationID with
  | none => r.rootOperationID.isNone && r.attempt ≤ 1
  | some parent =>
    r.rootOperationID.isSome && parent ≠ r.operationID &&
      r.rootOperationID ≠ some r.operationID &&
      (db.operations.row parent).any (·.allowsChild r)

/-- `lockReportedOperation`. The share lock on the parent is left out, which allows more
interleavings. -/
def lockReportedOperation (r : Report) : BackupM Unit := do
  if ← lock (.operation r.operationID) then
    match (← view).operations.row r.operationID with
    | none => throw .planBindingInvalid
    | some o => if o.matchesReport r then return () else throw .planBindingInvalid
  else if (← view).linksValid r then return ()
  else throw .planBindingInvalid

/-! ## Statements -/

def Report.rowAttempt (r : Report) : ℤ := max r.attempt 1

def Operation.updatable (o : Operation) (r : Report) : Bool :=
  o.finishedAt.isNone && o.agentID = r.agentID && o.planID = r.planID &&
    o.planRevision = r.planRevision && (o.parentOperationID = r.parentOperationID || r.attempt = 0)
    && (o.rootOperationID = r.rootOperationID || r.attempt = 0) &&
    (o.attempt = r.rowAttempt || r.attempt = 0)

/-- The columns that both upserts insert alike. -/
def Report.newRow (r : Report) (status : Status) (now : Stamp) : Operation where
  id := r.operationID
  planID := r.planID
  agentID := r.agentID
  source := .scheduled
  status := status
  planRevision := r.planRevision
  configHash := []
  scheduledAt := some r.scheduledAt
  startedAt := none
  finishedAt := none
  exitCode := none
  errorCode := .none
  snapshotID := []
  filesDone := 0
  totalFiles := 0
  bytesDone := 0
  totalBytes := 0
  createdAt := now
  updatedAt := now
  parentOperationID := r.parentOperationID
  rootOperationID := r.rootOperationID
  cancelRequestedAt := none
  cancelReason := []
  dispatchedAt := none
  attempt := r.rowAttempt
  summary := none

def Database.affects (db : Database) (r : Report) : Bool :=
  (db.operations.row r.operationID).all (·.updatable r)

def Progress.newRow (p : Progress) : Operation :=
  { p.toReport.newRow .running p.observedAt with startedAt := some p.observedAt }

def Operation.progress (o : Operation) (p : Progress) : Operation :=
  if o.updatable p.toReport then
    { o with
      status := if o.status = .cancelRequested then .cancelRequested else .running
      updatedAt := p.observedAt
      startedAt := o.startedAt.orElse fun _ => some p.observedAt }
  else o

def Database.upsertProgress (db : Database) (p : Progress) : Database :=
  { db with operations := db.operations.upsert p.operationID p.newRow (·.progress p) }

def Progress.event (p : Progress) : ProgressEvent :=
  ⟨p.filesDone, p.totalFiles, p.bytesDone, p.totalBytes, p.observedAt⟩

def Database.insertEvent (db : Database) (p : Progress) : Database :=
  { db with events := db.events.insert (p.operationID, p.sequence) p.event }

def Database.maxSequence (db : Database) (id : UUID) : ℕ :=
  (db.events.keys.filter (·.1 = id)).foldl (fun n k => max n k.2) 0

def Operation.count (o : Operation) (p : Progress) : Operation :=
  if o.finishedAt.isNone then
    { o with
      filesDone := p.filesDone
      totalFiles := p.totalFiles
      bytesDone := p.bytesDone
      totalBytes := p.totalBytes
      updatedAt := p.observedAt }
  else o

def Database.updateCounters (db : Database) (p : Progress) : Database :=
  if p.sequence = db.maxSequence p.operationID then
    { db with operations := db.operations.modify p.operationID (·.count p) }
  else db

def Database.applyProgress (db : Database) (p : Progress) : Database :=
  let db := db.upsertProgress p
  if (db.events.row (p.operationID, p.sequence)).isSome then db
  else (db.insertEvent p).updateCounters p

def upsertOperationProgress (p : Progress) : BackupM Unit := do
  if ((← view).boundPlan? p.toReport).isNone then throw .planBindingInvalid
  else
    lockReportedOperation p.toReport
    claim (.operation p.operationID)
    if !(← view).affects p.toReport then
      lockReportedOperation p.toReport
      commit
    else
      write (·.upsertProgress p)
      claim (.event p.operationID p.sequence)
      if ((← view).events.row (p.operationID, p.sequence)).isSome then
        write (·.note (.progressed p))
        commit
      else
        write (·.insertEvent p)
        write (·.updateCounters p)
        write (·.note (.progressed p))
        commit

/-! ## Results -/

def Result.newRow (r : Result) : Operation :=
  { r.toReport.newRow r.status r.finishedAt with
    startedAt := some r.scheduledAt
    finishedAt := some r.finishedAt
    exitCode := some r.exitCode
    errorCode := r.errorCode
    snapshotID := r.snapshotID }

def Operation.finish (o : Operation) (r : Result) : Operation :=
  if o.updatable r.toReport then
    { o with
      status := r.status
      finishedAt := some r.finishedAt
      exitCode := some r.exitCode
      errorCode := r.errorCode
      snapshotID := r.snapshotID
      updatedAt := r.finishedAt }
  else o

def Database.upsertResult (db : Database) (r : Result) : Database :=
  { db with operations := db.operations.upsert r.operationID r.newRow (·.finish r) }

def Operation.summarize (o : Operation) (s : Summary) : Operation :=
  { o with
    summary := some s
    filesDone := s.totalFilesProcessed
    totalFiles := s.totalFilesProcessed
    bytesDone := s.totalBytesProcessed
    totalBytes := s.totalBytesProcessed }

def Database.storeSummary (db : Database) (r : Result) : Database :=
  match r.summary with
  | none => db
  | some s => { db with operations := db.operations.modify r.operationID (·.summarize s) }

/-- The health that a result reports; `none` leaves the plan's health as it is. -/
def Status.health : Status → Option Health
  | .succeeded => some .healthy
  | .succeededWithWarnings => some .warning
  | .failed | .lost => some .failed
  | .missed => some .overdue
  | _ => none

def Status.success : Status → Bool
  | .succeeded | .succeededWithWarnings => true
  | _ => false

def Plan.later (p : Plan) (finished : Stamp) : Bool := p.lastResultAt.any (finished < ·)

def greatest (t : Option Stamp) (u : Stamp) : Stamp := t.elim u (max · u)

def Plan.record (p : Plan) (r : Result) : Plan :=
  { p with
    backupHealth :=
      if p.status = .paused then .paused
      else match r.status.health with
      | none => p.backupHealth
      | some h => if p.later r.finishedAt then p.backupHealth else h
    lastOperationID := if p.later r.finishedAt then p.lastOperationID else some r.operationID
    lastResultAt := some (greatest p.lastResultAt r.finishedAt)
    lastSuccessAt :=
      if r.status.success then some (greatest p.lastSuccessAt r.finishedAt) else p.lastSuccessAt
    updatedAt := max p.updatedAt r.finishedAt }

def Database.updatePlan (db : Database) (r : Result) : Database :=
  { db with plans := db.plans.modify r.planID (·.record r) }

def Result.snapshot (r : Result) (p : Plan) : Snapshot where
  planID := r.planID
  agentID := r.agentID
  hostID := p.hostID
  operationID := r.operationID
  capturedAt := r.finishedAt
  filesNew := r.filesNew
  bytesAdded := r.dataAdded

/-- The upsert into `snapshots`; host and repository are those read with the binding. -/
def Database.upsertSnapshot (db : Database) (r : Result) (p : Plan) : Database :=
  { db with
    snapshots := db.snapshots.upsert (p.repositoryID, r.snapshotID) (r.snapshot p) fun _ =>
      r.snapshot p }

def indexSnapshot (r : Result) (p : Plan) : BackupM Unit :=
  if r.snapshotID = [] then return ()
  else do
    claim (.snapshot p.repositoryID r.snapshotID)
    write (·.upsertSnapshot r p)

/-- The tail of `UpsertOperationResult` after a row was affected. -/
def recordResult (r : Result) (p : Plan) : BackupM Unit := do
  write (·.upsertResult r)
  write (·.storeSummary r)
  let _ ← lock (.plan r.planID)
  write (·.updatePlan r)
  indexSnapshot r p
  write (·.note (.resulted r p))
  commit

def Database.applyResult (db : Database) (r : Result) (p : Plan) : Database :=
  let db := ((db.upsertResult r).storeSummary r).updatePlan r
  if r.snapshotID = [] then db else db.upsertSnapshot r p

/-- A terminal row is left as it is. -/
def repeatResult (r : Result) : BackupM Unit := do
  lockReportedOperation r.toReport
  match (← view).operations.row r.operationID with
  | none => throw .planBindingInvalid
  | some o =>
    write (·.note (.repeated r o))
    commit

def upsertOperationResult (r : Result) : BackupM Unit := do
  match (← view).boundPlan? r.toReport with
  | none => throw .planBindingInvalid
  | some p =>
    lockReportedOperation r.toReport
    claim (.operation r.operationID)
    if (← view).affects r.toReport then recordResult r p
    else repeatResult r

end RestFleet.Backup
