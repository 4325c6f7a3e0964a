import RestFleet.Model.Text
import RestFleet.Model.Time
import RestFleet.Shared.Journal
import RestFleet.Shared.Table

/-! # The tables behind backup operations

`backup_operations` with what its transactions read and write. Instants are those of `timestamptz`,
counted from the zero time. -/

namespace RestFleet.Backup

abbrev Stamp := ℤ

inductive Status where
  | queued | running | succeeded | succeededWithWarnings | failed | cancelRequested | canceled
  | lost | missed | concurrencySkipped
  deriving DecidableEq

/-- The statuses of an Agent's result, which also refuse a cancel. -/
def Status.final : Status → Bool
  | .queued | .running | .cancelRequested => false
  | _ => true

/-- `domain.OperationTerminal`, which lists neither `MISSED` nor `CONCURRENCY_SKIPPED`. -/
def Status.operationTerminal : Status → Bool
  | .succeeded | .succeededWithWarnings | .failed | .canceled | .lost => true
  | _ => false

inductive ErrorCode where
  | none | executorUnavailable | identityUnavailable | credentialUnavailable | workdirUnavailable
  | configInvalid | canceled | gatewaySessionFailed | gatewayCleanupUnconfirmed | gatewayBusy
  | invalidEngineOutput | partialRead | gatewayUnavailable | gatewayRateLimited
  | repositoryLocked | wrongRepositoryPassword | repositoryMissing | backupFailed
  | unknownExitCode | stateStorageUnavailable | backupTimedOut | preHookFailed | postHookFailed
  | configSuperseded | localOperationRecovered | misfireGraceExceeded | concurrencySkipped
  | agentRejected
  | other (code : Text)
  deriving DecidableEq

def ErrorCode.valid : ErrorCode → Bool
  | .other _ => false
  | _ => true

def ErrorCode.retryable : ErrorCode → Bool
  | .repositoryLocked | .gatewayBusy | .gatewayUnavailable | .gatewayRateLimited => true
  | _ => false

inductive Source where
  | scheduled | manual
  deriving DecidableEq

/-- `domain.BackupSummary`; of the duration only its check is read. -/
structure Summary where
  filesNew : ℤ
  filesChanged : ℤ
  filesUnmodified : ℤ
  dirsNew : ℤ
  dirsChanged : ℤ
  dirsUnmodified : ℤ
  dataAdded : ℤ
  dataAddedPacked : ℤ
  totalFilesProcessed : ℤ
  totalBytesProcessed : ℤ
  backupStart : Option Stamp
  backupEnd : Option Stamp
  durationValid : Bool
  warningCount : ℤ
  deriving DecidableEq

def Summary.validate (s : Summary) : Bool :=
  [s.filesNew, s.filesChanged, s.filesUnmodified, s.dirsNew, s.dirsChanged, s.dirsUnmodified,
    s.dataAdded, s.dataAddedPacked, s.totalFilesProcessed, s.totalBytesProcessed,
    s.warningCount].all (0 ≤ ·) && s.durationValid &&
    match s.backupStart, s.backupEnd with
    | some start, some stop => start ≤ stop
    | _, _ => true

structure Operation where
  id : UUID
  planID : UUID
  agentID : UUID
  source : Source
  status : Status
  planRevision : ℤ
  configHash : Text
  scheduledAt : Option Stamp
  startedAt : Option Stamp
  finishedAt : Option Stamp
  exitCode : Option ℤ
  errorCode : ErrorCode
  snapshotID : Text
  filesDone : ℤ
  totalFiles : ℤ
  bytesDone : ℤ
  totalBytes : ℤ
  createdAt : Stamp
  updatedAt : Stamp
  parentOperationID : Option UUID
  rootOperationID : Option UUID
  cancelRequestedAt : Option Stamp
  cancelReason : Text
  dispatchedAt : Option Stamp
  attempt : ℤ
  summary : Option Summary
  deriving DecidableEq

/-- What progress and results say about the operation they report. -/
structure Report where
  operationID : UUID
  planID : UUID
  agentID : UUID
  planRevision : ℤ
  scheduledAt : Stamp
  parentOperationID : Option UUID
  rootOperationID : Option UUID
  attempt : ℤ
  deriving DecidableEq

structure Progress extends Report where
  sequence : ℕ
  stage : Text
  filesDone : ℤ
  totalFiles : ℤ
  bytesDone : ℤ
  totalBytes : ℤ
  observedAt : Stamp
  deriving DecidableEq

structure Result extends Report where
  status : Status
  errorCode : ErrorCode
  exitCode : ℤ
  snapshotID : Text
  filesNew : ℤ
  dataAdded : ℤ
  finishedAt : Stamp
  summary : Option Summary
  deriving DecidableEq

inductive PlanStatus where
  | draft | pendingApply | active | paused | invalid
  deriving DecidableEq

inductive Health where
  | unknown | healthy | warning | overdue | failed | neverRun | paused
  deriving DecidableEq

structure Plan where
  id : UUID
  hostID : UUID
  agentID : UUID
  repositoryID : UUID
  status : PlanStatus
  desiredRevision : ℤ
  configHash : Text
  archived : Bool
  backupHealth : Health
  lastOperationID : Option UUID
  lastResultAt : Option Stamp
  lastSuccessAt : Option Stamp
  nextRunAt : Option Stamp
  updatedAt : Stamp
  deriving DecidableEq

structure Agent where
  id : UUID
  hostID : UUID
  bootID : Text
  bootChangedAt : Option Stamp
  deriving DecidableEq

structure ProgressEvent where
  filesDone : ℤ
  totalFiles : ℤ
  bytesDone : ℤ
  totalBytes : ℤ
  observedAt : Stamp
  deriving DecidableEq

structure Snapshot where
  planID : UUID
  agentID : UUID
  hostID : UUID
  operationID : UUID
  capturedAt : Stamp
  filesNew : ℤ
  bytesAdded : ℤ
  deriving DecidableEq

structure RequestKey where
  scope : Bytes
  key : Bytes
  body : Bytes
  deriving DecidableEq

structure Request where
  body : Bytes
  response : Operation
  expiresAt : Stamp
  deriving DecidableEq

/-- What a commit did, and what a stream sent. No table of the source holds these entries. `seen`
counts the entries that the status check of a dispatch could see. -/
inductive Entry where
  | progressed (progress : Progress)
  | resulted (result : Result) (plan : Plan)
  | repeated (result : Result) (row : Operation)
  | acknowledged (result : Result)
  | created (operation : Operation) (key : RequestKey) (savedAt : Stamp)
  | canceled (found : Operation) (now : Stamp) (key : RequestKey) (savedAt : Stamp)
  | claimed (stream : ℕ) (id : UUID) (now retryBefore : Stamp)
  | dispatched (stream : ℕ) (id : UUID) (claimedAt : Stamp) (seen : ℕ)
  | accepted (id : UUID) (now : Stamp)
  | rejected (id : UUID) (now : Stamp)
  | closed (cutoff now : Stamp) (ids : List UUID)
  | reconciled (bootCutoff now : Stamp) (runs : List (UUID × Agent)) (ids : List UUID)
  | connected (agentID : UUID) (bootID : Text) (now : Stamp)
  | planned (planID : UUID) (status : PlanStatus) (newest : Option Operation) (now : Stamp)
  | revised (planID : UUID) (status : PlanStatus) (configHash : Text) (now : Stamp)

structure Database where
  agents : Table UUID Agent
  plans : Table UUID Plan
  operations : Table UUID Operation
  events : Table (UUID × ℕ) ProgressEvent
  snapshots : Table (UUID × Text) Snapshot
  requests : Table (Bytes × Bytes) Request
  trail : List Entry

inductive Key where
  | agent (id : UUID)
  | plan (id : UUID)
  | operation (id : UUID)
  | event (operationID : UUID) (sequence : ℕ)
  | snapshot (repositoryID : UUID) (snapshotID : Text)
  | request (scope key : Bytes)
  | advisory (first : Bytes)
  deriving DecidableEq

/-- The database clock, and whether a row is skipped because another transaction holds it. -/
inductive Choice where
  | clock
  | skipLocked (id : UUID)

abbrev Answer : Choice → Type
  | .clock => Stamp
  | .skipLocked _ => Bool

def present : Key → Database → Bool
  | .agent id, db => (db.agents.row id).isSome
  | .plan id, db => (db.plans.row id).isSome
  | .operation id, db => (db.operations.row id).isSome
  | _, _ => false

abbrev schema : Tx.Schema where
  Db := Database
  Key := Key
  Choice := Choice
  Answer := Answer
  present := present

inductive BackupError where
  | notFound | planBindingInvalid | invalidProgress | invalidResult | invalidSnapshotID
  | invalidSummary | invalidStatus | idempotencyReused | operationNotTerminal
  | operationTransition | operationTerminal | planStateInvalid | revisionConflict
  | alreadyExists | database
  deriving DecidableEq

abbrev BackupM := Tx.Action schema BackupError

abbrev BackupProgram := Program (Tx.Op schema) (Tx.Reply schema)

def clock : BackupM Stamp := Tx.choose (M := schema) .clock

def Database.note (db : Database) (e : Entry) : Database := { db with trail := db.trail ++ [e] }

end RestFleet.Backup
