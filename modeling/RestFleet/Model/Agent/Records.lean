import RestFleet.Model.Backup.Server

/-! # The durable operations of an Agent

`operations.go` and `scheduler.go` of the Agent: the records that its bbolt file holds, the
workers that run them, and the automatic retries. -/

namespace RestFleet.Agent

open Backup (Stamp Status ErrorCode Summary)

/-- `OperationRecord`; a zero UUID is `none` and the zero time is `0`. -/
structure OperationRecord where
  id : UUID
  planID : UUID
  planRevision : ℤ
  configHash : Text
  scheduledAt : Stamp
  startedAt : Stamp
  finishedAt : Stamp
  status : Status
  exitCode : ℤ
  errorCode : ErrorCode
  snapshotID : Text
  filesDone : ℤ
  totalFiles : ℤ
  bytesDone : ℤ
  totalBytes : ℤ
  filesNew : ℤ
  dataAdded : ℤ
  uploaded : Bool
  lastReportedAt : Stamp
  parentOperationID : Option UUID
  rootOperationID : Option UUID
  attempt : ℤ
  retryAt : Option Stamp
  deadline : Option Stamp
  summary : Option Summary
  deriving DecidableEq

def OperationRecord.terminal (r : OperationRecord) : Bool := r.status.final

/-- A record without a run: what every literal of the source leaves out is zero. -/
def newRecord (id planID : UUID) (planRevision : ℤ) (configHash : Text) (scheduledAt : Stamp)
    (status : Status) : OperationRecord where
  id := id
  planID := planID
  planRevision := planRevision
  configHash := configHash
  scheduledAt := scheduledAt
  startedAt := 0
  finishedAt := 0
  status := status
  exitCode := 0
  errorCode := .none
  snapshotID := []
  filesDone := 0
  totalFiles := 0
  bytesDone := 0
  totalBytes := 0
  filesNew := 0
  dataAdded := 0
  uploaded := false
  lastReportedAt := 0
  parentOperationID := none
  rootOperationID := none
  attempt := 0
  retryAt := none
  deadline := none
  summary := none

structure RetryPolicy where
  maxAttempts : ℤ
  initialBackoffSeconds : ℤ
  maxBackoffSeconds : ℤ
  deriving DecidableEq

namespace RetryPolicy

def attempts (p : RetryPolicy) : ℤ := if p.maxAttempts = 0 then 1 else p.maxAttempts

/-- The loop of `Backoff`: at most `n` doublings. -/
def double (maximum : ℤ) : ℕ → ℤ → ℤ
  | 0, seconds => seconds
  | n + 1, seconds => if seconds < maximum then double maximum n (seconds * 2) else seconds

def backoff (p : RetryPolicy) (attempt : ℤ) : ℤ :=
  let initial := if p.initialBackoffSeconds = 0 then 60 else p.initialBackoffSeconds
  let maximum := if p.maxBackoffSeconds = 0 then 1800 else p.maxBackoffSeconds
  min (double maximum (attempt - 1).toNat initial) maximum

def validate (p : RetryPolicy) : Bool :=
  let initial := if p.initialBackoffSeconds = 0 then 60 else p.initialBackoffSeconds
  let maximum := if p.maxBackoffSeconds = 0 then 1800 else p.maxBackoffSeconds
  0 ≤ p.maxAttempts && p.maxAttempts ≤ 10 && 0 ≤ p.initialBackoffSeconds &&
    p.initialBackoffSeconds ≤ 86400 && 0 ≤ p.maxBackoffSeconds && p.maxBackoffSeconds ≤ 86400 &&
    initial ≤ maximum

end RetryPolicy

/-- `domain.PlanSchedule`, as far as operations depend on it. -/
structure PlanSchedule where
  planID : UUID
  revision : ℤ
  configHash : Text
  retryPolicy : Option RetryPolicy
  allowConcurrent : Bool
  deriving DecidableEq

/-- The comparison of a plan with those of the active desired state. -/
def PlanSchedule.same (p q : PlanSchedule) : Bool :=
  p.planID = q.planID && p.revision = q.revision && p.configHash = q.configHash

structure OperationOutcome where
  status : Status
  exitCode : ℤ
  errorCode : ErrorCode
  snapshotID : Text
  filesDone : ℤ
  totalFiles : ℤ
  bytesDone : ℤ
  totalBytes : ℤ
  filesNew : ℤ
  dataAdded : ℤ
  summary : Option Summary
  deriving DecidableEq

/-- What the parser of the engine's output lets through. -/
def parsed (filesNew dataAdded : ℤ) (snapshotID : Text) (summary : Option Summary) : Bool :=
  0 ≤ filesNew && 0 ≤ dataAdded && (snapshotID = [] || Backup.validSnapshotID snapshotID) &&
    summary.all fun s => s.validate && s.filesNew = filesNew && s.dataAdded = dataAdded

/-- The outcomes of `BackupExecutor`. -/
def OperationOutcome.valid (o : OperationOutcome) : Bool :=
  o.status ∈ [.succeeded, .succeededWithWarnings, .failed, .canceled] && o.errorCode.valid &&
    -1 ≤ o.exitCode && o.exitCode ≤ 255 &&
    0 ≤ o.filesDone && 0 ≤ o.totalFiles && 0 ≤ o.bytesDone && 0 ≤ o.totalBytes && parsed o.filesNew o.dataAdded o.snapshotID o.summary

def OperationRecord.finish (r : OperationRecord) (o : OperationOutcome) (now : Stamp) :
    OperationRecord :=
  { r with
    status := o.status
    exitCode := o.exitCode
    errorCode := o.errorCode
    snapshotID := o.snapshotID
    filesDone := o.filesDone
    totalFiles := o.totalFiles
    bytesDone := o.bytesDone
    totalBytes := o.totalBytes
    filesNew := o.filesNew
    dataAdded := o.dataAdded
    summary := o.summary
    finishedAt := now }

/-- A goroutine of `executeOperation`, with its own copy of the record. While it waits, the record
is that of a retry whose backoff has not passed. -/
structure Worker where
  record : OperationRecord
  plan : PlanSchedule
  deadline : Stamp
  waiting : Bool
  deriving DecidableEq

/-- The durable records, the active plans with their next runs, and what the process holds in
memory: its workers and the cancels that came before their dispatch. -/
structure State where
  records : Table UUID OperationRecord
  plans : List PlanSchedule
  nextRunAt : UUID → Option Stamp
  maxParallel : ℕ
  workers : List Worker
  canceled : List UUID

namespace State

def putOperation (s : State) (r : OperationRecord) : State :=
  { s with records := s.records.upsert r.id r fun _ => r }

def updateOperation (s : State) (id : UUID) (f : OperationRecord → OperationRecord) : State :=
  { s with records := s.records.modify id f }

def runningOperations (s : State) : List OperationRecord :=
  s.records.rows.filter (·.status = .running)

def markOperationUploaded (s : State) (id : UUID) : State :=
  s.updateOperation id fun r => if r.terminal then { r with uploaded := true } else r

def markOperationReported (s : State) (id : UUID) (now : Stamp) : State :=
  s.updateOperation id fun r => { r with lastReportedAt := now }

/-! ## Scheduling -/

/-- What `advancePlan` finds about a slot that is due. -/
inductive Slot where
  | missed | skipped | run
  deriving DecidableEq

/-- `deadline := scheduled.Add(24 * time.Hour)`, from now on if that has passed. -/
def slotDeadline (scheduled now : Stamp) : Stamp :=
  if scheduled + 86400 * second < now then now + 86400 * second else scheduled + 86400 * second

def slotRecord (p : PlanSchedule) (id : UUID) (scheduled now : Stamp) : Slot → OperationRecord
  | .missed =>
    { newRecord id p.planID p.revision p.configHash scheduled .missed with
      finishedAt := now, errorCode := .misfireGraceExceeded }
  | .skipped =>
    { newRecord id p.planID p.revision p.configHash scheduled .concurrencySkipped with
      finishedAt := now, errorCode := .concurrencySkipped }
  | .run =>
    { newRecord id p.planID p.revision p.configHash scheduled .running with startedAt := now }

/-- The end of `advancePlan`, for a slot that is due. Which of the three a slot is depends on the
schedule, and is left open here. -/
def advancePlan (s : State) (p : PlanSchedule) (id : UUID) (scheduled now : Stamp)
    (next : Option Stamp) (slot : Slot) : State :=
  let s := { s with nextRunAt := Function.update s.nextRunAt p.planID next }
  if (s.records.row id).isSome then s
  else
    let r := slotRecord p id scheduled now slot
    let s := s.putOperation r
    match slot with
    | .run => { s with workers := s.workers ++ [⟨r, p, slotDeadline scheduled now, false⟩] }
    | _ => s

/-! ## Workers -/

def retryDeadline (s : State) (planID : UUID) (deadline : Stamp) : Stamp :=
  match s.nextRunAt planID with
  | some next => if next < deadline then next else deadline
  | none => deadline

def retry (s : State) (p : PlanSchedule) (r : OperationRecord) (deadline : Stamp)
    (allowRetry : Bool) (now : Stamp) (newID : UUID) : Option OperationRecord :=
  if !allowRetry || r.status ≠ .failed || !r.errorCode.retryable then none
  else match p.retryPolicy with
  | none => none
  | some policy =>
    let attempt := if r.attempt = 0 then 1 else r.attempt
    let retryAt := now + policy.backoff attempt * second
    let deadline := s.retryDeadline p.planID deadline
    if policy.attempts ≤ attempt then none
    else if !s.plans.any (·.same p) then none
    else if deadline ≤ retryAt then none
    else some
      { newRecord newID r.planID r.planRevision r.configHash retryAt .running with
        startedAt := now
        parentOperationID := some r.id
        rootOperationID := some (r.rootOperationID.getD r.id)
        attempt := attempt + 1
        retryAt := some retryAt
        deadline := some deadline }

/-- A worker whose run has ended: `finishWithRetry`, and the wait for the retry. -/
def finishWorker (s : State) (w : Worker) (o : OperationOutcome) (allowRetry : Bool) (now : Stamp)
    (newID : UUID) : State :=
  let r := w.record.finish o now
  let ended := { s with workers := s.workers.erase w }
  match s.retry w.plan r w.deadline allowRetry now newID with
  | none => ended.putOperation r
  | some next =>
    let ended := (ended.putOperation r).putOperation next
    { ended with workers := ended.workers ++ [⟨next, w.plan, next.deadline.getD 0, true⟩] }

inductive Wait where
  | canceled | superseded | elapsed
  deriving DecidableEq

def closeRetry (r : OperationRecord) (code : ErrorCode) (now : Stamp) : OperationRecord :=
  { r with status := .canceled, errorCode := code, finishedAt := now }

def endWait (s : State) (w : Worker) (now : Stamp) : Wait → State
  | .canceled =>
    { s with workers := s.workers.erase w }.putOperation (closeRetry w.record .canceled now)
  | .superseded =>
    { s with workers := s.workers.erase w }.putOperation (closeRetry w.record .configSuperseded now)
  | .elapsed => { s with workers := s.workers.erase w ++ [{ w with waiting := false }] }

structure Counters where
  filesDone : ℤ
  totalFiles : ℤ
  bytesDone : ℤ
  totalBytes : ℤ
  filesNew : ℤ
  dataAdded : ℤ
  snapshotID : Text
  summary : Option Summary
  deriving DecidableEq

def Counters.valid (c : Counters) : Bool :=
  0 ≤ c.filesDone && 0 ≤ c.totalFiles && 0 ≤ c.bytesDone && 0 ≤ c.totalBytes &&
    parsed c.filesNew c.dataAdded c.snapshotID c.summary

def Counters.apply (c : Counters) (r : OperationRecord) : OperationRecord :=
  if r.terminal then r
  else
    { r with
      filesDone := c.filesDone
      totalFiles := c.totalFiles
      bytesDone := c.bytesDone
      totalBytes := c.totalBytes
      filesNew := c.filesNew
      dataAdded := c.dataAdded
      summary := c.summary
      snapshotID := if c.snapshotID = [] then r.snapshotID else c.snapshotID }

def recover (now : Stamp) (r : OperationRecord) : OperationRecord :=
  if r.status = .running then
    { r with
      status := .lost
      errorCode := .localOperationRecovered
      finishedAt := now
      uploaded := false }
  else r

def restart (s : State) (now : Stamp) : State :=
  { s with records := s.records.map (recover now), workers := [], canceled := [] }

/-- `CancelOperation` for an operation that does not run; a worker that runs only learns of it by
its context. -/
def cancelOperation (s : State) (id : UUID) : State :=
  if (s.records.row id).any (·.terminal) then s
  else if s.workers.any (·.record.id = id) then s
  else if s.canceled.length < 256 then { s with canceled := id :: s.canceled }
  else s

/-! ## Reports -/

def resultRetryInterval : Stamp := 30 * second

/-- A retry waits until the result of its parent is uploaded. -/
def withheld (s : State) (r : OperationRecord) : Bool :=
  match r.parentOperationID.bind s.records.row with
  | none => false
  | some previous => !previous.uploaded

def due (s : State) (now interval : Stamp) (r : OperationRecord) : Bool :=
  !s.withheld r &&
    (r.terminal && !r.uploaded &&
        (interval = 0 || resultRetryInterval ≤ now - r.lastReportedAt) ||
      r.status = .running && interval ≤ now - r.lastReportedAt)

/-- The order of a batch: results first, then those reported longest ago. -/
def before (a b : OperationRecord) : Bool :=
  if a.terminal ≠ b.terminal then a.terminal
  else if a.lastReportedAt ≠ b.lastReportedAt then a.lastReportedAt < b.lastReportedAt
  else a.id ≤ b.id

/-- `ReportableOperations`, at most `maxReportsPerBatch`. -/
def reportableOperations (s : State) (now interval : Stamp) : List OperationRecord :=
  ((s.records.rows.filter (s.due now interval)).insertionSort fun a b => before a b).take 32

end State

end RestFleet.Agent
