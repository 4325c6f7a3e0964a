import RestFleet.Model.Agent.Records

/-! # One Agent and the server

The stream of an Agent, from `client_stream.go` and `report.go`. A message that was sent can be
delivered at any time, and again. The server handles one call after the other. -/

namespace RestFleet.Agent

open Backup (Stamp Database Call)

structure Job where
  operationID : UUID
  planID : UUID
  planRevision : ℤ
  configHash : Text
  notBefore : Stamp
  deadline : Stamp
  parentOperationID : Option UUID
  rootOperationID : Option UUID
  attempt : ℤ
  deriving DecidableEq

inductive Message where
  | progress (p : Backup.Progress)
  | result (r : Backup.Result)
  | accepted (id : UUID)
  | rejected (id : UUID)
  deriving DecidableEq

namespace OperationRecord

def report (r : OperationRecord) (agentID : UUID) : Backup.Report where
  operationID := r.id
  planID := r.planID
  agentID := agentID
  planRevision := r.planRevision
  scheduledAt := r.scheduledAt
  parentOperationID := r.parentOperationID
  rootOperationID := r.rootOperationID
  attempt := r.attempt

def progress (r : OperationRecord) (agentID : UUID) (now : Stamp) (sequence : ℕ) :
    Backup.Progress where
  toReport := r.report agentID
  sequence := sequence
  stage := "backup".toList
  filesDone := r.filesDone
  totalFiles := r.totalFiles
  bytesDone := r.bytesDone
  totalBytes := r.totalBytes
  observedAt := now

def result (r : OperationRecord) (agentID : UUID) : Backup.Result where
  toReport := r.report agentID
  status := r.status
  errorCode := r.errorCode
  exitCode := r.exitCode
  snapshotID := r.snapshotID
  filesNew := r.filesNew
  dataAdded := r.dataAdded
  finishedAt := r.finishedAt
  summary := r.summary

def message (r : OperationRecord) (agentID : UUID) (now : Stamp) (sequence : ℕ) : Message :=
  if r.terminal then .result (r.result agentID) else .progress (r.progress agentID now sequence)

end OperationRecord

namespace State

/-! ## `handleJobDispatch` -/

def jobValid (j : Job) : Bool :=
  j.operationID.isV7 && j.planID.isV7 &&
    match j.parentOperationID with
    | none => true
    | some p => Backup.validOperationID p && j.rootOperationID.any Backup.validOperationID

def knownJob (r : OperationRecord) (j : Job) (agentID : UUID) : Message :=
  if r.planID ≠ j.planID ∨ r.planRevision ≠ j.planRevision ∨ r.configHash ≠ j.configHash then
    .rejected j.operationID
  else if r.terminal then .result (r.result agentID)
  else .accepted j.operationID

def canceledJob (j : Job) (now : Stamp) : OperationRecord :=
  let scheduled := if j.notBefore = 0 then now else j.notBefore
  { newRecord j.operationID j.planID j.planRevision j.configHash scheduled .canceled with
    startedAt := now
    finishedAt := now
    errorCode := .canceled }

def startedJob (j : Job) (now : Stamp) : OperationRecord :=
  { newRecord j.operationID j.planID j.planRevision j.configHash j.notBefore .running with
    startedAt := now
    parentOperationID := j.parentOperationID
    rootOperationID := if j.parentOperationID.isNone then none else j.rootOperationID
    attempt := j.attempt }

/-- No slot is free for the plan, so that the job is left to a later dispatch. -/
def occupied (s : State) (p : PlanSchedule) : Bool :=
  s.maxParallel ≤ s.runningOperations.length ||
    s.runningOperations.any fun r => r.planID = p.planID && !p.allowConcurrent

/-- The part of `handleJobDispatch` for a job of a plan that the Agent has. -/
def startJob (s : State) (p : PlanSchedule) (j : Job) (agentID : UUID) (now : Stamp)
    (persists : Bool) : State × List Message :=
  if j.planRevision ≠ p.revision ∨ j.configHash ≠ p.configHash ∨ j.deadline ≤ now then
    (s, [.rejected j.operationID])
  else if now < j.notBefore then (s, [])
  else if j.operationID ∈ s.canceled then
    let s := { s with canceled := s.canceled.filter (· ≠ j.operationID) }
    if !persists then (s, [.rejected j.operationID])
    else
      let r := canceledJob j now
      (s.putOperation r, [.result (r.result agentID)])
  else if s.occupied p then (s, [])
  else if !persists then (s, [.rejected j.operationID])
  else
    let r := startedJob j now
    let s := s.putOperation r
    ({ s with workers := s.workers ++ [⟨r, p, j.deadline, false⟩] }, [.accepted j.operationID])

/-- `handleJobDispatch`; `persists` says whether the local state can be written. -/
def handleJobDispatch (s : State) (j : Job) (agentID : UUID) (now : Stamp) (persists : Bool) :
    State × List Message :=
  if !jobValid j then (s, [])
  else match s.records.row j.operationID with
  | some r => (s, [knownJob r j agentID])
  | none =>
    match s.plans.find? (·.planID = j.planID) with
    | none => (s, [.rejected j.operationID])
    | some p => s.startJob p j agentID now persists

/-- `reportOperations`, when the stream breaks after `n` messages. -/
def reportOperations (s : State) (agentID : UUID) (now interval : Stamp) (sequence n : ℕ) :
    State × List Message :=
  let batch := (s.reportableOperations now interval).take n
  (batch.foldl (fun s r => s.markOperationReported r.id now) s,
    batch.map fun r => r.message agentID now sequence)

end State

end RestFleet.Agent
