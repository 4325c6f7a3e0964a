import RestFleet.Model.Backup.Control

/-! # The server side of backup operations

`operations.go` of the control plane and the cases of the Agent stream that reach it. Whatever a
stream sends is noted at the moment it is sent. -/

namespace RestFleet.Backup

open Tx (view write commit transaction)

def validOperationID (id : UUID) : Bool := (id.version = 7 || id.version = 5) && id.rfc4122

/-- `reportedOperationLinks`; an absent link is the empty string. -/
def reportedOperationLinks (r : Report) : Bool :=
  0 ≤ r.attempt && r.attempt ≤ 10000 &&
    match r.parentOperationID, r.rootOperationID with
    | none, none => r.attempt ≤ 1
    | some p, some q => validOperationID p && validOperationID q && 2 ≤ r.attempt
    | _, _ => false

def Report.identified (r : Report) : Bool :=
  validOperationID r.operationID && r.planID.isV7 && r.agentID.isV7

def Progress.check (p : Progress) : Except BackupError Unit :=
  if !p.toReport.identified then .error .notFound
  else if p.planRevision < 1 ∨ p.sequence = 0 ∨ 2 ^ 63 ≤ p.sequence ∨
      p.stage ≠ "backup".toList ∨ p.scheduledAt = 0 ∨ p.observedAt = 0 ∨ p.filesDone < 0 ∨
      p.totalFiles < 0 ∨ p.bytesDone < 0 ∨ p.totalBytes < 0 then .error .invalidProgress
  else .ok ()

/-- A lower-case SHA-256 in hexadecimal. -/
def validSnapshotID (s : Text) : Bool :=
  (Text.hexDecode s).isSome && s.length = 64 && s = s.map Char.toLower

def Result.check (r : Result) : Except BackupError Unit :=
  if !r.toReport.identified then .error .notFound
  else if r.planRevision < 1 ∨ r.scheduledAt = 0 ∨ r.finishedAt = 0 ∨ r.filesNew < 0 ∨
      r.dataAdded < 0 ∨ r.exitCode < -1 ∨ 255 < r.exitCode ∨ ¬ r.errorCode.valid then
    .error .invalidResult
  else if r.snapshotID ≠ [] ∧ ¬ validSnapshotID r.snapshotID then .error .invalidSnapshotID
  else if r.summary.any fun s => !s.validate || s.filesNew ≠ r.filesNew ||
      s.dataAdded ≠ r.dataAdded then .error .invalidSummary
  else if !r.status.final then .error .invalidStatus
  else .ok ()

def recordOperationProgress (p : Progress) : BackupProgram (Except BackupError Unit) :=
  match p.check with
  | .error e => return .error e
  | .ok _ => transaction (upsertOperationProgress p)

def recordOperationResult (r : Result) : BackupProgram (Except BackupError Unit) :=
  match r.check with
  | .error e => return .error e
  | .ok _ => transaction (upsertOperationResult r)

def send (e : Entry) : BackupM Unit := do
  write (·.note e)
  commit

def handleProgress (p : Progress) : BackupProgram Unit :=
  if !reportedOperationLinks p.toReport then return ()
  else do
    let _ ← recordOperationProgress p
    return ()

def acknowledge (r : Result) : Except BackupError Unit → BackupProgram Unit
  | .error _ => return ()
  | .ok _ => do
    let _ ← transaction (send (.acknowledged r))
    return ()

def handleResult (r : Result) : BackupProgram Unit :=
  if !reportedOperationLinks r.toReport then return ()
  else do
    let outcome ← recordOperationResult r
    acknowledge r outcome

def dispatchRetryAfter : Stamp := 15 * second

def readOperation (id : UUID) : BackupM (Operation × ℕ) := do
  let db ← view
  match db.operations.row id with
  | none => throw .notFound
  | some o => return (o, db.trail.length)

def sendDispatch (id : UUID) (claimedAt : Stamp) (seen : ℕ) : BackupM Unit := do
  let stream ← Tx.self
  send (.dispatched stream id claimedAt seen)

def dispatchIfQueued (claimedAt : Stamp) :
    Except BackupError (Operation × ℕ) → BackupProgram Unit
  | .ok (current, seen) =>
    if current.status ≠ .queued then return ()
    else do
      let _ ← transaction (sendDispatch current.id claimedAt seen)
      return ()
  | .error _ => return ()

def dispatchClaimed (claimedAt : Stamp) :
    Except BackupError (Option Operation) → BackupProgram Unit
  | .ok (some o) => do
    let current ← transaction (readOperation o.id)
    dispatchIfQueued claimedAt current
  | _ => return ()

/-- `dispatchQueuedJob`; `now` is the clock reading of `ClaimQueuedJob`. -/
def dispatchQueuedJob (agentID : UUID) (now : Stamp) : BackupProgram Unit := do
  let claimed ← transaction (claimManualOperationDispatch agentID now dispatchRetryAfter)
  dispatchClaimed now claimed

inductive Call where
  | progress (p : Progress)
  | result (r : Result)
  | create (id : UUID) (target : Target) (key : RequestKey)
  | cancel (id : UUID) (now : Stamp) (key : RequestKey)
  | dispatch (agentID : UUID) (now : Stamp)
  | accept (agentID id : UUID)
  | reject (agentID id : UUID) (now : Stamp)
  | close (cutoff now : Stamp)
  | reconcile (bootCutoff now : Stamp)
  | connect (agentID : UUID) (bootID : Text) (now : Stamp)
  | setStatus (planID agentID : UUID) (status : PlanStatus) (expectedRevision : ℤ)
      (expectedStatus : PlanStatus) (now : Stamp)
  | revise (planID agentID : UUID) (status : PlanStatus) (configHash : Text)
      (expectedRevision : ℤ) (expectedStatus : PlanStatus) (now : Stamp)

def run {α : Type} (body : BackupM α) : BackupProgram Unit := do
  let _ ← transaction body
  return ()

def Call.program : Call → BackupProgram Unit
  | .progress p => handleProgress p
  | .result r => handleResult r
  | .create id target key => run (createManualOperation id target key)
  | .cancel id now key => run (cancelBackupOperation id now key)
  | .dispatch agentID now => dispatchQueuedJob agentID now
  | .accept agentID id => run (markOperationDispatched agentID id)
  | .reject agentID id now => run (rejectManualOperation agentID id now)
  | .close cutoff now => run (closeUnstartedCancellations cutoff now)
  | .reconcile bootCutoff now => run (reconcileLostOperations bootCutoff now)
  | .connect agentID bootID now => run (markAgentConnected agentID bootID now)
  | .setStatus planID agentID status revision expected now =>
    run (updatePlanStatus planID agentID status revision expected now)
  | .revise planID agentID status hash revision expected now =>
    run (savePlanRevision planID agentID status hash revision expected now)

def arrivals (p : BackupProgram Unit) : Prop := ∃ c : Call, p = c.program

abbrev server : System (Tx.State schema) ℕ (Tx.Op schema) (Tx.Reply schema) :=
  Tx.system (M := schema) arrivals

structure Database.Fresh (db : Database) : Prop where
  operations : db.operations = Table.empty
  snapshots : db.snapshots = Table.empty
  requests : db.requests = Table.empty
  trail : db.trail = []

end RestFleet.Backup
