import RestFleet.Model.Store.Pending

/-! # Central jobs

`credential_jobs.go`, `repository_jobs.go`, `gateway_reads.go` and the enqueueing and finishing
functions of `snapshot_list.go` and `snapshot_index.go`. -/

namespace RestFleet.Store

open Tx (view write lock claim commit)

/-! ## Operations -/

def validTransition : OperationStatus → OperationStatus → Bool
  | .queued, .dispatched | .queued, .rejected | .queued, .canceled => true
  | .dispatched, .acknowledged | .dispatched, .lost | .dispatched, .failed => true
  | .acknowledged, .running => true
  | .running, .succeeded | .running, .succeededWithWarnings | .running, .failed
  | .running, .cancelRequested | .running, .timedOut | .running, .lost => true
  | .cancelRequested, .canceled | .cancelRequested, .lost => true
  | _, _ => false

def OperationStatus.success : OperationStatus → Bool
  | .succeeded | .succeededWithWarnings => true
  | _ => false

def OperationType.snapshotRead : OperationType → Bool
  | .snapshotList | .snapshotIndex => true
  | _ => false

def Database.operation? (db : Database) (id : UUID) : Option Operation :=
  db.operations.find? (·.id = id)

def Database.job? (db : Database) (id : UUID) : Option Job := db.jobs.find? (·.id = id)

def Database.addOperation (db : Database) (o : Operation) : Database :=
  { db with operations := db.operations ++ [o] }

def Database.setOperation (db : Database) (o : Operation) : Database :=
  { db with operations := db.operations.map fun x => if x.id = o.id then o else x }

def Operation.enter (o : Operation) (t : Transition) : Operation :=
  { o with status := t.status
           finishedAt := if t.status.terminal then some t.occurredAt else o.finishedAt }

def lastSequence (events : List OperationEvent) (id : UUID) : ℕ :=
  (events.filter (·.operationID = id)).foldl (fun n e => max n e.sequence) 0

def Database.addEvent (db : Database) (id : UUID) (t : Transition) : Database :=
  { db with events := db.events ++ [⟨id, lastSequence db.events id + 1, t⟩] }

/-- `transitionOperation`, with the event that it records. -/
def transitionOperation (o : Operation) (status : OperationStatus) (now : Stamp) :
    StoreM (Operation × Transition) := do
  if validTransition o.status status then
    let t : Transition := ⟨some o.status, status, now⟩
    write (·.setOperation (o.enter t))
    write (·.addEvent o.id t)
    return (o.enter t, t)
  else throw .operationTransition

def Database.addJob (db : Database) (j : Job) : Database := { db with jobs := db.jobs ++ [j] }

def Database.setJob (db : Database) (j : Job) : Database :=
  { db with jobs := db.jobs.map fun x => if x.id = j.id then j else x }

def RepositoryLease.isOf (l : RepositoryLease) (repositoryID operationID : UUID) : Bool :=
  l.repositoryID = repositoryID && l.operationID = operationID && l.maintenance

/-- The leases after a change; `repository_id` is the primary key. -/
def LeaseChange.onLeases (change : LeaseChange) (leases : List RepositoryLease) :
    List RepositoryLease :=
  match change with
  | .keep => leases
  | .put l _ => leases.filter (·.repositoryID ≠ l.repositoryID) ++ [l]
  | .extend repositoryID operationID _ _ expiresAt | .expire repositoryID operationID expiresAt =>
    leases.map fun l => if l.isOf repositoryID operationID then { l with expiresAt } else l
  | .drop repositoryID operationID => leases.filter fun l => !l.isOf repositoryID operationID

def Database.changeLease (db : Database) (change : LeaseChange) : Database :=
  { db with leases := change.onLeases db.leases }

/-- The primary key, `operations_active_credential_idx` and `operations_active_repository_idx`. -/
def Database.operationConflict (db : Database) (o : Operation) : Bool :=
  db.operations.any fun p => p.id = o.id || (!p.finished &&
    (p.storageCredentialID = o.storageCredentialID ||
      (p.repositoryID.isSome && p.repositoryID = o.repositoryID)))

def claimRepository (repository : Option UUID) : StoreM Unit :=
  match repository with
  | none => return ()
  | some id => claim (.activeRepository id)

def insertOperation (o : Operation) : StoreM Unit := do
  claim (.operation o.id)
  claim (.activeOperation o.storageCredentialID)
  claimRepository o.repositoryID
  if (← view).operationConflict o then throw .repositoryBusy
  else write (·.addOperation o)

def insertJob (j : Job) : StoreM Unit := do
  claim (.job j.id)
  if (← view).jobs.any (fun k => k.id = j.id ∨ k.operationID = j.operationID) then throw .database
  else write (·.addJob j)

/-- `update storage_credentials set revision=revision+1`, when the credential itself is tested. -/
def Database.touchTested (db : Database) (o : Operation) : Database :=
  { db with credentials := db.credentials.map fun x =>
      if o.repositoryID.isNone ∧ x.id = o.storageCredentialID then
        { x with revision := x.revision + 1 } else x }

def enqueue (o : Operation) (now : Stamp) (binding : Option GatewayReadBinding) :
    StoreM Operation := do
  insertOperation o
  let id ← newV7
  let j : Job := ⟨id, o.id, .ready, now, none, none, 0, 3, binding⟩
  insertJob j
  write (·.touchTested o)
  write (·.addEvent o.id ⟨none, o.status, now⟩)
  write (·.note (.enqueued o j now))
  commit
  return o

/-! ## Read bindings -/

def validReadBinding (b : GatewayReadBinding) : Bool :=
  [b.repositoryID, b.operationID, b.admissionID, b.runtimeID].all UUID.isV7 &&
    (Text.hexDecode b.configurationHash).isSome && b.configurationHash.length = 64 &&
    b.configurationHash.all fun c => !c.isUpper

/-- The columns of the query in `gatewayReadBinding` that come from modelled tables. -/
def Database.readable (db : Database) (a : Admission) (o : Origin) (hash : Text) (now : Stamp) :
    Bool :=
  now < a.expiresAt && o.closedAt.isNone && a.configurationHash = hash &&
    (latest (db.decisionsOf a.id)).any fun g => !g.revoked && g.runtimeID = o.runtimeID &&
      g.issuedAt ≤ now && g.expiresAt.any (now < ·)

def Database.unreleased? (db : Database) (credentialID : UUID) : Option Admission :=
  db.admissions.find? fun a => a.storageCredentialID = credentialID && a.releasedAt.isNone

/-- `gatewayReadBinding`; the other tables of its join answer `readBindingHolds`. -/
def gatewayReadBinding (r : Repository) (operation : UUID) (hash : Text) :
    StoreM (Except StoreError (Option GatewayReadBinding)) := do
  let now ← clock
  let db ← view
  match db.unreleased? r.storageCredentialID with
  | none => return .ok none
  | some a =>
    match db.originsOf a.id with
    | [] => return .error .repositoryBusy
    | o :: _ =>
      let holds ← ask (.readBindingHolds a.id r.id)
      let b : GatewayReadBinding :=
        ⟨a.repositoryID, operation, a.id, o.runtimeID, a.configurationHash⟩
      if !holds || !db.readable a o hash now || a.repositoryID ≠ r.id then
        return .error .repositoryBusy
      else if validReadBinding b then return .ok (some b)
      else return .error .repositoryUnavailable

structure CredentialJob where
  job : Job
  owner : UUID
  operation : Operation
  credential : Credential
  repository : Option (Repository × Bool)

/-- `ensureReadJobBinding`; the result is its error. -/
def readJobBinding (c : CredentialJob) : StoreM (Option StoreError) := do
  match c.job.readBinding with
  | none =>
    if (← view).admissionBusy c.credential.id then return some .repositoryBusy
    else return none
  | some b =>
    match c.repository with
    | none => return some .operationTransition
    | some (r, available) =>
      if !c.operation.type.snapshotRead then return some .operationTransition
      else if c.credential.disabled || !available then return some .repositoryUnavailable
      else match ← gatewayReadBinding r c.operation.id b.configurationHash with
      | .error e => return some e
      | .ok current =>
        if current = some b then return none else return some .repositoryUnavailable

def ensureReadJobBinding (c : CredentialJob) : StoreM Unit := do
  match ← readJobBinding c with
  | none => return ()
  | some e => throw e

/-! ## Enqueueing -/

def storageOperationCredential (repository : Option UUID) (credentialID : UUID) : StoreM UUID := do
  match repository with
  | none => return credentialID
  | some id =>
    match ← ask (.jobRepository id false) with
    | none => throw .notFound
    | some (r, available) =>
      if !available then throw .repositoryUnavailable
      else
        let now ← clock
        if (← view).leaseBusy [r.id] now then throw .repositoryBusy
        else return r.storageCredentialID

/-- The part of `EnqueueStorageOperation` under the credential lock. -/
def enqueueStorage (id : UUID) (repository : Option UUID) (credentialID : UUID) :
    StoreM Operation := do
  let c ← lockCredential credentialID
  ensureNoBackupAdmission c.id
  if c.disabled then throw .credentialDisabled
  else if (← view).operationBusy c.id then
    throw (if repository.isSome then .repositoryBusy else .credentialTestBusy)
  else
    let now ← clock
    let type := if repository.isSome then .repositoryInitialize else .credentialTest
    enqueue ⟨id, type, .queued, c.id, repository, c.secretRevision, 1, none, ""⟩ now none

def enqueueStorageOperation (id : UUID) (repository : Option UUID) (credentialID : UUID)
    (scope key request : Bytes) : StoreM Operation := do
  if scope.length ≠ 32 ∨ key.length ≠ 32 ∨ request.length ≠ 32 then throw .idempotencyReused
  else match ← ask (.idempotency scope key) with
  | some (original, body) =>
    if body ≠ request then throw .idempotencyReused
    else match (← view).operation? original with
    | none => throw .notFound
    | some o =>
      commit
      return o
  | none =>
    let credentialID ← storageOperationCredential repository credentialID
    enqueueStorage id repository credentialID

/-- `EnqueueSnapshotList` and `EnqueueSnapshotIndex` after the checks of their arguments. -/
def enqueueSnapshotRead (type : OperationType) (id repository : UUID) (hash : Text) :
    StoreM Operation := do
  match ← ask (.jobRepository repository true) with
  | none => throw .notFound
  | some (r, available) =>
    if !available || !r.initialized then throw .repositoryUnavailable
    else if (← view).operations.any (fun o => o.repositoryID = some r.id ∧ ¬ o.finished) then
      throw .repositoryBusy
    else
      let now ← clock
      if (← view).leaseBusy [r.id] now then throw .repositoryBusy
      else
        let c ← lockCredential r.storageCredentialID
        if c.disabled then throw .credentialDisabled
        else match ← gatewayReadBinding r id hash with
        | .error e => throw e
        | .ok binding =>
          let now ← clock
          enqueue ⟨id, type, .queued, c.id, some r.id, c.secretRevision, 1, none, ""⟩ now binding

/-- `EnqueueSnapshotList`; the page request itself is not modelled, `valid` says whether its
checks pass. -/
def enqueueSnapshotList (id repository : UUID) (valid : Bool) (hash : Text) : StoreM Operation :=
  if !valid || id.version ≠ 7 then throw .operationTransition
  else enqueueSnapshotRead .snapshotList id repository hash

def enqueueSnapshotIndex (id repository : UUID) (hash : Text) : StoreM Operation :=
  if id.version ≠ 7 then throw .operationTransition
  else enqueueSnapshotRead .snapshotIndex id repository hash

/-! ## Locking a job -/

def lockJob (id : UUID) : StoreM (Option Job) := do
  if ← lock (.job id) then return (← view).job? id else return none

def lockOperation (id : UUID) : StoreM Operation := do
  if ← lock (.operation id) then
    match (← view).operation? id with
    | none => throw .notFound
    | some o => return o
  else throw .notFound

def operationRepository (o : Operation) : StoreM (Option (Repository × Bool)) := do
  match o.repositoryID with
  | none => return none
  | some id =>
    match ← ask (.jobRepository id o.type.snapshotRead) with
    | none => throw .notFound
    | some (r, available) =>
      if r.storageCredentialID ≠ o.storageCredentialID then throw .operationTransition
      else return some (r, available)

def loadJob (j : Job) (owner : UUID) : StoreM CredentialJob := do
  let o ← lockOperation j.operationID
  let repository ← operationRepository o
  let c ← lockCredential o.storageCredentialID
  return ⟨j, owner, o, c, repository⟩

def Job.leasedBy (j : Job) (owner : UUID) (now : Stamp) : Bool :=
  j.status = .leased && j.leaseOwner = some owner && j.leaseExpiresAt.any (now < ·)

/-- `ensureCredentialLease`; the result is the reading that it used. -/
def ensureCredentialLease (id owner : UUID) : StoreM Stamp := do
  let now ← clock
  if ((← view).job? id).any (·.leasedBy owner now) then return now else throw .jobLeaseLost

def ensureProvisionLease (c : CredentialJob) : StoreM Unit := do
  match c.repository with
  | none => return ()
  | some (r, _) =>
    let now ← clock
    if (← view).leases.any (fun l => l.isOf r.id c.operation.id ∧ l.owner = c.owner ∧
        now < l.expiresAt) then return ()
    else throw .jobLeaseLost

/-- Only a bound read may run beside an admission. -/
def ensureUnbound (c : CredentialJob) : StoreM Unit :=
  if c.job.readBinding.isNone then ensureNoBackupAdmission c.credential.id else return ()

def lockCredentialJob (id owner : UUID) : StoreM CredentialJob := do
  match ← lockJob id with
  | none => throw .jobLeaseLost
  | some j =>
    let now ← clock
    if !j.leasedBy owner now then throw .jobLeaseLost
    else
      let c ← loadJob j owner
      ensureUnbound c
      ensureProvisionLease c
      return c

/-! ## Finishing -/

def credentialUnchanged (c : CredentialJob) : Bool :=
  !c.credential.disabled &&
    (c.job.readBinding.isSome || c.credential.secretRevision = c.operation.secretRevision)

def finishedJob (j : Job) (status : OperationStatus) : Job :=
  { j with status := if status.success then .done else .dead
           leaseOwner := none, leaseExpiresAt := none }

def Job.heldBy (j : Job) (owner : UUID) (now : Stamp) : Bool :=
  j.leaseOwner = some owner && j.leaseExpiresAt.any (now < ·)

/-- `finishJobRow`; the result is the reading that the fence of an owner used. -/
def finishJobRow (c : CredentialJob) (status : OperationStatus) : StoreM Stamp := do
  let now ← clock
  if c.owner ≠ 0 ∧ ¬ ((← view).job? c.job.id).any (·.heldBy c.owner now) then throw .jobLeaseLost
  else
    write (·.setJob (finishedJob c.job status))
    return now

/-- A statement on the lease of a repository, which changes a row only where there is one. -/
def changeLease (repositoryID : UUID) (change : LeaseChange) : StoreM LeaseChange := do
  if ← lock (.lease repositoryID) then
    write (·.changeLease change)
    return change
  else return .keep

structure Finish where
  operation : Operation
  transition : Transition
  checkedAt : Stamp
  tested : Option CredentialStatus
  lease : LeaseChange

/-- The lease checks that only an owner makes; recovery has none. -/
def ensureReadLeases (c : CredentialJob) : StoreM Unit :=
  if c.owner = 0 then return ()
  else do
    let _ ← ensureCredentialLease c.job.id c.owner
    ensureProvisionLease c

def finishSnapshotReadJob (c : CredentialJob) (status : OperationStatus) (now : Stamp) :
    StoreM Finish := do
  match c.repository with
  | none => throw .operationTransition
  | some (r, _) =>
    if !c.operation.type.snapshotRead then throw .operationTransition
    else
      let (o, t) ← transitionOperation c.operation status now
      ensureReadLeases c
      let checkedAt ← finishJobRow c status
      let lease ← changeLease r.id (.drop r.id o.id)
      return ⟨o, t, checkedAt, none, lease⟩

/-- The checks of a successful initialization; `initialized` is `ValidInitializedRepository`. -/
def ensureInitialized (c : CredentialJob) (r : Repository) (status : OperationStatus)
    (initialized : Bool) : StoreM Unit :=
  if status ≠ .succeeded then return ()
  else if !initialized || !credentialUnchanged c then throw .operationTransition
  else do
    if ← ask (.provisioning r.id) then return () else throw .repositoryUnavailable

def ensureRepositoryLease (c : CredentialJob) : StoreM Unit :=
  if c.owner = 0 then return () else ensureProvisionLease c

def finishRepositoryJob (c : CredentialJob) (r : Repository) (status : OperationStatus)
    (now : Stamp) (initialized : Bool) : StoreM Finish := do
  let (o, t) ← transitionOperation c.operation status now
  ensureInitialized c r status initialized
  ensureRepositoryLease c
  let expiresAt ← clock
  let lease ← changeLease r.id (.expire r.id o.id expiresAt)
  let checkedAt ← finishJobRow c status
  return ⟨o, t, checkedAt, none, lease⟩

/-- The health that a test leaves behind, unless the credential changed meanwhile. -/
def testedStatus (c : CredentialJob) (status : OperationStatus) : Option CredentialStatus :=
  if credentialUnchanged c then some (if status = .succeeded then .healthy else .degraded)
  else none

def Credential.tested (x : Credential) : Option CredentialStatus → Credential
  | none => x
  | some status => { x with status, revision := x.revision + 1 }

def Database.setTested (db : Database) (id : UUID) (tested : Option CredentialStatus) : Database :=
  { db with credentials := db.credentials.map fun x => if x.id = id then x.tested tested else x }

def finishCredentialJob (c : CredentialJob) (status : OperationStatus) (now : Stamp) :
    StoreM Finish := do
  if c.operation.type.snapshotRead then finishSnapshotReadJob c status now
  else match c.repository with
  | some (r, _) => finishRepositoryJob c r status now false
  | none =>
    let (o, t) ← transitionOperation c.operation status now
    write (·.setTested c.credential.id (testedStatus c status))
    let checkedAt ← finishJobRow c status
    return ⟨o, t, checkedAt, testedStatus c status, .keep⟩

def noteFinish (c : CredentialJob) (work : Finish → Work) (f : Finish) : StoreM Unit :=
  write (·.note (.worked (work f) (finishedJob c.job f.operation.status) f.operation
    [f.transition] f.lease))

end RestFleet.Store
