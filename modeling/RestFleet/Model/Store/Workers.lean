import RestFleet.Model.Store.Jobs

/-! # Claiming, renewing, refreshing and completing jobs -/

namespace RestFleet.Store

open Tx (view write lock claim commit)

/-! ## `ClaimCredentialJob` -/

/-- `time.Second * 30`, the length of every lease. -/
def leaseLength : ℤ := 30 * second

def Job.claimable (j : Job) (now : Stamp) : Bool :=
  (j.status = .ready && j.availableAt ≤ now) ||
    (j.status = .leased && j.leaseExpiresAt.any (· ≤ now))

def acquireProvisionLease (c : CredentialJob) (r : Repository) (now : Stamp) :
    StoreM LeaseChange := do
  ensureReadJobBinding c
  claim (.lease r.id)
  let checkedAt ← clock
  if (← view).leases.any (fun l => l.repositoryID = r.id ∧ checkedAt < l.expiresAt) then
    throw .repositoryBusy
  else
    let lease : LeaseChange := .put ⟨r.id, c.operation.id, c.owner, true, now + leaseLength⟩ checkedAt
    write (·.changeLease lease)
    return lease

def claimLease (c : CredentialJob) (now : Stamp) : StoreM LeaseChange :=
  match c.repository with
  | none => return .keep
  | some (r, _) => acquireProvisionLease c r now

def startOperation (o : Operation) (now : Stamp) : StoreM (Operation × List Transition) := do
  if o.status = .queued then
    let (o, dispatched) ← transitionOperation o .dispatched now
    let (o, acknowledged) ← transitionOperation o .acknowledged now
    let (o, running) ← transitionOperation o .running now
    return (o, [dispatched, acknowledged, running])
  else if o.status = .running then return (o, [])
  else throw .operationTransition

/-- The second check of `ClaimCredentialJob` for a bound read. -/
def ensureStillBound (c : CredentialJob) : StoreM Unit :=
  if c.job.readBinding.isSome then ensureReadJobBinding c else return ()

def claimedJob (j : Job) (owner : UUID) (now : Stamp) : Job :=
  { j with status := .leased, leaseOwner := some owner, leaseExpiresAt := some (now + leaseLength)
           attempt := j.attempt + 1 }

/-- The end of `ClaimCredentialJob` for a job that was free at `seenAt`. -/
def takeJob (c : CredentialJob) (seenAt now : Stamp) : StoreM CredentialJob := do
  let lease ← claimLease c now
  let j := claimedJob c.job c.owner now
  write (·.setJob j)
  let o := { c.operation with attempt := c.job.attempt + 1 }
  write (·.setOperation o)
  let (o, path) ← startOperation o now
  ensureProvisionLease c
  ensureStillBound c
  let checkedAt ← ensureCredentialLease j.id c.owner
  write (·.note (.worked (.claimed c.owner seenAt checkedAt) j o path lease))
  commit
  return { c with job := j, operation := o }

/-- What a claim does with a job whose binding no longer holds, and with an exhausted one. -/
def retireJob {α : Type} (c : CredentialJob) (seenAt : Stamp) (finish : StoreM Finish) :
    StoreM α := do
  let f ← finish
  noteFinish c (fun f => .retired seenAt f.tested) f
  commit
  throw .notFound

def withCode (c : CredentialJob) (code : String) : CredentialJob :=
  { c with operation := { c.operation with errorCode := code } }

def claimLoaded (c : CredentialJob) (owner : UUID) (seenAt : Stamp) : StoreM CredentialJob := do
  let now ← clock
  match ← readJobBinding c with
  | some e =>
    if c.job.readBinding.isNone ∨ (e ≠ .repositoryBusy ∧ e ≠ .repositoryUnavailable) then throw e
    else retireJob c seenAt (finishSnapshotReadJob (withCode c "REPOSITORY_UNAVAILABLE")
      (if c.operation.status = .queued then .rejected else .failed) now)
  | none =>
    if c.job.maxAttempts ≤ c.job.attempt then
      retireJob c seenAt (finishCredentialJob (withCode c "WORKER_LOST") .timedOut now)
    else takeJob { c with owner } seenAt now

def claimCredentialJob (owner : UUID) : StoreM CredentialJob := do
  if owner = 0 then throw .jobLeaseLost
  else match ← ask .nextJob with
  | none => throw .notFound
  | some id =>
    match ← lockJob id with
    | none => throw .notFound
    | some j =>
      let seenAt ← clock
      if !j.claimable seenAt then throw .notFound
      else
        let c ← loadJob j 0
        claimLoaded c owner seenAt

/-! ## Renewing and refreshing -/

def renewLease (c : CredentialJob) : StoreM LeaseChange := do
  match c.repository with
  | none => return .keep
  | some (r, _) =>
    if ← lock (.lease r.id) then
      let checkedAt ← clock
      if (← view).leases.any (fun l => l.isOf r.id c.operation.id ∧ l.owner = c.owner ∧
          checkedAt < l.expiresAt) then
        let now ← clock
        let lease : LeaseChange :=
          .extend r.id c.operation.id c.owner checkedAt (now + leaseLength)
        write (·.changeLease lease)
        return lease
      else throw .jobLeaseLost
    else throw .jobLeaseLost

def renewCredentialJob (id owner : UUID) : StoreM Unit := do
  let c ← lockCredentialJob id owner
  ensureStillBound c
  let checkedAt ← ensureCredentialLease id owner
  let now ← clock
  let j := { c.job with leaseExpiresAt := some (now + leaseLength) }
  write (·.setJob j)
  let lease ← renewLease c
  write (·.note (.worked (.renewed owner checkedAt) j c.operation [] lease))
  commit

def repositoryUnavailable (c : CredentialJob) : Bool := c.repository.any fun r => !r.2

def refreshCredentialJob (id owner : UUID) (expected : ℕ) (next : SecretEnvelope) :
    StoreM Credential := do
  let c ← lockCredentialJob id owner
  if c.job.readBinding.isSome then throw .operationTransition
  else if !credentialUnchanged c || c.operation.secretRevision ≠ expected ||
      repositoryUnavailable c then throw .revisionConflict
  else
    storeRefreshed c.credential next
    let o := { c.operation with secretRevision := c.credential.secretRevision + 1 }
    write (·.setOperation o)
    ensureProvisionLease c
    let checkedAt ← ensureCredentialLease id owner
    write (·.note (.worked (.refreshed owner checkedAt c.credential next) c.job o [] .keep))
    commit
    return c.credential.refreshed next.id

/-! ## Completing -/

def validCredentialTestCode (code : String) : Bool :=
  code ∈ ["", "CONNECTION_FAILED", "TEST_TIMED_OUT", "CONFIG_UNSAFE", "REFRESH_FAILED",
    "CREDENTIAL_CHANGED", "CREDENTIAL_DISABLED", "SECRET_UNAVAILABLE", "WORKER_LOST"]

/-- The code that a changed or disabled credential puts in place of the reported one. -/
def credentialCode (c : CredentialJob) (code : String) : String :=
  if credentialUnchanged c then code
  else if c.credential.disabled then "CREDENTIAL_DISABLED" else "CREDENTIAL_CHANGED"

/-- The status of a code, where `timedOut` is the code of a timeout. -/
def codeStatus (code timedOut : String) (success : OperationStatus) : OperationStatus :=
  if code = "" then success else if code = timedOut then .timedOut else .failed

def commitFinish (c : CredentialJob) (f : Finish) : StoreM Unit := do
  noteFinish c (fun f => .finished c.owner f.checkedAt f.tested) f
  commit

def completeCredentialJob (id owner : UUID) (code : String) : StoreM Unit := do
  if !validCredentialTestCode code then throw .operationTransition
  else
    let c ← lockCredentialJob id owner
    let now ← clock
    let code := credentialCode c code
    let _ ← ensureCredentialLease id owner
    let f ← finishCredentialJob (withCode c code) (codeStatus code "TEST_TIMED_OUT" .succeeded) now
    commitFinish c f

/-- `CompleteRepositoryJob`; `valid` is `ValidInitializeCode`, `initialized` is
`ValidInitializedRepository`. -/
def completeRepositoryJob (id owner : UUID) (code : String) (valid initialized : Bool) :
    StoreM Unit := do
  if !valid || (code = "" && !initialized) then throw .operationTransition
  else
    let c ← lockCredentialJob id owner
    match c.repository with
    | none => throw .operationTransition
    | some (r, available) =>
      let now ← clock
      let code := if !available then "REPOSITORY_UNAVAILABLE" else credentialCode c code
      let f ← finishRepositoryJob (withCode c code) r
        (codeStatus code "INITIALIZE_TIMED_OUT" .succeeded) now initialized
      commitFinish c f

def boundCode (c : CredentialJob) (code : String) : StoreM String := do
  if c.job.readBinding.isNone then return code
  else match ← readJobBinding c with
  | none => return code
  | some e =>
    if e ≠ .repositoryBusy ∧ e ≠ .repositoryUnavailable then throw e
    else return "REPOSITORY_UNAVAILABLE"

/-- The binding is checked once more before a successful read commits. -/
def ensureReadResult (c : CredentialJob) (code : String) : StoreM Unit :=
  if code = "" then ensureStillBound c else return ()

/-- `FinishSnapshotListJob` and `FinishSnapshotIndexJob`; `valid` is the check of the code and
`result` the status of a result that passes its checks. -/
def finishSnapshotJob (type : OperationType) (timedOut : String) (id owner : UUID)
    (code : String) (valid : Bool) (result : Option OperationStatus) : StoreM Unit := do
  if !valid then throw .operationTransition
  else
    let c ← lockCredentialJob id owner
    if c.operation.type ≠ type ∨ c.repository.isNone then throw .operationTransition
    else
      let now ← clock
      let code ← boundCode c
        (if repositoryUnavailable c then "REPOSITORY_UNAVAILABLE" else credentialCode c code)
      if code = "" ∧ ¬ result.any (·.success) then throw .operationTransition
      else
        let f ← finishSnapshotReadJob (withCode c code)
          (codeStatus code timedOut (result.getD .failed)) now
        ensureReadResult c code
        commitFinish c f

def finishSnapshotListJob (id owner : UUID) (code : String) (valid : Bool)
    (result : Option OperationStatus) : StoreM Unit :=
  finishSnapshotJob .snapshotList "SCAN_TIMED_OUT" id owner code valid result

def finishSnapshotIndexJob (id owner : UUID) (code : String) (valid : Bool)
    (result : Option OperationStatus) : StoreM Unit :=
  finishSnapshotJob .snapshotIndex "INDEX_TIMED_OUT" id owner code valid result

end RestFleet.Store
