import RestFleet.Model.Pending
import RestFleet.Shared.Journal

/-! # The central database

The tables behind admissions, decisions, pending replay and central jobs, with the columns that
the modelled functions read. Instants are nanoseconds since the zero time. -/

namespace RestFleet.Store

abbrev Stamp := ℤ

/-- `date_trunc('second', t)` and `t.Truncate(time.Second)`. -/
def truncate (t : Stamp) : Stamp := t / second * second

structure Admission where
  id : UUID
  owner : UUID
  agentID : UUID
  hostID : UUID
  repositoryID : UUID
  gatewayID : UUID
  storageCredentialID : UUID
  deliveryID : UUID
  gatewaySecretRef : UUID
  resticSecretRef : UUID
  configurationHash : Text
  createdAt : Stamp
  expiresAt : Stamp
  releasedAt : Option Stamp
  deriving DecidableEq

structure Decision where
  admissionID : UUID
  revision : ℕ
  requestID : UUID
  runtimeID : UUID
  lifetime : ℤ
  issuedAt : Stamp
  expiresAt : Option Stamp
  revoked : Bool
  deriving DecidableEq

def Decision.zero : Decision := ⟨0, 0, 0, 0, 0, 0, none, false⟩

structure Origin where
  admissionID : UUID
  runtimeID : UUID
  publicKey : Bytes
  initialSecretRevision : ℕ
  createdAt : Stamp
  closedAt : Option Stamp
  deriving DecidableEq

structure PendingRecord where
  admissionID : UUID
  runtimeID : UUID
  sequence : ℕ
  recordID : UUID
  wireHash : Text
  authorizationRevision : ℕ
  kind : PendingKind
  occurredAt : Stamp
  deriving DecidableEq

structure SecretEnvelope where
  id : UUID
  kind : String
  algorithm : String
  keyID : String
  ciphertext : Bytes
  nonce : Bytes
  wrappedDataKey : Bytes
  wrapNonce : Bytes
  aad : Bytes
  deriving DecidableEq

inductive CredentialStatus where
  | untested | healthy | degraded | expired | disabled
  deriving DecidableEq

structure Credential where
  id : UUID
  provider : Text
  remoteName : Text
  status : CredentialStatus
  secretRef : UUID
  secretRevision : ℕ
  revision : ℕ
  deriving DecidableEq

def Credential.disabled (c : Credential) : Bool := c.status = .disabled

structure CredentialRevision where
  credentialID : UUID
  revision : ℕ
  secretRef : UUID
  deriving DecidableEq

inductive OperationType where
  | credentialTest | repositoryInitialize | snapshotList | snapshotIndex
  deriving DecidableEq

inductive OperationStatus where
  | queued | dispatched | acknowledged | running | succeeded | succeededWithWarnings | failed
  | cancelRequested | canceled | timedOut | lost | rejected
  deriving DecidableEq

def OperationStatus.terminal : OperationStatus → Bool
  | .succeeded | .succeededWithWarnings | .failed | .canceled | .timedOut | .lost | .rejected => true
  | _ => false

structure Operation where
  id : UUID
  type : OperationType
  status : OperationStatus
  storageCredentialID : UUID
  repositoryID : Option UUID
  secretRevision : ℕ
  attempt : ℕ
  finishedAt : Option Stamp
  errorCode : String
  deriving DecidableEq

def Operation.finished (o : Operation) : Bool := o.finishedAt.isSome

/-- A change of status, as `recordOperationEvent` gets it; the first one comes from nowhere. -/
structure Transition where
  previous : Option OperationStatus
  status : OperationStatus
  occurredAt : Stamp
  deriving DecidableEq

structure OperationEvent where
  operationID : UUID
  sequence : ℕ
  transition : Transition
  deriving DecidableEq

inductive JobStatus where
  | ready | leased | done | dead
  deriving DecidableEq

structure Job where
  id : UUID
  operationID : UUID
  status : JobStatus
  availableAt : Stamp
  leaseOwner : Option UUID
  leaseExpiresAt : Option Stamp
  attempt : ℕ
  maxAttempts : ℕ
  readBinding : Option GatewayReadBinding
  deriving DecidableEq

structure RepositoryLease where
  repositoryID : UUID
  operationID : UUID
  owner : UUID
  maintenance : Bool
  expiresAt : Stamp
  deriving DecidableEq

structure Repository where
  id : UUID
  hostID : UUID
  gatewayID : UUID
  storageCredentialID : UUID
  gatewaySecretRef : UUID
  resticSecretRef : UUID
  locked : Bool
  initialized : Bool

structure Delivery where
  id : UUID
  repositoryID : UUID
  configurationHash : Text
  gatewaySecretRef : UUID
  resticSecretRef : UUID
  accepted : Bool

structure DecisionRequest where
  id : UUID
  admissionID : UUID
  owner : UUID
  runtimeID : UUID
  expectedRevision : ℕ
  lifetime : ℤ
  revoke : Bool
  deriving DecidableEq

structure GatewayPendingCommit where
  admissionID : UUID
  owner : UUID
  runtimeID : UUID
  recordID : UUID
  sequence : ℕ
  authorizationRevision : ℕ
  previousHash : Text
  wireHash : Text
  kind : PendingKind
  createdAt : Stamp
  audit : Option AuditEvent
  expectedSecretRevision : ℕ

inductive Effect where
  | audit (event : AuditEvent)
  | refresh (credential : Credential) (next : SecretEnvelope)
  deriving DecidableEq

/-- What a worker did with its job: the reading with which it saw the job free, that of its last check
of the lease, and the health of a tested credential. -/
inductive Work where
  | claimed (owner : UUID) (seenAt checkedAt : Stamp)
  | renewed (owner : UUID) (checkedAt : Stamp)
  | refreshed (owner : UUID) (checkedAt : Stamp) (credential : Credential) (next : SecretEnvelope)
  | finished (owner : UUID) (checkedAt : Stamp) (tested : Option CredentialStatus)
  | retired (seenAt : Stamp) (tested : Option CredentialStatus)
  deriving DecidableEq

/-- What happened to the lease of a repository, with the reading that let it be taken or kept. -/
inductive LeaseChange where
  | keep
  | put (lease : RepositoryLease) (checkedAt : Stamp)
  | extend (repositoryID operationID owner : UUID) (checkedAt expiresAt : Stamp)
  | expire (repositoryID operationID : UUID) (now : Stamp)
  | drop (repositoryID operationID : UUID)
  deriving DecidableEq

/-- What a commit did, with the clock readings that its checks used. No table of the source holds
these entries. -/
inductive Entry where
  | admitted (admission : Admission)
  | decided (request : DecisionRequest) (decision : Decision) (stored : Bool)
  | registered (origin : Origin)
  | recorded (commit : GatewayPendingCommit) (effect : Effect)
  | finished (commit : GatewayPendingCommit) (owner : UUID) (event : AuditEvent)
      (revocation : Option Decision) (closedAt checkedAt releasedAt : Stamp)
  | closed (admissionID runtimeID : UUID) (closedAt : Stamp)
  | released (admissionID owner : UUID) (checkedAt releasedAt : Stamp)
  | recovered (admissionID owner runtimeID : UUID) (now : Stamp) (revocation : Option Decision)
      (closes : Bool) (checkedAt releasedAt : Stamp)
  | receipted (receipt : GatewayPendingReceipt)
  | prepared (admissionID runtimeID : UUID)
  | audited (event : AuditEvent)
  | enqueued (operation : Operation) (job : Job) (now : Stamp)
  | worked (work : Work) (job : Job) (operation : Operation) (path : List Transition)
      (lease : LeaseChange)
  | saved (credential : Credential) (expectedRevision : ℕ) (secret : Option SecretEnvelope)
      (event : AuditEvent)
  | refreshed (admissionID : UUID) (credential : Credential) (next : SecretEnvelope)

structure Database where
  admissions : List Admission
  decisions : List Decision
  origins : List Origin
  records : List PendingRecord
  audits : List AuditEvent
  credentials : List Credential
  revisions : List CredentialRevision
  secrets : List SecretEnvelope
  operations : List Operation
  events : List OperationEvent
  jobs : List Job
  leases : List RepositoryLease
  trail : List Entry

inductive Key where
  | credential (id : UUID)
  | admission (id : UUID)
  | origin (admissionID : UUID)
  | request (id : UUID)
  | record (id : UUID)
  | audit (id : UUID)
  | job (id : UUID)
  | operation (id : UUID)
  | activeOperation (credentialID : UUID)
  | activeRepository (repositoryID : UUID)
  | lease (repositoryID : UUID)
  | secret (id : UUID)
  deriving DecidableEq

/-- What statements get from the clock, from `uuid.NewV7` and from tables outside the model. -/
inductive Choice where
  | clock
  | newV7
  | agentRepository (agentID : UUID)
  | agentDelivery (agentID : UUID)
  | credentialRepositories (credentialID : UUID)
  | jobRepository (repositoryID : UUID) (reading : Bool)
  | provisioning (repositoryID : UUID)
  | readBindingHolds (admissionID repositoryID : UUID)
  | idempotency (scope key : Bytes)
  | nextJob

abbrev Answer : Choice → Type
  | .clock => Stamp
  | .newV7 => UUID
  | .agentRepository _ => Option Repository
  | .agentDelivery _ => Option Delivery
  | .credentialRepositories _ => List UUID
  | .jobRepository _ _ => Option (Repository × Bool)
  | .provisioning _ => Bool
  | .readBindingHolds _ _ => Bool
  | .idempotency _ _ => Option (UUID × Bytes)
  | .nextJob => Option UUID

def present : Key → Database → Bool
  | .credential id, db => db.credentials.any (·.id = id)
  | .admission id, db => db.admissions.any (·.id = id)
  | .origin id, db => db.origins.any (·.admissionID = id)
  | .job id, db => db.jobs.any (·.id = id)
  | .operation id, db => db.operations.any (·.id = id)
  | .lease id, db => db.leases.any (·.repositoryID = id)
  | _, _ => false

abbrev schema : Tx.Schema where
  Db := Database
  Key := Key
  Choice := Choice
  Answer := Answer
  present := present

inductive StoreError where
  | backupAdmission | gatewayDecision | gatewayPending | repositoryBusy | repositoryUnavailable
  | notFound | idempotencyReused | revisionConflict | operationTransition | credentialDisabled
  | credentialTestBusy | storageUnavailable | jobLeaseLost | database
  deriving DecidableEq

abbrev StoreM := Tx.Action schema StoreError

abbrev StoreProgram := Program (Tx.Op schema) (Tx.Reply schema)

def ask (q : Choice) : StoreM (Answer q) := Tx.choose (M := schema) q

def clock : StoreM Stamp := ask .clock

def newV7 : StoreM UUID := ask .newV7

end RestFleet.Store
