import RestFleet.Model.Storage

/-! # The central control plane

`ReplayGatewayPending` of `server/gateway_pending.go` and `RotateGateway` of
`server/gateway_rotation_linux.go` over the store, and the calls that may run concurrently. -/

namespace RestFleet.Store

open Tx (view write commit transaction)

/-! ## Replay -/

def pendingBinding (a : Admission) (runtime : UUID) : GatewayAuthorizationBinding where
  admissionID := a.id
  owner := a.owner
  runtimeID := runtime
  agentID := a.agentID
  hostID := a.hostID
  repositoryID := a.repositoryID
  gatewayID := a.gatewayID
  storageCredentialID := a.storageCredentialID
  deliveryID := a.deliveryID
  gatewaySecretRef := a.gatewaySecretRef
  resticSecretRef := a.resticSecretRef
  configurationHash := a.configurationHash

def unixStamp (seconds : ℤ) : Stamp := (Time.ofUnix seconds).wall

def replayAudit (r : GatewayPendingRecord) : Option AuditEvent :=
  let h := r.header
  r.event.bind fun e =>
    if eventFits e h.binding then (gatewayAudit e).map fun a =>
      { a with id := h.recordID, requestID := h.recordID, occurredAt := unixStamp h.createdAt }
    else none

def replayCommit (r : GatewayPendingRecord) (runtime : UUID) (wireHash : Text)
    (audit : Option AuditEvent) : GatewayPendingCommit where
  admissionID := r.header.binding.admissionID
  owner := r.header.binding.owner
  runtimeID := runtime
  recordID := r.header.recordID
  sequence := r.header.sequence
  authorizationRevision := r.header.authorizationRevision
  previousHash := r.header.previousHash
  wireHash := wireHash
  kind := r.kind
  createdAt := unixStamp r.header.createdAt
  audit := audit
  expectedSecretRevision := r.expectedSecretRevision

/-- The callback of a refresh record: only the token may change, and it has to. -/
def Site.replayValidator (site : Site) (r : GatewayPendingRecord) (draw : Draw) : Validator :=
  fun c envelope =>
    match site.storedConfig c envelope,
        site.rclone.parseConfig (r.config.getD []) c.remoteName with
    | some previous, some next =>
      if site.rclone.sameExceptToken previous next ∧
          site.rclone.bytes previous ≠ site.rclone.bytes next then
        site.sealStorageConfig c.next next draw
      else none
    | _, _ => none

def replayRecord (site : Site) (r : GatewayPendingRecord) (runtime : UUID) (wireHash : Text)
    (draw : Draw) : StoreM Unit :=
  if r.kind = .audit then
    match replayAudit r with
    | none => throw .gatewayPending
    | some e => commitGatewayPending (replayCommit r runtime wireHash (some e)) none
  else commitGatewayPending (replayCommit r runtime wireHash none) (some (site.replayValidator r draw))

/-- `GatewayPendingOrigin`: two statements without a transaction. -/
def gatewayPendingOrigin (id runtime : UUID) : StoreM (Admission × Origin) := do
  match (← view).origin? id runtime with
  | none => throw .notFound
  | some o =>
    match (← view).admission? o.admissionID with
    | none => throw .notFound
    | some a => return (a, o)

def replayReceipt (r : GatewayPendingRecord) (runtime : UUID) (wireHash : Text) :
    GatewayPendingReceipt :=
  ⟨r.header.binding.admissionID, runtime, r.header.sequence, r.header.recordID, wireHash, 0⟩

def noteReceipt (r : GatewayPendingReceipt) : StoreM Unit := do
  write (·.note (.receipted r))
  commit

/-- `ReplayGatewayPending`: the receipt is signed after the record is committed. -/
def replayGatewayPending (site : Site) (runtime : UUID) (wire : PendingWire) (draw : Draw) :
    StoreProgram Unit :=
  match wire.identity with
  | none => return ()
  | some (id, claimed) =>
    if claimed ≠ runtime then return ()
    else onSuccess (transaction (gatewayPendingOrigin id runtime)) fun (a, o) =>
      match wire.opened o.publicKey with
      | none => return ()
      | some r =>
        if r.header.binding ≠ pendingBinding a o.runtimeID then return ()
        else onSuccess (transaction (replayRecord site r runtime wire.wireHash draw)) fun _ =>
          onSuccess (transaction (noteReceipt (replayReceipt r runtime wire.wireHash))) fun _ =>
            return ()

/-! ## Rotation -/

/-- `GatewayRotationConfig`, as far as the store is concerned. -/
structure RotationConfig where
  current : GatewayAuthorizationBinding
  nextAgentID : UUID
  nextRuntimeID : UUID
  waitSeconds : ℕ

def notePrepared (b : GatewayAuthorizationBinding) : StoreM Unit := do
  write (·.note (.prepared b.admissionID b.runtimeID))
  commit

def prepareGateway (plan : AdmissionRequest) : StoreProgram Unit :=
  onSuccess (transaction (reserveBackupAdmission plan)) fun _ => return ()

def gatewayRuntimeCleanupComplete (id runtime : UUID) : StoreM Bool := do
  if !id.isV7 || !runtime.isV7 then throw .gatewayPending
  else return (← view).cleanupComplete id runtime

/-- The end of `RotateGateway`, once the predecessor was seen released. -/
def prepareSuccessor (c : RotationConfig) (plan : AdmissionRequest) : StoreProgram Unit :=
  onSuccess (transaction (gatewayRuntimeCleanupComplete c.current.admissionID c.current.runtimeID))
    fun terminal =>
      if terminal then
        onSuccess (transaction (notePrepared c.current)) fun _ => prepareGateway plan
      else return ()

def readCurrent (c : RotationConfig) : StoreProgram (Except StoreError (Admission × Decision)) :=
  transaction (latestGatewayAuthorization c.current.admissionID c.current.runtimeID)

def awaitRelease (c : RotationConfig) (plan : AdmissionRequest) : ℕ → StoreProgram Unit
  | 0 => return ()
  | ticks + 1 => onSuccess (readCurrent c) fun (a, _) =>
      if a.releasedAt.isSome then prepareSuccessor c plan else awaitRelease c plan ticks

def withdrawal (c : RotationConfig) (request : UUID) (revision : ℕ) : DecisionRequest where
  id := request
  admissionID := c.current.admissionID
  owner := c.current.owner
  runtimeID := c.current.runtimeID
  expectedRevision := revision
  lifetime := 0
  revoke := true

/-- Withdraw the predecessor. A failed delivery may follow a committed decision, so only the
exact committed revision lets the rotation go on. -/
def withdrawCurrent (c : RotationConfig) (d : Decision) (request : UUID) (delivered : Bool)
    (k : StoreProgram Unit) : StoreProgram Unit := do
  match ← transaction (decideGatewayAuthorization (withdrawal c request d.revision) []) with
  | .ok _ =>
    if delivered then k
    else onSuccess (readCurrent c) fun (_, latest) =>
      if latest.revoked ∧ latest.revision = d.revision + 1 then k else return ()
  | .error _ => onSuccess (readCurrent c) fun (_, latest) =>
      if latest.revoked ∧ latest.revision = d.revision + 1 then k else return ()

def rotateGateway (c : RotationConfig) (plan : AdmissionRequest) (now : Stamp) (request : UUID)
    (delivered : Bool) (ticks : ℕ) : StoreProgram Unit :=
  onSuccess (readCurrent c) fun (a, d) =>
    if a.agentID ≠ c.nextAgentID ∨ pendingBinding a d.runtimeID ≠ c.current then return ()
    else if a.releasedAt.isSome then prepareSuccessor c plan
    else if a.expiresAt - now ≤ (c.waitSeconds + 60) * second then return ()
    else if d.revoked then awaitRelease c plan ticks
    else withdrawCurrent c d request delivered (awaitRelease c plan ticks)

/-! ## Concurrent calls -/

inductive Call where
  | reserve (request : AdmissionRequest)
  | check (id owner : UUID) (hash : Text)
  | release (id owner : UUID)
  | decide (request : DecisionRequest) (hash : Text)
  | register (id owner runtime : UUID) (key : Bytes) (hash : Text)
  | replay (runtime : UUID) (wire : PendingWire) (draw : Draw)
  | close (id owner runtime : UUID) (sequence : ℕ) (hash : Text)
  | recover (id owner runtime : UUID) (source : Bytes)
  | rotate (c : RotationConfig) (plan : AdmissionRequest) (now : Stamp) (request : UUID)
      (delivered : Bool) (ticks : ℕ)
  | audit (event : AuditEvent)
  | enqueueStorage (id : UUID) (repository : Option UUID) (credentialID : UUID)
      (scope key request : Bytes)
  | enqueueList (id repository : UUID) (valid : Bool) (hash : Text)
  | enqueueIndex (id repository : UUID) (hash : Text)
  | create (id : UUID) (remote : Text) (raw : Bytes) (draw : Draw) (event : AuditEvent)
  | replace (id : UUID) (revision : ℕ) (raw : Bytes) (draw : Draw) (access event : AuditEvent)
  | disable (id : UUID) (revision : ℕ) (event : AuditEvent)
  | material (id owner : UUID) (hash : Text) (refreshes : List Refresh)
  | process (owner : UUID) (refreshes : List Refresh)
  | renew (id owner : UUID)
  | completeCredential (id owner : UUID) (code : String)
  | completeRepository (id owner : UUID) (code : String) (valid initialized : Bool)
  | finishList (id owner : UUID) (code : String) (valid : Bool) (result : Option OperationStatus)
  | finishIndex (id owner : UUID) (code : String) (valid : Bool) (result : Option OperationStatus)

def Call.program (site : Site) : Call → StoreProgram Unit
  | .reserve request => call (reserveBackupAdmission request)
  | .check id owner hash => call (checkBackupAdmission id owner hash)
  | .release id owner => call (releaseBackupAdmission id owner)
  | .decide request hash => call (decideGatewayAuthorization request hash)
  | .register id owner runtime key hash =>
    call (registerGatewayPendingOrigin id owner runtime key hash)
  | .replay runtime wire draw => replayGatewayPending site runtime wire draw
  | .close id owner runtime sequence hash =>
    call (closeGatewayPendingOrigin id owner runtime sequence hash)
  | .recover id owner runtime source => call (recoverGatewayAdmission id owner runtime source)
  | .rotate c plan now request delivered ticks => rotateGateway c plan now request delivered ticks
  | .audit event => call (recordAudit event)
  | .enqueueStorage id repository credentialID scope key request =>
    call (enqueueStorageOperation id repository credentialID scope key request)
  | .enqueueList id repository valid hash => call (enqueueSnapshotList id repository valid hash)
  | .enqueueIndex id repository hash => call (enqueueSnapshotIndex id repository hash)
  | .create id remote raw draw event => createStorageCredential site id remote raw draw event
  | .replace id revision raw draw access event =>
    replaceStorageCredential site id revision raw draw access event
  | .disable id revision event => disableStorageCredential id revision event
  | .material id owner hash refreshes => withBackupMaterial site id owner hash refreshes
  | .process owner refreshes => processCredentialJob site owner refreshes
  | .renew id owner => call (renewCredentialJob id owner)
  | .completeCredential id owner code => call (completeCredentialJob id owner code)
  | .completeRepository id owner code valid initialized =>
    call (completeRepositoryJob id owner code valid initialized)
  | .finishList id owner code valid result => call (finishSnapshotListJob id owner code valid result)
  | .finishIndex id owner code valid result =>
    call (finishSnapshotIndexJob id owner code valid result)

/-- A replay presents a wire that the site trusts. -/
def Call.Trusts (site : Site) : Call → Prop
  | .replay _ wire _ => site.trusted wire
  | _ => True

def arrivals (site : Site) (p : StoreProgram Unit) : Prop :=
  ∃ c : Call, c.Trusts site ∧ p = c.program site

def centre (site : Site) : System (Tx.State schema) ℕ (Tx.Op schema) (Tx.Reply schema) :=
  Tx.system (arrivals site)

end RestFleet.Store
