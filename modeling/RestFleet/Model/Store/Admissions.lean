import RestFleet.Model.Store.Schema

/-! # Backup admissions

`backup_admissions.go`. -/

namespace RestFleet.Store

open Tx (view write lock claim commit)

/-! ## Queries -/

def Database.admission? (db : Database) (id : UUID) : Option Admission :=
  db.admissions.find? (·.id = id)

def Database.owned? (db : Database) (id owner : UUID) : Option Admission :=
  (db.admission? id).filter (·.owner = owner)

def Database.credential? (db : Database) (id : UUID) : Option Credential :=
  db.credentials.find? (·.id = id)

def Database.decisionsOf (db : Database) (id : UUID) : List Decision :=
  db.decisions.filter (·.admissionID = id)

def Database.originsOf (db : Database) (id : UUID) : List Origin :=
  db.origins.filter (·.admissionID = id)

/-- The query of `ensureNoBackupAdmission`. -/
def Database.admissionBusy (db : Database) (credentialID : UUID) : Bool :=
  db.admissions.any fun a => a.storageCredentialID = credentialID && a.releasedAt.isNone

def Database.operationBusy (db : Database) (credentialID : UUID) : Bool :=
  db.operations.any fun o => o.storageCredentialID = credentialID && !o.finished

def Database.leaseBusy (db : Database) (repositories : List UUID) (now : Stamp) : Bool :=
  db.leases.any fun l => repositories.contains l.repositoryID && now < l.expiresAt

/-- The query of `ensureGatewayAuthorizationNotRevoked`. -/
def Database.revoked (db : Database) (id : UUID) : Bool :=
  (db.decisionsOf id).any (·.revoked)

/-- The query of `ensureGatewayAuthorizationReleasable`. -/
def Database.authorizationBlocked (db : Database) (id : UUID) (now : Stamp) : Bool :=
  ((db.decisionsOf id).any fun d => !d.revoked && d.expiresAt.any (now < ·)) && !db.revoked id

/-- The query of `ensureGatewayPendingReleasable`. -/
def Database.pendingBlocked (db : Database) (id : UUID) : Bool :=
  (db.originsOf id).any (·.closedAt.isNone)

/-! ## Row changes -/

def Database.addAdmission (db : Database) (a : Admission) : Database :=
  { db with admissions := db.admissions ++ [a] }

def Database.setReleased (db : Database) (id owner : UUID) (now : Stamp) : Database :=
  { db with admissions := db.admissions.map fun a =>
      if a.id = id ∧ a.owner = owner then { a with releasedAt := some now } else a }

def Database.addAudit (db : Database) (e : AuditEvent) : Database :=
  { db with audits := db.audits ++ [e] }

def Database.note (db : Database) (e : Entry) : Database := { db with trail := db.trail ++ [e] }

/-! ## Audit events -/

/-- The part of `appendAudit` that the model keeps: identifiers are unique. -/
def appendAudit (e : AuditEvent) : StoreM Unit := do
  claim (.audit e.id)
  if (← view).audits.any (·.id = e.id) then throw .database
  else write (·.addAudit e)

def recordAudit (e : AuditEvent) : StoreM Unit := do
  appendAudit e
  write (·.note (.audited e))
  commit

/-! ## Locks and checks -/

/-- `rejectBackupAdmission` and the other denials: what is committed is an audit event. -/
def reject {α : Type} (cause : StoreError) : StoreM α := do
  commit
  throw cause

def lockOwned (id owner : UUID) : StoreM (Option Admission) := do
  if ((← view).owned? id owner).isNone then return none
  else if ← lock (.admission id) then return (← view).owned? id owner
  else return none

def lockCredential (id : UUID) : StoreM Credential := do
  if ← lock (.credential id) then
    match (← view).credential? id with
    | none => throw .notFound
    | some c => return c
  else throw .notFound

/-- `lockAgentRepository` with the exclusive credential lock; `none` is `ErrNotFound`. -/
def lockAgentRepository (agentID : UUID) : StoreM (Option Repository) := do
  match ← ask (.agentRepository agentID) with
  | none => return none
  | some r =>
    if !r.initialized then return none
    else
      let c ← lockCredential r.storageCredentialID
      if c.disabled then return none else return some r

def ensureNoBackupAdmission (credentialID : UUID) : StoreM Unit := do
  if (← view).admissionBusy credentialID then throw .repositoryBusy
  else return ()

def admissionMatches (a : Admission) (r : Repository) (d : Delivery) (hash : Text) : Bool :=
  a.hostID = r.hostID && a.repositoryID = r.id && a.gatewayID = r.gatewayID &&
    a.storageCredentialID = r.storageCredentialID && a.deliveryID = d.id && d.accepted &&
    d.repositoryID = r.id && d.configurationHash = hash && a.configurationHash = hash &&
    a.gatewaySecretRef = r.gatewaySecretRef && a.resticSecretRef = r.resticSecretRef &&
    d.gatewaySecretRef = r.gatewaySecretRef && d.resticSecretRef = r.resticSecretRef

def ensureLiveBackupAdmission (id owner : UUID) : StoreM Unit := do
  let now ← clock
  if ((← view).owned? id owner).any fun a => a.releasedAt.isNone && now < a.expiresAt then
    return ()
  else throw .backupAdmission

/-- `lockBackupAdmission`; `none` is `ErrBackupAdmission`. -/
def lockBackupAdmission (id owner : UUID) (hash : Text) : StoreM (Option Admission) := do
  match (← view).owned? id owner with
  | none => return none
  | some found =>
    match ← lockAgentRepository found.agentID with
    | none => return none
    | some r =>
      match ← ask (.agentDelivery found.agentID) with
      | none => return none
      | some d =>
        match ← lockOwned id owner with
        | none => return none
        | some a =>
          let now ← clock
          if a.releasedAt.isSome ∨ a.expiresAt ≤ now then return none
          else if r.locked ∨ ¬ admissionMatches a r d hash then return none
          else if (← view).revoked a.id then return none
          else return some a

def checkBackupAdmission (id owner : UUID) (hash : Text) : StoreM Admission := do
  match ← lockBackupAdmission id owner hash with
  | none => reject .backupAdmission
  | some a =>
    commit
    return a

/-! ## `ReserveBackupAdmission` -/

def maxGatewayOfflineWindow : ℤ := maxGatewayAuthorizationSeconds * second

structure AdmissionRequest where
  id : UUID
  owner : UUID
  agentID : UUID
  deliveryID : UUID
  configurationHash : Text
  lifetime : ℤ
  deriving DecidableEq

def AdmissionRequest.validate (r : AdmissionRequest) : Bool :=
  [r.id, r.owner, r.agentID, r.deliveryID].all UUID.isV7 && validPendingHash r.configurationHash &&
    60 * second ≤ r.lifetime && r.lifetime ≤ maxGatewayOfflineWindow && r.lifetime % second = 0

def newAdmission (request : AdmissionRequest) (r : Repository) (now : Stamp) : Admission where
  id := request.id
  owner := request.owner
  agentID := request.agentID
  hostID := r.hostID
  repositoryID := r.id
  gatewayID := r.gatewayID
  storageCredentialID := r.storageCredentialID
  deliveryID := request.deliveryID
  gatewaySecretRef := r.gatewaySecretRef
  resticSecretRef := r.resticSecretRef
  configurationHash := request.configurationHash
  createdAt := now
  expiresAt := now + request.lifetime
  releasedAt := none

def requestMatches (a : Admission) (request : AdmissionRequest) (r : Repository) (d : Delivery) :
    Bool :=
  a.owner = request.owner && a.agentID = request.agentID && a.deliveryID = request.deliveryID &&
    admissionMatches a r d request.configurationHash && a.releasedAt.isNone

/-- The primary key and the partial unique indexes of `gateway_backup_admissions`. -/
def Database.admissionConflict (db : Database) (a : Admission) : Bool :=
  db.admissions.any fun b => b.id = a.id || (b.releasedAt.isNone &&
    (b.repositoryID = a.repositoryID || b.hostID = a.hostID || b.agentID = a.agentID ||
      b.gatewayID = a.gatewayID || b.storageCredentialID = a.storageCredentialID))

def Admission.checks (a : Admission) : Bool :=
  validPendingHash a.configurationHash && a.gatewaySecretRef ≠ a.resticSecretRef &&
    a.createdAt + 60 * second ≤ a.expiresAt && a.expiresAt ≤ a.createdAt + maxGatewayOfflineWindow

def insertAdmission (a : Admission) : StoreM Unit := do
  claim (.admission a.id)
  if (← view).admissionConflict a ∨ ¬ a.checks then throw .database
  else write (·.addAdmission a)

def reserveNew (a : Admission) : StoreM Admission := do
  if (← view).admissionBusy a.storageCredentialID then reject .repositoryBusy
  else
    let repositories ← ask (.credentialRepositories a.storageCredentialID)
    let now ← clock
    let db ← view
    if db.operationBusy a.storageCredentialID ∨ db.leaseBusy repositories now then
      reject .repositoryBusy
    else
      insertAdmission a
      let live ← clock
      if a.expiresAt ≤ live then throw .backupAdmission
      else
        write (·.note (.admitted a))
        commit
        return a

def lockAdmission (id : UUID) : StoreM (Option Admission) := do
  if ← lock (.admission id) then return (← view).admission? id
  else return none

def reserveBackupAdmission (request : AdmissionRequest) : StoreM Admission := do
  if !request.validate then throw .backupAdmission
  else match ← lockAgentRepository request.agentID with
  | none => reject .backupAdmission
  | some r =>
    if r.locked then reject .backupAdmission
    else match ← ask (.agentDelivery request.agentID) with
    | none => reject .backupAdmission
    | some d =>
      match ← lockAdmission request.id with
      | some a =>
        if !requestMatches a request r d || a.expiresAt - a.createdAt ≠ request.lifetime then
          reject .backupAdmission
        else
          let now ← clock
          if a.expiresAt ≤ now then reject .backupAdmission
          else
            commit
            return a
      | none =>
        let now ← clock
        let a := newAdmission request r now
        if !requestMatches a request r d then reject .backupAdmission
        else reserveNew a

/-! ## `ReleaseBackupAdmission` -/

/-- `ensureGatewayAuthorizationReleasable` and `ensureGatewayPendingReleasable`; the result is
the clock reading of the first. -/
def ensureReleasable (id : UUID) : StoreM (Except StoreError Stamp) := do
  let now ← clock
  if (← view).authorizationBlocked id now then return .error .gatewayDecision
  else if (← view).pendingBlocked id then return .error .gatewayPending
  else return .ok now

/-- `releaseBackupAdmission`, with the check constraint on `released_at`. -/
def releaseRow (a : Admission) : StoreM Stamp := do
  let now ← clock
  if now < a.createdAt then throw .database
  else
    write (·.setReleased a.id a.owner now)
    return now

def releaseBackupAdmission (id owner : UUID) : StoreM Unit := do
  match ← lockOwned id owner with
  | none => reject .backupAdmission
  | some a =>
    if a.releasedAt.isSome then commit
    else match ← ensureReleasable id with
    | .error e => reject e
    | .ok checkedAt =>
      let releasedAt ← releaseRow a
      write (·.note (.released a.id a.owner checkedAt releasedAt))
      commit

end RestFleet.Store
