import RestFleet.Model.Store.Decisions
import RestFleet.Model.Store.Secrets

/-! # Pending replay, sealing and recovery

`gateway_pending.go` and `gateway_recovery.go`. -/

namespace RestFleet.Store

open Tx (view write lock claim commit)

/-! ## Queries and row changes -/

def Database.origin? (db : Database) (id runtime : UUID) : Option Origin :=
  (db.originsOf id).find? (·.runtimeID = runtime)

def Database.recordsOf (db : Database) (id runtime : UUID) : List PendingRecord :=
  db.records.filter fun r => r.admissionID = id ∧ r.runtimeID = runtime

def laterTail (tail : ℕ × Text) (r : PendingRecord) : ℕ × Text :=
  if tail.1 < r.sequence then (r.sequence, r.wireHash) else tail

def Database.pendingTail (db : Database) (id runtime : UUID) : ℕ × Text :=
  (db.recordsOf id runtime).foldl laterTail (0, zeroHash)

/-- The query of `GatewayRuntimeCleanupComplete`. -/
def Database.cleanupComplete (db : Database) (id runtime : UUID) : Bool :=
  (db.recordsOf id runtime).any fun r => r.kind = .audit &&
    db.audits.any fun e => e.id = r.recordID && e.action = .runtimeCleanupComplete

def Database.addOrigin (db : Database) (o : Origin) : Database :=
  { db with origins := db.origins ++ [o] }

def Database.setClosed (db : Database) (id runtime : UUID) (now : Stamp) : Database :=
  { db with origins := db.origins.map fun o =>
      if o.admissionID = id ∧ o.runtimeID = runtime then { o with closedAt := some now } else o }

def Database.addRecord (db : Database) (r : PendingRecord) : Database :=
  { db with records := db.records ++ [r] }

/-! ## Origins -/

def lockOrigin (id runtime : UUID) : StoreM (Option Origin) := do
  if ← lock (.origin id) then return (← view).origin? id runtime
  else return none

def lockPendingOrigin (id runtime : UUID) : StoreM (Admission × Origin) := do
  match (← view).admission? id with
  | none => throw .notFound
  | some found =>
    let _ ← lockCredential found.storageCredentialID
    match ← lockAdmission id with
    | none => throw .notFound
    | some a =>
      match ← lockOrigin id runtime with
      | none => throw .notFound
      | some o => return (a, o)

def insertOrigin (a : Admission) (o : Origin) : StoreM Origin := do
  claim (.origin o.admissionID)
  if (← view).origins.any (·.admissionID = o.admissionID) ∨ o.publicKey.length ≠ 32 ∨
      o.initialSecretRevision = 0 ∨ ¬ o.runtimeID.isV7 then throw .database
  else
    write (·.addOrigin o)
    ensureLiveBackupAdmission a.id a.owner
    write (·.note (.registered o))
    commit
    return o

def Database.liveGrant (db : Database) (id runtime : UUID) (now : Stamp) : Bool :=
  (db.decisionsOf id).any fun d => d.runtimeID = runtime && !d.revoked && d.expiresAt.any (now < ·)

def registerGatewayPendingOrigin (id owner runtime : UUID) (key : Bytes) (hash : Text) :
    StoreM Origin := do
  if !runtime.isV7 || key.length ≠ 32 then throw .gatewayPending
  else match ← lockBackupAdmission id owner hash with
  | none => throw .backupAdmission
  | some a =>
    let now ← clock
    if !(← view).liveGrant id runtime now then throw .gatewayPending
    else match (← view).credential? a.storageCredentialID with
    | none => throw .notFound
    | some c =>
      match (← view).originsOf id with
      | existing :: _ =>
        if existing.runtimeID ≠ runtime ∨ existing.publicKey ≠ key ∨ existing.closedAt.isSome then
          throw .gatewayPending
        else
          commit
          return existing
      | [] =>
        let createdAt ← clock
        insertOrigin a ⟨id, runtime, key, c.secretRevision, createdAt, none⟩

def closeOrigin (o : Origin) (now : Stamp) : StoreM Unit :=
  if now < o.createdAt then throw .database
  else write (·.setClosed o.admissionID o.runtimeID now)

def closeGatewayPendingOrigin (id owner runtime : UUID) (sequence : ℕ) (hash : Text) :
    StoreM Unit := do
  if !validPendingHash hash then throw .gatewayPending
  else
    let (a, o) ← lockPendingOrigin id runtime
    if a.id ≠ id ∨ a.owner ≠ owner ∨ (← view).pendingTail id runtime ≠ (sequence, hash) then
      throw .gatewayPending
    else if o.closedAt.isSome then commit
    else if a.releasedAt.isSome then throw .gatewayPending
    else
      let now ← clock
      closeOrigin o now
      write (·.note (.closed o.admissionID o.runtimeID now))
      commit

/-! ## `CommitGatewayPending` -/

/-- The callback that opens, compares and reseals the configuration. -/
abbrev Validator := Credential → SecretEnvelope → Option SecretEnvelope

def GatewayPendingCommit.row (r : GatewayPendingCommit) : PendingRecord :=
  ⟨r.admissionID, r.runtimeID, r.sequence, r.recordID, r.wireHash, r.authorizationRevision,
    r.kind, r.createdAt⟩

/-- The keys and check constraints of `gateway_pending_records`. -/
def Database.recordConflict (db : Database) (r : PendingRecord) : Bool :=
  db.records.any fun q => q.recordID = r.recordID ||
    (q.admissionID = r.admissionID && q.runtimeID = r.runtimeID && q.sequence = r.sequence)

def PendingRecord.checks (r : PendingRecord) : Bool :=
  0 < r.sequence && r.recordID.isV7 && validPendingHash r.wireHash &&
    0 < r.authorizationRevision && (r.kind = .audit || r.kind = .refresh)

def insertRecord (r : PendingRecord) : StoreM Unit := do
  claim (.record r.recordID)
  if (← view).recordConflict r ∨ ¬ r.checks then throw .database
  else write (·.addRecord r)

def commitRefresh (r : GatewayPendingCommit) (validate : Validator) (a : Admission) (o : Origin) :
    StoreM Effect := do
  match (← view).credential? a.storageCredentialID with
  | none => throw .notFound
  | some c =>
    if c.secretRevision ≠ r.expectedSecretRevision ∨ c.secretRevision < o.initialSecretRevision then
      throw .revisionConflict
    else match (← view).secret? c.secretRef with
    | none => throw .notFound
    | some envelope =>
      match validate c envelope with
      | none => throw .gatewayPending
      | some next =>
        if next.kind ≠ "RCLONE_CONFIG" ∨ ¬ next.id.isV7 then throw .gatewayPending
        else
          storeRefreshed c next
          return .refresh c next

def commitEffect (r : GatewayPendingCommit) (validate : Option Validator) (a : Admission)
    (o : Origin) (expires : Stamp) : StoreM Effect :=
  match r.kind, r.audit, validate with
  | .audit, some e, none =>
    if r.expectedSecretRevision ≠ 0 then throw .gatewayPending
    else if e.action = .runtimeCleanupComplete ∧ (¬ gatewayCleanupAudit e ∨ e.id ≠ r.recordID ∨
        e.requestID ≠ r.recordID ∨ e.occurredAt ≠ r.createdAt) then throw .gatewayPending
    else do
      appendAudit e
      return .audit e
  | .refresh, none, some validate =>
    if expires ≤ r.createdAt then throw .gatewayPending
    else commitRefresh r validate a o
  | _, _, _ => throw .gatewayPending

/-- The revocation that cleanup and recovery add after decision `d`. -/
def revocationAfter (d : Decision) (request : UUID) (now : Stamp) : Decision where
  admissionID := d.admissionID
  revision := d.revision + 1
  requestID := request
  runtimeID := d.runtimeID
  lifetime := 0
  issuedAt := now
  expiresAt := none
  revoked := true

def Database.runtimeDecisions (db : Database) (id runtime : UUID) : List Decision :=
  (db.decisionsOf id).filter (·.runtimeID = runtime)

/-- Withdraw after `d` unless that is a withdrawal already. -/
def withdrawAfter (d : Decision) (request : UUID) (now : Stamp) : StoreM (Option Decision) := do
  if d.revoked then return none
  else
    insertDecision (revocationAfter d request now)
    return some (revocationAfter d request now)

/-- Check and release, as the end of cleanup and recovery do. -/
def releaseChecked (a : Admission) : StoreM (Stamp × Stamp) := do
  match ← ensureReleasable a.id with
  | .error e => throw e
  | .ok checkedAt =>
    let releasedAt ← releaseRow a
    return (checkedAt, releasedAt)

def finishGatewayAdmission (a : Admission) (o : Origin) (r : GatewayPendingCommit) (e : AuditEvent) :
    StoreM Unit := do
  match latest ((← view).runtimeDecisions a.id o.runtimeID) with
  | none => throw .notFound
  | some d =>
    let now := truncate (← clock)
    if now < d.issuedAt then throw .gatewayPending
    else
      let revocation ← withdrawAfter d r.recordID now
      let closedAt ← clock
      closeOrigin o closedAt
      let (checkedAt, releasedAt) ← releaseChecked a
      write (·.note (.finished r a.owner e revocation closedAt checkedAt releasedAt))

/-- The terminal record also ends the admission. -/
def noteRecord (r : GatewayPendingCommit) (a : Admission) (o : Origin) (effect : Effect) : StoreM Unit :=
  match effect with
  | .audit e =>
    if e.action = .runtimeCleanupComplete then finishGatewayAdmission a o r e
    else write (·.note (.recorded r (.audit e)))
  | .refresh c next => write (·.note (.recorded r (.refresh c next)))

def commitRecord (r : GatewayPendingCommit) (a : Admission) (o : Origin) (effect : Effect) :
    StoreM Unit := do
  insertRecord r.row
  noteRecord r a o effect
  commit

def Database.grant? (db : Database) (id runtime : UUID) (revision : ℕ) : Option Decision :=
  (db.runtimeDecisions id runtime).find? fun d => d.revision = revision && !d.revoked

def commitNew (r : GatewayPendingCommit) (validate : Option Validator) (a : Admission)
    (o : Origin) : StoreM Unit := do
  if a.releasedAt.isSome ∨ o.closedAt.isSome then throw .gatewayPending
  else
    let tail := (← view).pendingTail r.admissionID r.runtimeID
    if r.sequence ≠ tail.1 + 1 ∨ r.previousHash ≠ tail.2 ∨ r.createdAt < truncate a.createdAt then
      throw .gatewayPending
    else match (← view).grant? a.id r.runtimeID r.authorizationRevision with
    | none => throw .gatewayPending
    | some g =>
      if r.createdAt < g.issuedAt then throw .gatewayPending
      else
        let now ← clock
        if now < r.createdAt then throw .gatewayPending
        else
          let effect ← commitEffect r validate a o (g.expiresAt.getD 0)
          commitRecord r a o effect

def commitGatewayPending (r : GatewayPendingCommit) (validate : Option Validator) :
    StoreM Unit := do
  let (a, o) ← lockPendingOrigin r.admissionID r.runtimeID
  if a.id ≠ r.admissionID ∨ a.owner ≠ r.owner then throw .gatewayPending
  else match ((← view).recordsOf r.admissionID r.runtimeID).find? (·.sequence = r.sequence) with
  | some old =>
    if old.recordID ≠ r.recordID ∨ old.wireHash ≠ r.wireHash then throw .gatewayPending
    else commit
  | none => commitNew r validate a o

/-! ## Recovery -/

def revokeGatewayRuntime (a : Admission) (runtime request : UUID) (now : Stamp) :
    StoreM (Option Decision) := do
  match latest ((← view).runtimeDecisions a.id runtime) with
  | none => return none
  | some d =>
    if now < d.issuedAt then throw .gatewayPending
    else if d.revoked then return none
    else if truncate now < d.issuedAt then throw .gatewayPending
    else withdrawAfter d request (truncate now)

def closeRecovered (origin : Option Origin) (now : Stamp) : StoreM Bool :=
  match origin with
  | none => return false
  | some o => do
    closeOrigin o now
    return true

/-- The end of `RecoverGatewayAdmission`, with the origin to close if there is one. -/
def recoverRelease (a : Admission) (runtime : UUID) (now : Stamp) (origin : Option Origin) :
    StoreM Unit := do
  let request ← newV7
  let revocation ← revokeGatewayRuntime a runtime request now
  let closes ← closeRecovered origin now
  let (checkedAt, releasedAt) ← releaseChecked a
  write (·.note (.recovered a.id a.owner runtime now revocation closes checkedAt releasedAt))
  commit

/-- The origin that recovery closes; `none` is a denial. -/
def recoverOrigin (origin : Option Origin) (source : Bytes) : Option (Option Origin) :=
  match origin with
  | some o =>
    if source.length ≠ 32 ∨ o.publicKey ≠ source then none
    else some (if o.closedAt.isNone then some o else none)
  | none => if source.length ≠ 0 then none else some none

/-- `lockPendingOrigin` without its origin, for the owner of the admission. -/
def lockRecovery (id owner : UUID) : StoreM (Option Admission) := do
  match (← view).owned? id owner with
  | none => return none
  | some found =>
    let _ ← lockCredential found.storageCredentialID
    lockOwned id owner

def recoverGatewayAdmission (id owner runtime : UUID) (source : Bytes) : StoreM Unit := do
  if !id.isV7 || !owner.isV7 || !runtime.isV7 || (source.length ≠ 0 && source.length ≠ 32) then
    throw .backupAdmission
  else match ← lockRecovery id owner with
  | none => reject .backupAdmission
  | some a =>
    if a.releasedAt.isSome then commit
    else
      let now ← clock
      if now < a.expiresAt then reject .backupAdmission
      else if (← view).cleanupComplete id runtime then reject .backupAdmission
      else match recoverOrigin (← lockOrigin id runtime) source with
      | none => reject .backupAdmission
      | some origin => recoverRelease a runtime now origin

end RestFleet.Store
