import RestFleet.Model.Fleet.Schema

/-! # The transactions of the fleet

`fleet.go` of the store. Audit events, the outbox and the first desired state of an Agent are left
out. -/

namespace RestFleet.Fleet

open Tx (view write lock claim commit)

def query {α : Type} (f : Database → α) : FleetM α :=
  ExceptT.mk (Tx.transaction do
    let db ← view
    return f db)

/-- The row that an `update ... where` changes. The row of the snapshot has to match; then it is
locked, and the row that is there by then has to match again. With it goes how much had been
committed at the last of these reads. -/
def lockMatching {α : Type} (k : Key) (row : Database → Option α) (cond : α → Bool)
    (snapshot : Database) : FleetM (Option α × ℕ) := do
  if (row snapshot).any cond then
    let _ ← lock k
    let db ← view
    return ((row db).filter cond, db.trail.length)
  else return (none, snapshot.trail.length)

/-! ## Hosts -/

def createHostTx (id : UUID) (now : Stamp) : FleetM Unit := do
  claim (.host id)
  if ((← view).hosts.row id).isSome then throw .alreadyExists
  else
    write fun db => (db.insertHost id now).note (.hostCreated id now)
    commit

def hostMissing {α : Type} (id : UUID) : FleetM α := do
  if (← view).hostExists id then throw .revisionConflict else throw .notFound

def updateHostTx (id : UUID) (expectedRevision : ℤ) (now : Stamp) : FleetM Unit := do
  let snapshot ← view
  match ← lockMatching (.host id) (·.hosts.row id)
      (fun h => h.revision = expectedRevision && h.archivedAt.isNone) snapshot with
  | (none, _) => hostMissing id
  | (some _, _) =>
    write fun db => (db.touchHost id now).note (.hostUpdated id now)
    commit

def commandStatus (enabled active : Bool) : HostStatus :=
  if enabled && active then .active else if enabled then .pending else .disabled

/-- The transaction of `Store.SetHostStatus`. The Agents are those of the snapshot, even when the
statement has to wait for the row. -/
def setHostStatusTx (id : UUID) (expectedRevision : ℤ) (enabled : Bool) (now : Stamp) :
    FleetM HostStatus := do
  let snapshot ← view
  match ← lockMatching (.host id) (·.hosts.row id)
      (fun h => h.revision = expectedRevision && h.status ≠ .revoked && h.archivedAt.isNone)
      snapshot with
  | (none, _) => hostMissing id
  | (some _, _) =>
    let status := commandStatus enabled (snapshot.hasActiveAgent id)
    write fun db => (db.setHostStatus id status now).note
      (.hostSet id enabled status snapshot.trail.length now)
    commit
    return status

/-! ## Enrollment tokens -/

def createEnrollmentTokenTx (id : UUID) (token : Token) : FleetM Unit := do
  if ((← view).hosts.row token.hostID).any fun h => h.status.enrollable && h.archivedAt.isNone then
    claim (.token id)
    claim (.tokenHash token.tokenHash)
    let db ← view
    if (db.tokens.row id).isSome || (db.tokenByHash token.tokenHash).isSome then throw .database
    else
      write fun db => (db.insertToken id token).note (.tokenCreated id token)
      commit
  else throw .notFound

def revokeEnrollmentTokenTx (id : UUID) (now : Stamp) : FleetM Unit := do
  let snapshot ← view
  match ← lockMatching (.token id) (·.tokens.row id) (·.usable now) snapshot with
  | (none, _) => throw .notFound
  | (some _, _) =>
    write fun db => (db.revokeToken id now).note (.tokenRevoked id now)
    commit

/-! ## Agents -/

structure EnrollmentMaterial where
  agentID : UUID
  agent : Agent
  certificate : Certificate
  deriving DecidableEq

def insertAgent (id : UUID) (agent : Agent) : FleetM Unit := do
  claim (.agent id)
  claim (.installID agent.installID)
  claim (.fingerprint agent.publicKeyFingerprint)
  claim (.agentSerial agent.certificateSerial)
  claim (.activeAgent agent.hostID)
  let db ← view
  if (db.agents.row id).isSome || db.agentTaken id agent || db.hasActiveAgent agent.hostID then
    throw .alreadyExists
  else write (·.insertAgent id agent)

def insertCertificate (c : Certificate) : FleetM Unit := do
  claim (.certificate c.serialNumber)
  claim (.certificateID c.id)
  if (← view).certificateTaken c then throw .database
  else write (·.insertCertificate c)

/-- The update of a host whose Agents change. No row is no error, and what is kept is how much had
been committed when none was found. -/
def updateHostStatus (id : UUID) (cond : HostStatus → Bool) (status : HostStatus) (now : Stamp) :
    FleetM (Option ℕ) := do
  let snapshot ← view
  match ← lockMatching (.host id) (·.hosts.row id) (fun h => cond h.status) snapshot with
  | (none, seen) => return some seen
  | (some _, _) =>
    write (·.setHostStatus id status now)
    return none

/-- The token of `ConsumeEnrollmentToken`, locked and with the status of its host in the
snapshot. -/
def lockToken (hash : TokenHash) (now : Stamp) : FleetM (UUID × UUID) := do
  let snapshot ← view
  match snapshot.tokenByHash hash with
  | none => throw .enrollmentTokenInvalid
  | some id =>
    match (snapshot.tokens.row id).bind fun t => snapshot.hosts.row t.hostID with
    | none => throw .enrollmentTokenInvalid
    | some host =>
      let _ ← lock (.token id)
      match (← view).tokens.row id with
      | none => throw .enrollmentTokenInvalid
      | some token =>
        if token.usable now && host.status.enrollable then return (id, token.hostID)
        else throw .enrollmentTokenInvalid

def consumeEnrollmentTokenTx (hash : TokenHash) (now : Stamp)
    (issue : UUID → FleetM EnrollmentMaterial) : FleetM EnrollmentMaterial := do
  let (tokenID, hostID) ← lockToken hash now
  let m ← issue hostID
  let agent := { m.agent with hostID := hostID }
  insertAgent m.agentID agent
  insertCertificate m.certificate
  if ((← view).tokens.row tokenID).any (·.usable now) then
    write (·.useToken tokenID m.agentID now)
    let missed ← updateHostStatus hostID HostStatus.enrollable .active now
    write (·.note (.enrolled tokenID m.agentID agent m.certificate now missed))
    commit
    return m
  else throw .enrollmentTokenInvalid

def revokeAgentTx (id : UUID) (reason : Text) (now : Stamp) : FleetM Unit := do
  if ← lock (.agent id) then
    match (← view).agents.row id with
    | none => throw .notFound
    | some agent =>
      match agent.status with
      | .revoked => commit
      | .active =>
        claim (.activeAgent agent.hostID)
        write (·.revokeAgent id now)
        write (·.revokeCertificates id reason now)
        let missed ← updateHostStatus agent.hostID (· = .active) .pending now
        write (·.note (.agentRevoked id agent.hostID reason now missed))
        commit
  else throw .notFound

def rotateAgentCertificateTx (agentID : UUID) (serial : Text) (c : Certificate)
    (now overlapEndsAt : Stamp) : FleetM Unit := do
  if ((← view).rotating agentID serial now).isNone then throw .agentRevoked
  else
    let _ ← lock (.agent agentID)
    let _ ← lock (.certificate serial)
    match (← view).rotating agentID serial now with
    | none => throw .agentRevoked
    | some agent =>
      if agent.status ≠ .active then throw .agentRevoked
      else
        insertCertificate c
        write (·.supersede agentID serial c.id overlapEndsAt)
        claim (.fingerprint c.publicKeyFingerprint)
        claim (.agentSerial c.serialNumber)
        if (← view).agentTaken agentID { agent with
            publicKeyFingerprint := c.publicKeyFingerprint, certificateSerial := c.serialNumber } then
          throw .database
        else
          write fun db => (db.certify agentID c now).note (.rotated agentID serial c now)
          commit

end RestFleet.Fleet
