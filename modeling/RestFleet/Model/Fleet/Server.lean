import RestFleet.Model.Fleet.Store

/-! # The fleet of the control plane

`fleet.go` of the server, with the part of `Connect` that authenticates a stream and rotates
certificates on it. -/

namespace RestFleet.Fleet

def invalid {α : Type} (field code : String) : FleetM α :=
  throw (.validation field.toList code.toList)

/-- `Begin` with the deferred `Rollback` around a method of the store. -/
def runTx {α : Type} (body : FleetM α) : FleetM α := ExceptT.mk (Tx.transaction body)

/-! ## Hosts and tokens -/

def createHost : FleetM Unit := do
  let id ← newV7
  let now ← clock
  runTx (createHostTx id now)

def updateHost (id : UUID) (expectedRevision : ℤ) : FleetM Unit := do
  if expectedRevision < 1 then throw .invalidRevision
  else
    let now ← clock
    runTx (updateHostTx id expectedRevision now)

def setHostEnabled (id : UUID) (expectedRevision : ℤ) (enabled : Bool) : FleetM HostStatus := do
  if expectedRevision < 1 then throw .invalidRevision
  else
    let now ← clock
    runTx (setHostStatusTx id expectedRevision enabled now)

def createEnrollmentToken (site : Site) (hostID : UUID) (expiresInSeconds : ℤ) (actor : UUID) :
    FleetM Text := do
  let expiresIn := if expiresInSeconds = 0 then 600 else expiresInSeconds
  if !site.enrolls then throw .enrollmentUnavailable
  else if expiresIn < 1 || expiresIn > 3600 then invalid "expires_in_seconds" "INVALID_TTL"
  else
    let secret ← newEnrollmentToken
    let id ← newV7
    let now ← clock
    runTx (createEnrollmentTokenTx id
      ⟨hostID, site.hash secret, now + expiresIn * second, actor, now, none, none, none⟩)
    return secret

def revokeEnrollmentToken (id : UUID) : FleetM Unit := do
  let now ← clock
  runTx (revokeEnrollmentTokenTx id now)

/-! ## Certificates -/

def agentCertificateValidity : Stamp := 30 * 24 * hour

/-- An instant in a certificate has whole seconds. -/
def wholeSeconds (t : Stamp) : Stamp := t / second * second

/-- `IssueAgentCertificate` and the row of the certificate; none for an invalid request. -/
def issueAgentCertificate (site : Site) (csr : Text) (agentID : UUID) (now : Stamp) :
    FleetM (Option Certificate) := do
  match site.parseCSR csr with
  | none => return none
  | some key =>
    let serial ← randomSerial
    let id ← newV7
    return some ⟨id, agentID, serial, key, wholeSeconds (now - 300 * second),
      wholeSeconds (now + agentCertificateValidity), now, none, [], none, none⟩

/-! ## Enrollment -/

structure EnrollmentRequest where
  token : Text
  csr : Text
  installID : Text
  agentVersion : Text
  protocolVersion : Text
  hostname : Text
  os : Text
  arch : Text
  capabilities : List Text

def validAgentMetadata (r : EnrollmentRequest) : Bool :=
  r.os = "linux".toList && (r.arch = "amd64".toList || r.arch = "arm64".toList) &&
    r.hostname.trimSpace ≠ [] && r.hostname.length ≤ 255 && r.agentVersion.trimSpace ≠ [] &&
    r.agentVersion.byteLength ≤ 64 && r.protocolVersion.byteLength ≤ 16 &&
    r.capabilities.length ≤ 64

def supportedProtocol (version : Text) : Bool :=
  version = "1.0".toList || version = "0.9".toList

def enrollmentMaterial (site : Site) (r : EnrollmentRequest) (now : Stamp) (hostID : UUID) :
    FleetM EnrollmentMaterial := do
  match UUID.parse r.installID with
  | none => throw .invalidEnrollment
  | some installID =>
    if !validAgentMetadata r then throw .invalidEnrollment
    else if (site.parseCSR r.csr).isNone then throw .invalidEnrollment
    else if !supportedProtocol r.protocolVersion then throw .incompatibleAgent
    else
      let agentID ← newV7
      match ← issueAgentCertificate site r.csr agentID now with
      | none => throw .invalidEnrollment
      | some c =>
        return ⟨agentID, ⟨hostID, installID, c.publicKeyFingerprint, c.serialNumber, c.notAfter,
          .active, r.agentVersion, r.protocolVersion, r.os, r.arch, r.hostname, now, now⟩, c⟩

def enrollAgent (site : Site) (r : EnrollmentRequest) : FleetM EnrollmentMaterial := do
  if !site.enrolls then throw .enrollmentUnavailable
  else if !site.validToken r.token then throw .enrollmentTokenInvalid
  else
    let now ← clock
    runTx (consumeEnrollmentTokenTx (site.hash r.token) now (enrollmentMaterial site r now))

/-! ## Agents -/

def revokeAgent (id : UUID) (reason : Text) : FleetM Unit := do
  if reason.trimSpace = [] || reason.trimSpace.length > 512 then invalid "reason" "INVALID_REASON"
  else
    let now ← clock
    runTx (revokeAgentTx id reason.trimSpace now)

def authenticate (agentID : UUID) (serial : Text) : FleetM Stamp := do
  let now ← clock
  match ← query fun db => db.agentByCertificate agentID serial now with
  | none => throw .agentRevoked
  | some _ => return now

def rotateAgentCertificate (site : Site) (agentID : UUID) (serial csr : Text) : FleetM Unit := do
  if !site.enrolls then throw .enrollmentUnavailable
  else if (site.parseCSR csr).isNone then throw .invalidEnrollment
  else
    let now ← authenticate agentID serial
    match ← issueAgentCertificate site csr agentID now with
    | none => throw .database
    | some c => runTx (rotateAgentCertificateTx agentID serial c now (now + 24 * hour))

/-- The rotations that are requested on a stream; a failed one ends it. -/
def rotations (site : Site) (agentID : UUID) (serial : Text) : List Text → FleetM Unit
  | [] => return ()
  | csr :: rest => do
    rotateAgentCertificate site agentID serial csr
    rotations site agentID serial rest

def connect (site : Site) (agentID : UUID) (serial : Text) (requests : List Text) : FleetM Unit := do
  let _ ← authenticate agentID serial
  rotations site agentID serial requests

/-! ## The server -/

inductive Call where
  | createHost
  | updateHost (id : UUID) (expectedRevision : ℤ)
  | setHostEnabled (id : UUID) (expectedRevision : ℤ) (enabled : Bool)
  | createEnrollmentToken (hostID : UUID) (expiresInSeconds : ℤ) (actor : UUID)
  | revokeEnrollmentToken (id : UUID)
  | enrollAgent (request : EnrollmentRequest)
  | revokeAgent (id : UUID) (reason : Text)
  | connect (agentID : UUID) (serial : Text) (requests : List Text)

def report {α : Type} (request : FleetM α) : FleetProgram Unit := do
  let _ ← request.run
  return ()

def Call.program (site : Site) : Call → FleetProgram Unit
  | .createHost => report Fleet.createHost
  | .updateHost id expected => report (Fleet.updateHost id expected)
  | .setHostEnabled id expected enabled => report (Fleet.setHostEnabled id expected enabled)
  | .createEnrollmentToken hostID expiresIn actor =>
    report (Fleet.createEnrollmentToken site hostID expiresIn actor)
  | .revokeEnrollmentToken id => report (Fleet.revokeEnrollmentToken id)
  | .enrollAgent request => report (Fleet.enrollAgent site request)
  | .revokeAgent id reason => report (Fleet.revokeAgent id reason)
  | .connect agentID serial requests => report (Fleet.connect site agentID serial requests)

def arrivals (site : Site) (p : FleetProgram Unit) : Prop := ∃ c : Call, p = c.program site

abbrev server (site : Site) : System (Tx.State schema) ℕ (Tx.Op schema) (Tx.Reply schema) :=
  Tx.system (M := schema) (arrivals site)

end RestFleet.Fleet
