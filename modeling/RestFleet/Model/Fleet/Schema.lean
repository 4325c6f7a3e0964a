import RestFleet.Model.Strings
import RestFleet.Shared.Action
import RestFleet.Shared.Table

/-! # The tables of the fleet

`hosts`, `agents`, `enrollment_tokens` and `agent_certificates`. Instants are nanoseconds, as far
as the database keeps them. -/

namespace RestFleet.Fleet

abbrev Stamp := ℤ

abbrev TokenHash := Text

def hour : Stamp := 3600 * second

/-- What enrollment is configured with: whether there is a CA and a pepper, the HMAC of tokens, the
syntax of tokens and the Ed25519 key in a certificate request, by its fingerprint. -/
structure Site where
  enrolls : Bool
  hash : Text → TokenHash
  validToken : Text → Bool
  parseCSR : Text → Option Text

inductive HostStatus where
  | pending | active | disabled | revoked
  deriving DecidableEq

inductive AgentStatus where
  | active | revoked
  deriving DecidableEq

structure Host where
  status : HostStatus
  revision : ℤ
  archivedAt : Option Stamp
  createdAt : Stamp
  updatedAt : Stamp
  deriving DecidableEq

/-- `status in ('PENDING', 'ACTIVE')`. -/
def HostStatus.enrollable (s : HostStatus) : Bool := s = .pending || s = .active

structure Agent where
  hostID : UUID
  installID : UUID
  publicKeyFingerprint : Text
  certificateSerial : Text
  certificateNotAfter : Stamp
  status : AgentStatus
  version : Text
  protocolVersion : Text
  os : Text
  arch : Text
  hostname : Text
  createdAt : Stamp
  updatedAt : Stamp
  deriving DecidableEq

structure Token where
  hostID : UUID
  tokenHash : TokenHash
  expiresAt : Stamp
  createdBy : UUID
  createdAt : Stamp
  usedAt : Option Stamp
  usedByAgentID : Option UUID
  revokedAt : Option Stamp
  deriving DecidableEq

/-- `used_at is null and revoked_at is null and expires_at > now`. -/
def Token.usable (t : Token) (now : Stamp) : Bool :=
  t.usedAt.isNone && t.revokedAt.isNone && now < t.expiresAt

structure Certificate where
  id : UUID
  agentID : UUID
  serialNumber : Text
  publicKeyFingerprint : Text
  notBefore : Stamp
  notAfter : Stamp
  issuedAt : Stamp
  revokedAt : Option Stamp
  revocationReason : Text
  supersededBy : Option UUID
  overlapEndsAt : Option Stamp
  deriving DecidableEq

/-- What the committed transactions did, in order. An entry that depends on a snapshot says how
much had been committed then: the one that `SetHostStatus` reads Agents from, and the one in which
`update hosts` finds no row (`missed`). -/
inductive Entry where
  | hostCreated (id : UUID) (now : Stamp)
  | hostUpdated (id : UUID) (now : Stamp)
  | hostSet (id : UUID) (enabled : Bool) (status : HostStatus) (seen : ℕ) (now : Stamp)
  | tokenCreated (id : UUID) (token : Token)
  | tokenRevoked (id : UUID) (now : Stamp)
  | enrolled (tokenID agentID : UUID) (agent : Agent) (certificate : Certificate) (now : Stamp)
      (missed : Option ℕ)
  | agentRevoked (id hostID : UUID) (reason : Text) (now : Stamp) (missed : Option ℕ)
  | rotated (agentID : UUID) (serial : Text) (certificate : Certificate) (now : Stamp)
  deriving DecidableEq

structure Database where
  hosts : Table UUID Host
  agents : Table UUID Agent
  tokens : Table UUID Token
  certificates : Table Text Certificate
  trail : List Entry

def Database.empty : Database := ⟨.empty, .empty, .empty, .empty, []⟩

inductive Key where
  | host (id : UUID)
  | agent (id : UUID)
  | installID (id : UUID)
  | fingerprint (key : Text)
  | agentSerial (serial : Text)
  | activeAgent (hostID : UUID)
  | token (id : UUID)
  | tokenHash (hash : TokenHash)
  | certificate (serial : Text)
  | certificateID (id : UUID)
  deriving DecidableEq

/-- `uuid.NewV7`, the clock, the random serial of a certificate and the secret of a token. -/
inductive Choice where
  | uuid
  | clock
  | serial
  | secret

abbrev Answer : Choice → Type
  | .uuid => { id : UUID // id.isV7 = true }
  | .clock => Stamp
  | .serial | .secret => Text

def present : Key → Database → Bool
  | .host id, db => (db.hosts.row id).isSome
  | .agent id, db => (db.agents.row id).isSome
  | .token id, db => (db.tokens.row id).isSome
  | .certificate serial, db => (db.certificates.row serial).isSome
  | _, _ => false

abbrev schema : Tx.Schema where
  Db := Database
  Key := Key
  Choice := Choice
  Answer := Answer
  present := present

inductive FleetError where
  | validation (field code : Text)
  | notFound | alreadyExists | revisionConflict | invalidRevision
  | enrollmentUnavailable | enrollmentTokenInvalid | invalidEnrollment | incompatibleAgent
  | agentRevoked
  | database
  deriving DecidableEq

abbrev FleetM := Tx.Action schema FleetError

abbrev FleetProgram := Program (Tx.Op schema) (Tx.Reply schema)

def clock : FleetM Stamp := Tx.choose (M := schema) .clock

def newV7 : FleetM UUID := do
  let id ← Tx.choose (M := schema) .uuid
  return id.val

def randomSerial : FleetM Text := Tx.choose (M := schema) .serial

def newEnrollmentToken : FleetM Text := Tx.choose (M := schema) .secret

/-! ## Queries and updates -/

namespace Database

def note (db : Database) (e : Entry) : Database := { db with trail := db.trail ++ [e] }

/-- `exists (select 1 from agents where host_id = ... and status = 'ACTIVE')`. -/
def hasActiveAgent (db : Database) (hostID : UUID) : Bool :=
  db.agents.rows.any fun a => a.hostID = hostID && a.status = .active

def hostExists (db : Database) (id : UUID) : Bool :=
  (db.hosts.row id).any fun h => h.archivedAt.isNone

def tokenByHash (db : Database) (hash : TokenHash) : Option UUID :=
  db.tokens.keys.find? fun id => (db.tokens.row id).any fun t => t.tokenHash = hash

/-- Another row of `agents` has an entry of a unique index that the row needs. -/
def agentTaken (db : Database) (id : UUID) (agent : Agent) : Bool :=
  db.agents.keys.any fun id' => id' ≠ id && (db.agents.row id').any fun a =>
    a.installID = agent.installID || a.publicKeyFingerprint = agent.publicKeyFingerprint ||
      a.certificateSerial = agent.certificateSerial

def certificateTaken (db : Database) (c : Certificate) : Bool :=
  (db.certificates.row c.serialNumber).isSome || db.certificates.rows.any fun c' => c'.id = c.id

def insertHost (db : Database) (id : UUID) (now : Stamp) : Database :=
  { db with hosts := db.hosts.insert id ⟨.pending, 1, none, now, now⟩ }

def touchHost (db : Database) (id : UUID) (now : Stamp) : Database :=
  { db with
    hosts := db.hosts.modify id fun h => { h with revision := h.revision + 1, updatedAt := now } }

def setHostStatus (db : Database) (id : UUID) (status : HostStatus) (now : Stamp) : Database :=
  { db with
    hosts := db.hosts.modify id fun h =>
      { h with status := status, revision := h.revision + 1, updatedAt := now } }

/-- The status is set unless the statement found no row. -/
def setHostStatus? (db : Database) (missed : Option ℕ) (id : UUID) (status : HostStatus)
    (now : Stamp) : Database :=
  if missed.isSome then db else db.setHostStatus id status now

def insertToken (db : Database) (id : UUID) (t : Token) : Database :=
  { db with tokens := db.tokens.insert id t }

def revokeToken (db : Database) (id : UUID) (now : Stamp) : Database :=
  { db with tokens := db.tokens.modify id fun t => { t with revokedAt := some now } }

def useToken (db : Database) (id agentID : UUID) (now : Stamp) : Database :=
  { db with
    tokens := db.tokens.modify id fun t => { t with usedAt := some now, usedByAgentID := some agentID } }

def insertAgent (db : Database) (id : UUID) (a : Agent) : Database :=
  { db with agents := db.agents.insert id a }

def revokeAgent (db : Database) (id : UUID) (now : Stamp) : Database :=
  { db with agents := db.agents.modify id fun a => { a with status := .revoked, updatedAt := now } }

def insertCertificate (db : Database) (c : Certificate) : Database :=
  { db with certificates := db.certificates.insert c.serialNumber c }

/-- `where agent_id = $1 and revoked_at is null`. -/
def revokeCertificates (db : Database) (agentID : UUID) (reason : Text) (now : Stamp) : Database :=
  { db with
    certificates := db.certificates.map fun c =>
      if c.agentID = agentID && c.revokedAt.isNone then
        { c with revokedAt := some now, revocationReason := reason }
      else c }

/-- `where agent_id = $1 and serial_number = $2`. -/
def supersede (db : Database) (agentID : UUID) (serial : Text) (next : UUID)
    (overlapEndsAt : Stamp) : Database :=
  { db with
    certificates := db.certificates.modify serial fun c =>
      if c.agentID = agentID then
        { c with supersededBy := some next, overlapEndsAt := some overlapEndsAt }
      else c }

def certify (db : Database) (id : UUID) (c : Certificate) (now : Stamp) : Database :=
  { db with
    agents := db.agents.modify id fun a =>
      { a with
        publicKeyFingerprint := c.publicKeyFingerprint, certificateSerial := c.serialNumber
        certificateNotAfter := c.notAfter, updatedAt := now } }

def agentByCertificate (db : Database) (id : UUID) (serial : Text) (now : Stamp) : Option Agent :=
  match db.agents.row id, db.certificates.row serial with
  | some a, some c =>
    if c.agentID = id && a.status = .active && c.revokedAt.isNone && c.notBefore ≤ now &&
        now < c.notAfter && (c.supersededBy.isNone || c.overlapEndsAt.any (now < ·)) then some a
    else none
  | _, _ => none

def rotating (db : Database) (id : UUID) (serial : Text) (now : Stamp) : Option Agent :=
  match db.agents.row id, db.certificates.row serial with
  | some a, some c =>
    if c.agentID = id && c.revokedAt.isNone && now < c.notAfter then some a else none
  | _, _ => none

end Database

end RestFleet.Fleet
