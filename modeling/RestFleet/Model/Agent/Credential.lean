import RestFleet.Model.Strings
import RestFleet.Model.Time

/-! # Repository credentials of an Agent

`ApplyRepositoryCredential` over the one file that holds a credential. The text of the file stands for
the credential; a nil and an empty list of bytes are the same. -/

namespace RestFleet.Agent.Credential

structure RepositoryCredential where
  deliveryID : UUID
  agentID : UUID
  hostID : UUID
  repositoryID : UUID
  gatewayID : UUID
  revision : ℤ
  gatewayRevision : ℤ
  resticRevision : ℤ
  endpoint : Text
  caBundlePEM : Bytes
  gatewayPassword : Bytes
  resticPassword : Bytes
  validFrom : ℤ
  deriving DecidableEq

/-! ## Validation -/

/-- `url.URL` with the values of its methods. -/
structure URL where
  scheme : Text
  host : Text
  hostname : Text
  port : Text
  hasUser : Bool
  path : Text
  rawPath : Text
  rawQuery : Text
  forceQuery : Bool
  fragment : Text
  rawFragment : Text
  opaquePart : Text
  string : Text

structure Block where
  type : Text
  headers : List (Text × Text)
  bytes : Bytes

structure Certificate where
  isCA : Bool
  basicConstraintsValid : Bool

/-- `url.Parse`, `bytes.TrimSpace`, `pem.Decode` and `x509.ParseCertificate`. -/
structure Library where
  parseURL : Text → Option URL
  trimSpace : Bytes → Bytes
  decodePEM : Bytes → Option (Block × Bytes)
  parseCertificate : Bytes → Option Certificate

def validPort (port : Text) : Bool :=
  port.isEmpty || port.atoi.any fun n => 1 ≤ n && n ≤ 65535 && Nat.toDigits 10 n.toNat = port

def validGatewayOrigin (lib : Library) (origin : Text) : Bool :=
  if 2048 < origin.byteLength then false
  else (lib.parseURL origin).any fun u =>
    u.scheme = "https".toList && !u.host.isEmpty && !u.hostname.isEmpty && !u.hasUser &&
      u.path.isEmpty && u.rawPath.isEmpty && u.rawQuery.isEmpty && !u.forceQuery &&
      u.fragment.isEmpty && u.rawFragment.isEmpty && u.opaquePart.isEmpty && u.string = origin &&
      !origin.any "\\\r\n\t #".toList.contains && !u.host.hasSuffix ":".toList && validPort u.port

def certificateHeader : Bytes :=
  "-----BEGIN CERTIFICATE-----".toList.map fun c => UInt8.ofNat c.toNat

/-- The loop of `ValidCredentialCA`; every certificate takes at least one byte of the bundle. -/
def validCertificates (lib : Library) : ℕ → ℕ → Bytes → Bool
  | 0, _, _ => false
  | n + 1, count, bundle =>
    let bundle := lib.trimSpace bundle
    if bundle.isEmpty then 0 < count
    else if !certificateHeader.isPrefixOf bundle then false
    else match lib.decodePEM bundle with
      | none => false
      | some (block, rest) =>
        if block.type ≠ "CERTIFICATE".toList || !block.headers.isEmpty then false
        else if (lib.parseCertificate block.bytes).any fun c => c.isCA && c.basicConstraintsValid then
          validCertificates lib n (count + 1) rest
        else false

def validCredentialCA (lib : Library) (bundle : Bytes) : Bool :=
  !bundle.isEmpty && bundle.length ≤ 64 * 2 ^ 10 &&
    validCertificates lib (bundle.length + 1) 0 bundle

def sextet (b : UInt8) : Option ℕ :=
  let n := b.toNat
  if 65 ≤ n ∧ n ≤ 90 then some (n - 65)
  else if 97 ≤ n ∧ n ≤ 122 then some (n - 97 + 26)
  else if 48 ≤ n ∧ n ≤ 57 then some (n - 48 + 52)
  else if n = 45 then some 62
  else if n = 95 then some 63
  else none

/-- What the strict decoder takes for 32 bytes in 43 characters: the last two bits are zero. -/
def validPassword (password : Bytes) : Bool :=
  password.length = 43 && password.all (sextet · |>.isSome) &&
    (password.getLast?.bind sextet).any (· % 4 = 0)

def endpointPath (c : RepositoryCredential) : Text :=
  "/restic/".toList ++ c.gatewayID.text ++ "/".toList ++ c.repositoryID.text ++ "/".toList

def RepositoryCredential.validate (lib : Library) (c : RepositoryCredential) : Bool :=
  [c.deliveryID, c.agentID, c.hostID, c.repositoryID, c.gatewayID].all UUID.isV7 &&
    (1 ≤ c.revision && 1 ≤ c.gatewayRevision && 1 ≤ c.resticRevision && c.validFrom ≠ 0 &&
      validCredentialCA lib c.caBundlePEM) &&
    (c.endpoint.hasSuffix (endpointPath c) &&
      validGatewayOrigin lib (c.endpoint.take (c.endpoint.length - (endpointPath c).length))) &&
    (validPassword c.resticPassword &&
      (c.gatewayPassword.isEmpty || validPassword c.gatewayPassword)) &&
    c.gatewayPassword ≠ c.resticPassword

/-! ## Messages -/

structure CredentialRevision where
  deliveryID : Text
  agentID : Text
  hostID : Text
  repositoryID : Text
  gatewayID : Text
  revision : ℤ
  gatewayRevision : ℤ
  resticRevision : ℤ
  endpoint : Text
  caBundlePEM : Bytes
  gatewayPassword : Bytes
  resticPassword : Bytes
  validFrom : Option ℤ

structure Accepted where
  deliveryID : Text
  revision : ℤ
  deriving DecidableEq

structure Identity where
  agentID : UUID
  hostID : UUID

def canonicalID (raw : Text) : Option UUID := (UUID.parse raw).filter fun id => id.text = raw

def checkValid (t : ℤ) : Bool := 0 ≤ t && t < (unixEpoch + 253402300800) * second

def repositoryCredentialFromProto (lib : Library) (m : CredentialRevision) :
    Option RepositoryCredential := do
  let deliveryID ← canonicalID m.deliveryID
  let agentID ← canonicalID m.agentID
  let hostID ← canonicalID m.hostID
  let repositoryID ← canonicalID m.repositoryID
  let gatewayID ← canonicalID m.gatewayID
  let validFrom ← m.validFrom.filter checkValid
  let c : RepositoryCredential :=
    { deliveryID, agentID, hostID, repositoryID, gatewayID, revision := m.revision
      gatewayRevision := m.gatewayRevision, resticRevision := m.resticRevision
      endpoint := m.endpoint, caBundlePEM := m.caBundlePEM, gatewayPassword := m.gatewayPassword
      resticPassword := m.resticPassword, validFrom }
  if c.validate lib then some c else none

/-! ## `ApplyRepositoryCredential` -/

def successor (previous c : RepositoryCredential) : Bool :=
  if previous.agentID ≠ c.agentID || previous.hostID ≠ c.hostID ||
      previous.repositoryID ≠ c.repositoryID || previous.gatewayID ≠ c.gatewayID ||
      c.revision < previous.revision || c.gatewayRevision < previous.gatewayRevision ||
      c.resticRevision < previous.resticRevision then false
  else if c.revision = previous.revision then
    c = if c.gatewayPassword.isEmpty then { previous with gatewayPassword := [] } else previous
  else
    !(c.deliveryID = previous.deliveryID ||
      (c.gatewayRevision = previous.gatewayRevision && !c.gatewayPassword.isEmpty &&
        c.gatewayPassword ≠ previous.gatewayPassword) ||
      (c.resticRevision = previous.resticRevision && c.resticPassword ≠ previous.resticPassword))

def admitted (lib : Library) (identity : Identity) (message : Option CredentialRevision)
    (file : Option RepositoryCredential) : Option RepositoryCredential := do
  let m ← message
  let c ← repositoryCredentialFromProto lib m
  if c.agentID = identity.agentID ∧ c.hostID = identity.hostID ∧
      file.all (fun previous => successor previous c) = true then some c else none

/-- How far `atomicWrite` gets: it fails before the rename, it fails after it, or it ends with the
directory synced. A crash stops it before or after the rename. -/
inductive Write where
  | failed
  | renamed
  | synced
  deriving DecidableEq

/-- What comes from outside during a call: whether the directory and the file are safe to use, and
the outcome of the write. -/
structure Env where
  directory : Bool
  loads : Bool
  write : Write

/-- `ApplyRepositoryCredential`: the answer, and the file. -/
def applyRepositoryCredential (lib : Library) (identity : Identity)
    (message : Option CredentialRevision) (env : Env) (file : Option RepositoryCredential) :
    Option Accepted × Option RepositoryCredential :=
  match admitted lib identity message file with
  | none => (none, file)
  | some c =>
    if !env.directory || !env.loads then (none, file)
    else match env.write with
      | .failed => (none, file)
      | .renamed => (none, some c)
      | .synced => (some ⟨c.deliveryID.text, c.revision⟩, some c)

structure Call where
  identity : Identity
  message : Option CredentialRevision
  env : Env

def run (lib : Library) (file : Option RepositoryCredential) (calls : List Call) :
    Option RepositoryCredential :=
  calls.foldl (fun file c => (applyRepositoryCredential lib c.identity c.message c.env file).2) file

end RestFleet.Agent.Credential
