import RestFleet.Model.Text
import RestFleet.Model.Time

/-! # Signed authorization statements

`security.GatewayStatement` with its validation, signing and verification. The signature
scheme and the JSON encoding are parameters. -/

namespace RestFleet

/-- The standard-library primitives behind the signed formats. -/
structure Signing where
  PublicKey : Type
  PrivateKey : Type
  publicOf : PrivateKey → PublicKey
  sign : PrivateKey → Bytes → Bytes
  verify : PublicKey → Bytes → Bytes → Bool

def signatureSize : ℕ := 64

/-- `domain.MaxGatewayOfflineWindow` in seconds, which is `MaxGatewayAuthorizationSeconds`. -/
def maxGatewayAuthorizationSeconds : ℤ := 30 * 24 * 3600

def maxGatewayStatementSize : ℕ := 2048

/-- The last second of year 9999. -/
def maxUnixSeconds : ℤ := 253402300799

structure GatewayAuthorizationBinding where
  admissionID : UUID
  owner : UUID
  runtimeID : UUID
  agentID : UUID
  hostID : UUID
  repositoryID : UUID
  gatewayID : UUID
  storageCredentialID : UUID
  deliveryID : UUID
  gatewaySecretRef : UUID
  resticSecretRef : UUID
  configurationHash : Text
  deriving DecidableEq

namespace GatewayAuthorizationBinding

def zero : GatewayAuthorizationBinding := ⟨0, 0, 0, 0, 0, 0, 0, 0, 0, 0, 0, []⟩

def ids (b : GatewayAuthorizationBinding) : List UUID :=
  [b.admissionID, b.owner, b.runtimeID, b.agentID, b.hostID, b.repositoryID, b.gatewayID,
    b.storageCredentialID, b.deliveryID, b.gatewaySecretRef, b.resticSecretRef]

def validate (b : GatewayAuthorizationBinding) : Bool :=
  b.ids.all UUID.isV7 &&
    (Text.hexDecode b.configurationHash).any fun hash =>
      hash.length = 32 && Text.hexEncode hash = b.configurationHash

end GatewayAuthorizationBinding

structure GatewayStatement where
  binding : GatewayAuthorizationBinding
  revision : ℕ
  issuedAt : ℤ
  expiresAt : ℤ
  revoked : Bool
  deriving DecidableEq

namespace GatewayStatement

def zero : GatewayStatement := ⟨.zero, 0, 0, 0, false⟩

def validate (s : GatewayStatement) : Bool :=
  if !s.binding.validate || s.revision = 0 || s.revision ≥ 2 ^ 63 || s.issuedAt ≤ 0 ||
      s.issuedAt > maxUnixSeconds then false
  else if s.revoked then s.expiresAt = 0
  else !(s.expiresAt ≤ s.issuedAt || s.expiresAt > maxUnixSeconds ||
    s.expiresAt - s.issuedAt > maxGatewayAuthorizationSeconds)

end GatewayStatement

/-- `json.Marshal` and `json.Unmarshal` at one type. -/
structure Codec (α : Type) where
  marshal : α → Bytes
  unmarshal : Bytes → Option α

def gatewayStatementContext : Bytes :=
  ("restfleet:gateway-authorization:v1".toList.map fun c => c.toNat.toUInt8) ++ [0]

def signGatewayStatement (S : Signing) (J : Codec GatewayStatement) (s : GatewayStatement)
    (key : S.PrivateKey) : Option Bytes :=
  if !s.validate then none
  else
    let payload := J.marshal s
    if payload.length + signatureSize > maxGatewayStatementSize then none
    else some (payload ++ S.sign key (gatewayStatementContext ++ payload))

def verifyGatewayStatement (S : Signing) (J : Codec GatewayStatement) (wire : Bytes)
    (key : S.PublicKey) : Option GatewayStatement :=
  if wire.length ≤ signatureSize ∨ wire.length > maxGatewayStatementSize then none
  else
    let payload := wire.take (wire.length - signatureSize)
    if !S.verify key (gatewayStatementContext ++ payload) (wire.drop payload.length) then none
    else match J.unmarshal payload with
      | none => none
      | some s => if !s.validate || J.marshal s ≠ payload then none else some s

end RestFleet
