import RestFleet.Model.Audit
import RestFleet.Model.Statement

/-! # Pending records and receipts

The headers, records and receipts of `security/gateway_pending.go` with their validation. -/

namespace RestFleet

structure GatewayAuditBinding where
  originID : UUID
  runtimeID : UUID
  deriving DecidableEq

def GatewayAuditBinding.validate (b : GatewayAuditBinding) : Bool :=
  [b.originID, b.runtimeID].all UUID.isV7

def validPendingHash (value : Text) : Bool :=
  (Text.hexDecode value).any fun raw => raw.length = 32 && Text.hexEncode raw = value

/-- `strings.Repeat("0", 64)`, the hash before the first record. -/
def zeroHash : Text := List.replicate 64 '0'

def maxGatewayPendingSize : ℕ := 512 * 1024

structure GatewayPendingHeader where
  binding : GatewayAuthorizationBinding
  recordID : UUID
  sequence : ℕ
  previousHash : Text
  authorizationRevision : ℕ
  createdAt : ℤ
  auditOrigin : GatewayAuditBinding
  deriving DecidableEq

inductive PendingKind where
  | audit | refresh | globalAudit
  | other (name : String)
  deriving DecidableEq

structure GatewayPendingRecord where
  header : GatewayPendingHeader
  kind : PendingKind
  event : Option GatewayEvent
  expectedSecretRevision : ℕ
  config : Option Bytes
  deriving DecidableEq

def eventFits (e : GatewayEvent) (b : GatewayAuthorizationBinding) : Bool :=
  e.binding = .zero || (e.binding.hostID = b.hostID && e.binding.repositoryID = b.repositoryID &&
    e.binding.gatewayID = b.gatewayID)

structure GatewayPendingReceipt where
  admissionID : UUID
  runtimeID : UUID
  sequence : ℕ
  recordID : UUID
  wireHash : Text
  auditOriginID : UUID
  deriving DecidableEq

/-- A wire as `ReplayGatewayPending` takes it apart: the unverified identity, its hash, and what
opening it under a source key gives. -/
structure PendingWire where
  identity : Option (UUID × UUID)
  wireHash : Text
  opened : Bytes → Option GatewayPendingRecord

end RestFleet
