import RestFleet.Model.Text

/-! # Gateway bindings and audit events -/

namespace RestFleet

/-- `domain.GatewayBinding`: trusted route context, never a client claim. -/
structure GatewayBinding where
  hostID : UUID
  repositoryID : UUID
  gatewayID : UUID
  operationID : UUID
  deriving DecidableEq

def GatewayBinding.zero : GatewayBinding := ⟨0, 0, 0, 0⟩

structure GatewayReadBinding where
  repositoryID : UUID
  operationID : UUID
  admissionID : UUID
  runtimeID : UUID
  configurationHash : Text
  deriving DecidableEq

/-- `sameGatewayReader`: the configuration hash is not part of a certificate. -/
def sameGatewayReader (a b : GatewayReadBinding) : Bool :=
  a.repositoryID = b.repositoryID && a.operationID = b.operationID &&
    a.admissionID = b.admissionID && a.runtimeID = b.runtimeID

inductive EventAction where
  | backendReady | runtimeCleanup | channelDenied | eventRejected | centralReadStart
  | centralReadEnd | sessionStart | sessionEnd | lockCleanup | denied
  | other (name : String)
  deriving DecidableEq

inductive EventReason where
  | verified | joined | materialRejected | authorityRejected | sessionRejected | invalidEvent
  | requested | finished | ownedLock | routeUnavailable | rateLimited
  | sessionInactive | tlsRequired | authenticationFailed
  | pathRejected | requestLimit | methodRejected | immutableObject | lockNotFresh
  | objectSize | invalidBody | contentHashMismatch | objectExists | lockNotOwned
  | other (name : String)
  deriving DecidableEq

/-- `domain.GatewayEvent`: fixed classifications only. -/
structure GatewayEvent where
  binding : GatewayBinding
  authenticated : Bool
  action : EventAction
  reason : EventReason
  deriving DecidableEq

end RestFleet
