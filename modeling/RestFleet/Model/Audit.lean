import RestFleet.Model.Event

/-! # Audit events of the Gateway

`domain.GatewayAudit`: the closed vocabulary of what a Gateway may have audited. -/

namespace RestFleet

inductive AuditAction where
  | backendReady | runtimeCleanupComplete | materialDeliveryDenied
  | authorizationDeliveryDenied | sessionDeliveryDenied | eventRejected | centralReadStart
  | centralReadEnd | sessionStart | sessionEnd | lockCleanupIntent | requestDenied
  | other (name : String)
  deriving DecidableEq

inductive AuditResult where
  | success | denied | failure
  deriving DecidableEq

/-- The reason of the event in upper case, or `REJECTED`. -/
inductive ReasonCode where
  | upper (reason : EventReason)
  | rejected
  deriving DecidableEq

inductive ResourceType where
  | gateway | repository
  deriving DecidableEq

structure AuditChanges where
  hostID : UUID
  gatewayID : UUID
  sessionID : UUID
  authenticated : Bool
  deriving DecidableEq

/-- `domain.AuditEvent`; `system` is the actor type. -/
structure AuditEvent where
  id : UUID
  requestID : UUID
  occurredAt : ℤ
  system : Bool
  actorID : UUID
  action : AuditAction
  resourceType : ResourceType
  resourceID : UUID
  result : AuditResult
  reasonCode : ReasonCode
  changes : Option AuditChanges
  deriving DecidableEq

/-- The action and result of an event, if its scope and reason fit. -/
def auditAction (e : GatewayEvent) (inScope : Bool) : Option (AuditAction × AuditResult) :=
  let when (ok : Bool) (a : AuditAction) (r : AuditResult) := if ok then some (a, r) else none
  let routed (reason : EventReason) := inScope && !e.authenticated && e.reason = reason
  let global := !inScope && !e.authenticated
  match e.action with
  | .backendReady => when (routed .verified) .backendReady .success
  | .runtimeCleanup => when (global && e.reason = .joined) .runtimeCleanupComplete .success
  | .channelDenied =>
    match e.reason with
    | .materialRejected => when global .materialDeliveryDenied .denied
    | .authorityRejected => when global .authorizationDeliveryDenied .denied
    | .sessionRejected => when global .sessionDeliveryDenied .denied
    | _ => none
  | .eventRejected => when (global && e.reason = .invalidEvent) .eventRejected .denied
  | .centralReadStart => when (routed .requested) .centralReadStart .success
  | .centralReadEnd => when (routed .finished) .centralReadEnd .success
  | .sessionStart => when (routed .requested) .sessionStart .success
  | .sessionEnd => when (routed .finished) .sessionEnd .success
  | .lockCleanup =>
    when (inScope && e.authenticated && e.reason = .ownedLock) .lockCleanupIntent .success
  | .denied =>
    match e.reason with
    | .routeUnavailable | .rateLimited => when global .requestDenied .denied
    | .sessionInactive | .tlsRequired | .authenticationFailed =>
      when (inScope && !e.authenticated) .requestDenied .denied
    | .pathRejected | .requestLimit | .methodRejected | .immutableObject | .lockNotFresh
    | .objectSize | .invalidBody | .contentHashMismatch | .objectExists | .lockNotOwned =>
      when (inScope && e.authenticated) .requestDenied .denied
    | _ => none
  | .other _ => none

/-- `domain.GatewayAudit`; `none` stands for an event that is not valid. -/
def gatewayAudit (e : GatewayEvent) : Option AuditEvent :=
  let b := e.binding
  let inScope := b ≠ .zero
  if inScope && !([b.hostID, b.repositoryID, b.gatewayID, b.operationID].all UUID.isV7) then none
  else (auditAction e inScope).map fun (action, result) =>
    { id := 0, requestID := 0, occurredAt := 0, system := true, actorID := 0, action, result
      resourceType := if inScope then .repository else .gateway
      resourceID := if inScope then b.repositoryID else 0
      reasonCode := if e.action = .channelDenied then .rejected else .upper e.reason
      changes := if inScope then some ⟨b.hostID, b.gatewayID, b.operationID, e.authenticated⟩
        else none }

def gatewayCleanupAudit (a : AuditEvent) : Bool :=
  a.action = .runtimeCleanupComplete && a.reasonCode = .upper .joined && a.result = .success &&
    a.system && a.actorID = 0 && a.resourceType = .gateway && a.resourceID = 0 &&
    a.changes.isNone

end RestFleet
