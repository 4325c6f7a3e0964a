import RestFleet.Model.Statement

/-! # Local authorization

`gateway.Authorization`. Every call holds the mutex, so a history is a sequence of calls. -/

namespace RestFleet

inductive AuthorizationStatus where
  | unknown | valid | expired | revoked | clockUnsafe
  deriving DecidableEq

structure Authorization (S : Signing) where
  key : S.PublicKey
  binding : GatewayAuthorizationBinding
  current : GatewayStatement
  lastGrant : GatewayStatement
  lastWall : Time
  deadline : Time
  clockUnsafe : Bool

namespace Authorization

variable {S : Signing}

def new (key : S.PublicKey) (binding : GatewayAuthorizationBinding) :
    Option (Authorization S) :=
  if !binding.validate then none
  else some ⟨key, binding, .zero, .zero, .zero, .zero, false⟩

def observeClock (a : Authorization S) (now : Time) : Authorization S × Bool :=
  let a' := { a with
    clockUnsafe := if now.isZero ∨ now.round0.before a.lastWall then true else a.clockUnsafe
    lastWall := now.round0 }
  (a', !a'.clockUnsafe)

/-- `Accept` after the statement was verified. -/
def acceptStatement (a : Authorization S) (s : GatewayStatement) (now : Time) :
    Authorization S × Bool :=
  if s = a.current then (a, true)
  else if a.current.revoked ∨ s.revision ≤ a.current.revision ∨
      s.issuedAt < a.current.issuedAt ∨ (¬ s.revoked ∧ s.expiresAt ≤ now.unixSeconds) then
    (a, false)
  else if !s.revoked then
    ({ a with
      current := s
      lastGrant := s
      deadline := now.add ((Time.ofUnix s.expiresAt).sub now) }, true)
  else ({ a with current := s }, true)

def accept (J : Codec GatewayStatement) (a : Authorization S) (wire : Bytes) (now : Time) :
    Authorization S × Bool :=
  let (a, clockOK) := a.observeClock now
  if !clockOK then (a, false)
  else match verifyGatewayStatement S J wire a.key with
    | none => (a, false)
    | some s =>
      if s.binding ≠ a.binding ∨ s.issuedAt > now.unixSeconds then (a, false)
      else a.acceptStatement s now

def status (a : Authorization S) (now : Time) : Authorization S × AuthorizationStatus :=
  let (a, clockOK) := a.observeClock now
  if a.current.revoked then (a, .revoked)
  else if !clockOK then (a, .clockUnsafe)
  else if a.current.revision = 0 then (a, .unknown)
  else if now.unixSeconds ≥ a.current.expiresAt ∨ ¬ now.before a.deadline then (a, .expired)
  else (a, .valid)

/-! ## Histories of calls -/

inductive Call where
  | accept (wire : Bytes) (now : Time)
  | status (now : Time)

inductive Event where
  | accepted (s : GatewayStatement) (now : Time)
  | rejected (now : Time)
  | status (result : AuthorizationStatus) (now : Time)
  deriving DecidableEq

def step (J : Codec GatewayStatement) (a : Authorization S) : Call → Authorization S × Event
  | .accept wire now =>
    let (a', ok) := a.accept J wire now
    (a', match ok, verifyGatewayStatement S J wire a.key with
      | true, some s => .accepted s now
      | _, _ => .rejected now)
  | .status now =>
    let (a', result) := a.status now
    (a', .status result now)

def run (J : Codec GatewayStatement) (a : Authorization S) : List Call → Authorization S × List Event
  | [] => (a, [])
  | call :: calls =>
    let (a', e) := a.step J call
    let (a'', events) := run J a' calls
    (a'', e :: events)

end Authorization

end RestFleet
