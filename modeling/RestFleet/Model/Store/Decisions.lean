import RestFleet.Model.Store.Admissions

/-! # Authorization decisions

`gateway_decisions.go`. -/

namespace RestFleet.Store

open Tx (view write lock claim commit)

def newer (best : Option Decision) (d : Decision) : Option Decision :=
  match best with
  | none => some d
  | some b => if b.revision < d.revision then some d else some b

def latest (decisions : List Decision) : Option Decision := decisions.foldl newer none

def Database.addDecision (db : Database) (d : Decision) : Database :=
  { db with decisions := db.decisions ++ [d] }

def DecisionRequest.validate (r : DecisionRequest) : Bool :=
  [r.id, r.admissionID, r.owner, r.runtimeID].all UUID.isV7 && r.expectedRevision < 2 ^ 63 - 1 &&
    if r.revoke then r.lifetime = 0
    else second ≤ r.lifetime && r.lifetime ≤ maxGatewayOfflineWindow && r.lifetime % second = 0

def Database.decisionConflict (db : Database) (d : Decision) : Bool :=
  db.decisions.any fun e => e.requestID = d.requestID ||
    (e.admissionID = d.admissionID && e.revision = d.revision)

def Decision.checks (d : Decision) : Bool :=
  0 < d.revision && d.requestID.isV7 && d.runtimeID.isV7 && unixEpoch * second < d.issuedAt &&
    truncate d.issuedAt = d.issuedAt && d.lifetime ≤ maxGatewayOfflineWindow &&
    if d.revoked then d.expiresAt.isNone && d.lifetime = 0
    else 0 < d.lifetime && d.expiresAt.any fun e =>
      truncate e = e && d.issuedAt < e && e ≤ d.issuedAt + d.lifetime

def insertDecision (d : Decision) : StoreM Unit := do
  claim (.request d.requestID)
  if (← view).decisionConflict d ∨ ¬ d.checks then throw .database
  else write (·.addDecision d)

/-- The decision that a request asks for at `now`; a grant ends with the admission. -/
def newDecision (r : DecisionRequest) (a : Admission) (now : Stamp) : Decision where
  admissionID := a.id
  revision := r.expectedRevision + 1
  requestID := r.id
  runtimeID := r.runtimeID
  lifetime := r.lifetime
  issuedAt := now
  expiresAt := if r.revoke then none else some (min (now + r.lifetime) (truncate a.expiresAt))
  revoked := r.revoke

/-- A grant is returned only while it and its admission are live. -/
def ensureDecisionLive (a : Admission) (d : Decision) : StoreM Unit := do
  if d.revoked then return ()
  else
    ensureLiveBackupAdmission a.id a.owner
    let now ← clock
    if d.expiresAt.any (now < ·) then return ()
    else throw .gatewayDecision

def returnDecision (r : DecisionRequest) (a : Admission) (d : Decision) (stored : Bool) :
    StoreM (Admission × Decision) := do
  ensureDecisionLive a d
  write (·.note (.decided r d stored))
  commit
  return (a, d)

/-- The branch of `DecideGatewayAuthorization` that is not a replay. -/
def decideNew (r : DecisionRequest) (a : Admission) (previous : Decision) :
    StoreM (Admission × Decision) := do
  if previous.revision ≠ r.expectedRevision ∨ previous.revoked ∨ a.releasedAt.isSome then
    reject .gatewayDecision
  else if (← view).decisions.any (·.requestID = r.id) then reject .gatewayDecision
  else
    let now := truncate (← clock)
    let d := newDecision r a now
    if now < previous.issuedAt then reject .gatewayDecision
    else if ¬ r.revoke ∧ ¬ d.expiresAt.any (now < ·) then reject .gatewayDecision
    else
      insertDecision d
      returnDecision r a d true

def replayMatches (r : DecisionRequest) (previous : Decision) : Bool :=
  previous.revision = r.expectedRevision + 1 && previous.revoked = r.revoke &&
    previous.lifetime = r.lifetime

/-- A withdrawal needs only the identity of the admission. -/
def lockForDecision (r : DecisionRequest) (hash : Text) : StoreM (Option Admission) :=
  if r.revoke then lockOwned r.admissionID r.owner
  else lockBackupAdmission r.admissionID r.owner hash

def decideGatewayAuthorization (r : DecisionRequest) (hash : Text) :
    StoreM (Admission × Decision) := do
  if !r.validate then throw .gatewayDecision
  else match ← lockForDecision r hash with
  | none => reject .gatewayDecision
  | some a =>
    let previous := (latest ((← view).decisionsOf a.id)).getD Decision.zero
    if previous.revision > 0 ∧ previous.runtimeID ≠ r.runtimeID then reject .gatewayDecision
    else if previous.requestID = r.id then
      if replayMatches r previous then returnDecision r a previous false
      else reject .gatewayDecision
    else decideNew r a previous

/-- `LatestGatewayAuthorization`: two statements without a transaction. -/
def latestGatewayAuthorization (id runtime : UUID) : StoreM (Admission × Decision) := do
  match latest ((← view).decisionsOf id) with
  | none => throw .notFound
  | some d =>
    if d.runtimeID ≠ runtime then throw .gatewayDecision
    else match (← view).admission? id with
    | none => throw .notFound
    | some a => return (a, d)

end RestFleet.Store
