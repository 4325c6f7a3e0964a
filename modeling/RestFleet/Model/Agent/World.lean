import RestFleet.Model.Agent.Client
import RestFleet.Shared.Serial

/-! # Runs of one Agent against the server -/

namespace RestFleet.Backup

/-- A call with the clock that its transactions read. -/
def Call.atTime (c : Call) (now : Stamp) : Tx.Answers schema × BackupProgram Unit :=
  (fun
    | .clock => now
    | .skipLocked _ => false, c.program)

def Database.handle (db : Database) (c : Call) (now : Stamp) : Database :=
  (Tx.solo (c.atTime now).1 0 (c.atTime now).2 ⟨db, db⟩).2.db

/-- Whether a report would be refused; a refused report ends the stream. -/
def Database.records {α : Type} (db : Database)
    (p : BackupProgram (Except BackupError α)) : Bool :=
  match (Tx.solo (M := schema) (fun
    | .clock => 0
    | .skipLocked _ => false) 0 p ⟨db, db⟩).1 with
  | .ok _ => true
  | .error _ => false

end RestFleet.Backup

namespace RestFleet.Agent

open Backup (Stamp Database)

def admits (db : Database) : Message → Bool
  | .progress p =>
    Backup.reportedOperationLinks p.toReport && db.records (Backup.recordOperationProgress p)
  | .result r =>
    Backup.reportedOperationLinks r.toReport && db.records (Backup.recordOperationResult r)
  | .accepted _ | .rejected _ => true

def jobOf (o : Backup.Operation) (now : Stamp) : Job where
  operationID := o.id
  planID := o.planID
  planRevision := o.planRevision
  configHash := o.configHash
  notBefore := o.scheduledAt.getD now
  deadline := o.createdAt + 86400 * second
  parentOperationID := o.parentOperationID
  rootOperationID := o.rootOperationID
  attempt := o.attempt

structure World where
  agentID : UUID
  agent : State
  server : Database
  sent : List Message
  acks : List UUID
  jobs : List Job
  cancels : List UUID

/-- What a run consists of. Identifiers of new operations are drawn by the side that creates
them; every clock is past the zero time. -/
inductive Event where
  | applyDesired (plans : List PlanSchedule) (maxParallel : ℕ)
  | advance (p : PlanSchedule) (id : UUID) (scheduled now : Stamp) (next : Option Stamp)
      (slot : State.Slot)
  | persist (id : UUID) (c : State.Counters)
  | finish (w : Worker) (o : OperationOutcome) (allowRetry : Bool) (now : Stamp) (newID : UUID)
  | endWait (w : Worker) (now : Stamp) (how : State.Wait)
  | dropWorker (w : Worker)
  | restart (now : Stamp)
  | report (now interval : Stamp) (sequence n : ℕ)
  | acknowledged (id : UUID)
  | dispatched (j : Job) (now : Stamp) (persists : Bool)
  | canceled (id : UUID)
  | deliver (m : Message) (now : Stamp)
  | cancelPending (id : UUID)
  | call (c : Backup.Call) (now : Stamp)

namespace World

structure Initial (w : World) : Prop where
  agentID : w.agentID.isV7
  records : w.agent.records = Table.empty
  plans : w.agent.plans = []
  workers : w.agent.workers = []
  server : w.server.Fresh
  sent : w.sent = []
  acks : w.acks = []
  jobs : w.jobs = []

def fresh (w : World) (id : UUID) : Bool :=
  Backup.validOperationID id && (w.agent.records.row id).isNone &&
    (w.server.operations.row id).isNone &&
    w.agent.records.rows.all (fun r => r.rootOperationID ≠ some id)

def sendable (w : World) (p : PlanSchedule) : Bool :=
  p.planID.isV7 && 1 ≤ p.revision && p.retryPolicy.all RetryPolicy.validate &&
    match w.server.plans.row p.planID, w.server.agents.row w.agentID with
    | some plan, some a => a.hostID = plan.hostID
    | _, _ => false

def foreign (w : World) : Backup.Call → Bool
  | .progress p => p.agentID ≠ w.agentID && (w.agent.records.row p.operationID).isNone
  | .result r => r.agentID ≠ w.agentID && (w.agent.records.row r.operationID).isNone
  | .create id _ _ => w.fresh id
  | .accept agentID _ | .reject agentID _ _ => agentID ≠ w.agentID
  | _ => true

def callOf (w : World) (now : Stamp) : Message → Backup.Call
  | .progress p => .progress p
  | .result r => .result r
  | .accepted id => .accept w.agentID id
  | .rejected id => .reject w.agentID id now

def newJobs (w : World) (db : Database) (now : Stamp) : List Job :=
  (db.trail.drop w.server.trail.length).filterMap fun
    | .dispatched _ id _ _ =>
      ((db.operations.row id).filter (·.agentID = w.agentID)).map fun o => jobOf o now
    | _ => none

/-- The server handles a message of the Agent, and acknowledges a result that it takes. -/
def deliver (w : World) (m : Message) (now : Stamp) : World :=
  { w with
    server := w.server.handle (w.callOf now m) now
    acks := match m with
      | .result r => if admits w.server m then r.operationID :: w.acks else w.acks
      | _ => w.acks }

def act (w : World) (x : State × List Message) : World :=
  { w with agent := x.1, sent := w.sent ++ x.2 }

def step (w : World) : Event → Option World
  | .applyDesired plans maxParallel =>
    if plans.all w.sendable then
      some { w with agent := { w.agent with plans := plans, maxParallel := maxParallel } }
    else none
  | .advance p id scheduled now next slot =>
    if p ∈ w.agent.plans ∧ scheduled ≠ 0 ∧ 0 < now ∧
        (w.fresh id ∨ (w.agent.records.row id).isSome) then
      some { w with agent := w.agent.advancePlan p id scheduled now next slot }
    else none
  | .persist id c =>
    if c.valid ∧ w.agent.workers.any (fun x => x.record.id = id && !x.waiting) then
      some { w with agent := w.agent.updateOperation id c.apply }
    else none
  | .finish x o allowRetry now newID =>
    if x ∈ w.agent.workers ∧ x.waiting = false ∧ o.valid ∧ 0 < now ∧ w.fresh newID then
      some { w with agent := w.agent.finishWorker x o allowRetry now newID }
    else none
  | .endWait x now how =>
    if x ∈ w.agent.workers ∧ x.waiting = true ∧ 0 < now then
      some { w with agent := w.agent.endWait x now how }
    else none
  | .dropWorker x =>
    some { w with agent := { w.agent with workers := w.agent.workers.erase x } }
  | .restart now => if 0 < now then some { w with agent := w.agent.restart now } else none
  | .report now interval sequence n =>
    if 0 < now ∧ 0 < sequence ∧ sequence < 2 ^ 63 then
      some (w.act (w.agent.reportOperations w.agentID now interval sequence n))
    else none
  | .acknowledged id =>
    if id ∈ w.acks then some { w with agent := w.agent.markOperationUploaded id } else none
  | .dispatched j now persists =>
    if j ∈ w.jobs ∧ 0 < now ∧ j.notBefore ≠ 0 then
      some (w.act (w.agent.handleJobDispatch j w.agentID now persists))
    else none
  | .canceled id =>
    if id ∈ w.cancels then some { w with agent := w.agent.cancelOperation id } else none
  | .deliver m now => if m ∈ w.sent then some (w.deliver m now) else none
  | .cancelPending id =>
    if (w.server.operations.row id).any (fun o => o.agentID = w.agentID &&
        o.status = .cancelRequested) then
      some { w with cancels := id :: w.cancels }
    else none
  | .call c now =>
    if w.foreign c then
      let db := w.server.handle c now
      some { w with server := db, jobs := w.jobs ++ w.newJobs db now }
    else none

def run (w : World) : List Event → Option World
  | [] => some w
  | e :: rest => (w.step e).bind (·.run rest)

end World

end RestFleet.Agent
