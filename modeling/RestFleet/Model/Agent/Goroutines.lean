import RestFleet.Model.Agent.Process

/-! # The workers of an Agent -/

namespace RestFleet.Agent

open Backup (Stamp)

def op (o : Op) : AgentM (Reply o) := Program.perform o

def view : AgentM Durable := op .view
def now : AgentM Stamp := op .now
def choose : AgentM Bool := op .choose
def store (w : Write) : AgentM Bool := op (.store w)
def beginOperation (parent : Ctx) (id : UUID) : AgentM Ctx := op (.beginOperation parent id)
def isDone (ctx : Ctx) : AgentM Bool := op (.isDone ctx)
def wait (ctx : Ctx) : AgentM Bool := op (.wait ctx)
def go (run : Run) : AgentM Unit := op (.go run)

def finishWithRetry (p : Domain.PlanSchedule) (r : OperationRecord) (deadline : Stamp)
    (allowRetry : Bool) : AgentM (Option (Option OperationRecord)) :=
  op (.finishWithRetry p r deadline allowRetry)

/-! ## `executeOperation` -/

def endRuns : List (UUID × Ctx) → AgentM Unit
  | [] => pure ()
  | (id, ctx) :: rest => do
    op (.endRun id ctx)
    endRuns rest

/-- The start of a run: it is registered before its goroutine exists. -/
def executeOperation (parent : Ctx) (p : Domain.PlanSchedule) (r : OperationRecord)
    (deadline : Stamp) : AgentM Unit := do
  let ctx ← beginOperation parent r.id
  go ⟨r, p, deadline, ctx, [(r.id, ctx)]⟩

def storageUnavailable (o : OperationOutcome) : OperationOutcome :=
  { o with status := .failed, errorCode := .stateStorageUnavailable }

def OperationOutcome.zero : OperationOutcome := ⟨.failed, 0, .none, [], 0, 0, 0, 0, 0, 0, none⟩

def closeRetry (run : Run) (code : Backup.ErrorCode) : AgentM Unit := do
  let t ← now
  let _ ← store (.putOperation (State.closeRetry run.record code t))
  endRuns run.opened

/-- The wait for a retry. If it ends with the retry, the loop goes on. -/
def waitForRetry (run : Run) : AgentM Unit := do
  if ← wait run.ctx then closeRetry run .canceled
  else
    let d ← view
    let t ← now
    if !(d.plans.any fun q => (PlanSchedule.of q).same (.of run.plan)) || run.deadline ≤ t then
      closeRetry run .configSuperseded
    else go run

def executeRun (run : Run) : AgentM OperationOutcome := do
  if ← choose then
    op (.execute run.record run.ctx)
    op .outcome
  else pure (storageUnavailable .zero)

/-- One round of the loop of a worker. -/
def work (run : Run) : AgentM Unit := do
  let o ← executeRun run
  let logged ← choose
  let t ← now
  let r := run.record.finish (if logged then o else storageUnavailable o) t
  let done ← isDone run.ctx
  match ← finishWithRetry run.plan r run.deadline (!done) with
  | some (some next) => do
    let ctx ← beginOperation run.ctx next.id
    waitForRetry ⟨next, run.plan, next.deadline.getD 0, ctx, (next.id, ctx) :: run.opened⟩
  | _ => endRuns run.opened

end RestFleet.Agent
