import RestFleet.Model.Agent.Client
import RestFleet.Model.Agent.Schedule

/-! # The durable state of an Agent and its slots

`PlanRuntime` and the decisions of `advancePlan`, `finishWithRetry` and `reconcilePlanRuntimes`, as
functions of what the bbolt file holds. -/

namespace RestFleet.Agent

open Backup (Stamp Status ErrorCode)
open Schedule (Scheduler operationID)

/-- `PlanRuntime`; a zero time or UUID is `none`. -/
structure PlanRuntime where
  planID : UUID
  planRevision : ℤ
  configHash : Text
  lastScheduledAt : Option Stamp
  nextRunAt : Option Stamp
  lastOperationID : Option UUID
  deriving DecidableEq

namespace PlanRuntime

def zero (planID : UUID) : PlanRuntime := ⟨planID, 0, [], none, none, none⟩

def adopt (rt : PlanRuntime) (p : Domain.PlanSchedule) : PlanRuntime :=
  { rt with planID := p.planID, planRevision := p.revision, configHash := p.configHash }

end PlanRuntime

def PlanSchedule.of (p : Domain.PlanSchedule) : PlanSchedule where
  planID := p.planID
  revision := p.revision
  configHash := p.configHash
  retryPolicy := (p.execution.bind (·.retryPolicy)).map fun r =>
    ⟨r.maxAttempts, r.initialBackoffSeconds, r.maxBackoffSeconds⟩
  allowConcurrent := p.concurrencyPolicy = "ALLOW".toList

def Schedule.ofPlan (site : Site) (p : Domain.PlanSchedule) : Option Scheduler :=
  Schedule.new site.zones p.planID
    ⟨p.cron, p.timezone, p.jitterSeconds, p.misfireGraceSeconds, p.concurrencyPolicy⟩

/-- What the bbolt file holds, as far as operations depend on it. -/
structure Durable where
  records : Table UUID OperationRecord
  runtimes : UUID → Option PlanRuntime
  desired : Option Domain.DesiredState

namespace Durable

def plans (d : Durable) : List Domain.PlanSchedule := (d.desired.map (·.plans)).getD []

def state (d : Durable) : State where
  records := d.records
  plans := d.plans.map .of
  nextRunAt := fun id => (d.runtimes id).bind (·.nextRunAt)
  maxParallel := (d.desired.elim 0 fun s => s.runtimePolicy.maxParallelIOJobs).toNat
  workers := []
  canceled := []

def putOperation (d : Durable) (r : OperationRecord) : Durable :=
  { d with records := d.records.upsert r.id r fun _ => r }

/-- `PutPlanRuntime`; the identifiers of plans are not zero. -/
def putPlanRuntime (d : Durable) (rt : PlanRuntime) : Durable :=
  { d with runtimes := Function.update d.runtimes rt.planID (some rt) }

/-- `PutOperationWithRuntime`, of a record and a runtime of the same plan. -/
def putOperationWithRuntime (d : Durable) (r : OperationRecord) (rt : PlanRuntime) : Durable :=
  (d.putOperation r).putPlanRuntime rt

end Durable

/-! ## `advancePlan` -/

inductive Due where
  | settled (rt : PlanRuntime)
  | waiting
  | due (scheduled : Stamp) (rt : PlanRuntime)
  deriving DecidableEq

/-- The first half of `advancePlan`: the next run is computed for a runtime that has none, and for
the one after a slot that is due. -/
def dueSlot (site : Site) (scheduler : Scheduler) (p : Domain.PlanSchedule) (now : Stamp)
    (found : Option PlanRuntime) : Due :=
  let old := found.getD (.zero p.planID)
  let changed := old.planRevision ≠ 0 ∧
    (old.planRevision ≠ p.revision ∨ old.configHash ≠ p.configHash)
  let rt := old.adopt p
  match rt.nextRunAt with
  | none => .settled { rt with nextRunAt := scheduler.nextRun site now }
  | some scheduled =>
    if found.isNone ∨ changed then
      .settled { rt with nextRunAt := (scheduler.nextRun site now).or rt.nextRunAt }
    else if now < scheduled then .waiting
    else .due scheduled
      { rt with nextRunAt := scheduler.nextRun site now, lastScheduledAt := some scheduled }

/-- What the scheduler remembers of its last tick. -/
structure TickState where
  schedulerTickAt : Stamp
  schedulerInterval : Stamp
  deriving DecidableEq

def normalWakeup (k : TickState) (now scheduled : Stamp) : Bool :=
  k.schedulerTickAt ≠ 0 && k.schedulerTickAt ≤ scheduled &&
    now - k.schedulerTickAt ≤ k.schedulerInterval + second

def slotKind (k : TickState) (p : Domain.PlanSchedule) (now scheduled : Stamp) (busy : Bool) :
    State.Slot :=
  if !normalWakeup k now scheduled && Schedule.reportMissed now scheduled p.misfireGraceSeconds then
    .missed
  else if Schedule.concurrencySkip p.concurrencyPolicy busy then .skipped
  else .run

def slotRecord (site : Site) (k : TickState) (p : Domain.PlanSchedule) (now scheduled : Stamp)
    (busy : Bool) : OperationRecord :=
  State.slotRecord (.of p) (operationID site p.planID scheduled) scheduled now
    (slotKind k p now scheduled busy)

/-- The runtime that is stored with a record; only a run becomes the last operation. -/
def PlanRuntime.ran (rt : PlanRuntime) (r : OperationRecord) : PlanRuntime :=
  if r.status = .running then { rt with lastOperationID := some r.id } else rt

/-- `advancePlan` up to the start of a run, with the record that it stores. -/
def Durable.advancePlan (site : Site) (k : TickState) (p : Domain.PlanSchedule) (now : Stamp)
    (busy : Bool) (d : Durable) : Durable × Option OperationRecord :=
  match Schedule.ofPlan site p with
  | none => (d, none)
  | some scheduler =>
    match dueSlot site scheduler p now (d.runtimes p.planID) with
    | .settled rt => (d.putPlanRuntime rt, none)
    | .waiting => (d, none)
    | .due scheduled rt =>
      if (d.records.row (operationID site p.planID scheduled)).isSome then
        (d.putPlanRuntime rt, none)
      else
        let r := slotRecord site k p now scheduled busy
        (d.putOperationWithRuntime r (rt.ran r), some r)

/-! ## `reconcilePlanRuntimes` -/

def unchanged (old p : Domain.PlanSchedule) : Bool :=
  old.revision = p.revision && old.configHash = p.configHash && old.cron = p.cron &&
    old.timezone = p.timezone && old.jitterSeconds = p.jitterSeconds

/-- The runtime of a plan that is activated; `previous` are the plans before. -/
def reconcilePlan (site : Site) (previous : List Domain.PlanSchedule) (now : Stamp)
    (found : Option PlanRuntime) (p : Domain.PlanSchedule) : Option PlanRuntime :=
  let rt := (found.getD (.zero p.planID)).adopt p
  if ((previous.filter (·.planID = p.planID)).getLast?).any (unchanged · p) then some rt
  else (Schedule.ofPlan site p).map fun scheduler =>
    { rt with nextRunAt := scheduler.nextRun site now }

/-- `reconcilePlanRuntimes`: the runtimes of the plans in `next`, and no others. -/
def reconcilePlanRuntimes (site : Site) (previous next : List Domain.PlanSchedule) (now : Stamp)
    (runtimes : UUID → Option PlanRuntime) : Option (UUID → Option PlanRuntime) := do
  let runtimes ← next.foldlM (fun runtimes p => do
    let rt ← reconcilePlan site previous now (runtimes p.planID) p
    pure (Function.update runtimes p.planID (some rt))) runtimes
  pure fun id => if next.any (·.planID = id) then runtimes id else none

end RestFleet.Agent
