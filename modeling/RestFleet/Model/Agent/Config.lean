import RestFleet.Model.Agent.Scheduler

/-! # Desired states on an Agent

`ApplyDesiredState` over the buckets that it reads and writes, under `schedulerMu` as the ticks are. -/

namespace RestFleet.Agent.Config

open Backup (Stamp)
open Domain (DesiredState DesiredStateError Digest Zones)

structure PendingConfigResult where
  revision : ℤ
  configHash : Text
  accepted : Bool
  errorCode : Text
  fieldPath : Text
  deriving DecidableEq

/-- `agentv1.DesiredStateSnapshot` with the two messages that it may lack. -/
structure Message where
  snapshot : Domain.Snapshot
  hasGeneratedAt : Bool
  hasRuntimePolicy : Bool

def desiredStateFromProto (digest : Digest) (zones : Zones) (agentID : UUID) :
    Option Message → Except DesiredStateError DesiredState
  | none => .error ⟨"SNAPSHOT_INVALID".toList, []⟩
  | some m =>
    if !m.hasGeneratedAt || !m.hasRuntimePolicy then .error ⟨"SNAPSHOT_INVALID".toList, []⟩
    else Domain.desiredStateFromProto digest zones agentID m.snapshot

/-- `validateHooks`; `hooks` are the identifiers of the local allowlist. -/
def validateHooks (hooks : List UUID) (execution : Option Domain.BackupExecution) : Bool :=
  execution.all fun e =>
    e.preHookIDs.items.all hooks.contains && e.postHookIDs.items.all hooks.contains

def receive (digest : Digest) (site : Site) (hooks : List UUID) (agentID : UUID)
    (message : Option Message) : Except DesiredStateError DesiredState := do
  let state ← desiredStateFromProto digest site.zones agentID message
  if state.plans.any fun p => !validateHooks hooks p.execution then
    Domain.stateError "HOOK_UNAVAILABLE" "plans.execution"
  pure state

def acceptedConfigResult (state : DesiredState) : PendingConfigResult :=
  ⟨state.revision, state.configHash, true, [], []⟩

def rejectedConfigResult (message : Option Message) (e : DesiredStateError) : PendingConfigResult :=
  ⟨message.elim 0 (·.snapshot.revision), [], false, e.code, e.fieldPath⟩

structure File where
  durable : Durable
  staging : Option DesiredState
  outbound : Option PendingConfigResult

def File.empty : File := ⟨⟨.empty, fun _ => none, none⟩, none, none⟩

/-- What comes from outside during a call: the clock, and the transactions that succeed. -/
structure Env where
  now : Stamp
  reads : Bool
  stages : Bool
  activates : Bool
  reports : Bool

/-- `storePendingConfigResult`, with the answer of the call. An answer is `none` with an error. -/
def File.storePendingConfigResult (f : File) (env : Env) (result : PendingConfigResult) :
    Option PendingConfigResult × File :=
  if env.reports then (some result, { f with outbound := some result }) else (none, f)

/-- The transactions for a state that is newer than the active one. The first leaves the state in the
staging bucket, the second is activation with the runtimes of the plans. -/
def File.activate (site : Site) (env : Env) (state : DesiredState) (f : File) :
    Option PendingConfigResult × File :=
  if !env.stages then (none, f)
  else
    let staged := { f with staging := some state }
    match reconcilePlanRuntimes site f.durable.plans state.plans env.now f.durable.runtimes with
    | none => (none, staged)
    | some runtimes =>
      if !env.activates then (none, staged)
      else
        let result := acceptedConfigResult state
        (some result, ⟨{ f.durable with desired := some state, runtimes }, none, some result⟩)

def File.applyState (site : Site) (env : Env) (message : Option Message) (state : DesiredState)
    (f : File) : Option PendingConfigResult × File :=
  match f.durable.desired with
  | none => f.activate site env state
  | some active =>
    if state.revision < active.revision then
      f.storePendingConfigResult env
        (rejectedConfigResult message ⟨"REVISION_ROLLBACK".toList, "revision".toList⟩)
    else if state.revision = active.revision then
      if state.configHash ≠ active.configHash then
        f.storePendingConfigResult env
          (rejectedConfigResult message ⟨"REVISION_CONFLICT".toList, "config_hash".toList⟩)
      else f.storePendingConfigResult env (acceptedConfigResult state)
    else f.activate site env state

def File.applyDesiredState (digest : Digest) (site : Site) (hooks : List UUID) (agentID : UUID)
    (message : Option Message) (env : Env) (f : File) : Option PendingConfigResult × File :=
  match receive digest site hooks agentID message with
  | .error e =>
    let result := rejectedConfigResult message e
    if result.revision < 1 then (none, f) else f.storePendingConfigResult env result
  | .ok state => if !env.reads then (none, f) else f.applyState site env message state

def File.clearPendingConfigResult (f : File) (revision : ℤ) : File :=
  if f.outbound.any fun r => r.revision = revision then { f with outbound := none } else f

/-- What happens to the file. Hooks and the identity of the Agent are those of the process that runs
at the time. Whatever else an Agent does changes records only. -/
inductive Act where
  | apply (hooks : List UUID) (agentID : UUID) (message : Option Message) (env : Env)
  | clear (revision : ℤ)
  | advance (p : Domain.PlanSchedule) (k : TickState) (now : Stamp) (busy : Bool)
  | work (records : Table UUID OperationRecord)

def Act.perform (digest : Digest) (site : Site) (f : File) : Act → File
  | .apply hooks agentID message env => (f.applyDesiredState digest site hooks agentID message env).2
  | .clear revision => f.clearPendingConfigResult revision
  | .advance p k now busy =>
    if p ∈ f.durable.plans then
      { f with durable := (f.durable.advancePlan site k p now busy).1 }
    else f
  | .work records => { f with durable := { f.durable with records } }

def run (digest : Digest) (site : Site) (f : File) (acts : List Act) : File :=
  acts.foldl (Act.perform digest site) f

end RestFleet.Agent.Config
