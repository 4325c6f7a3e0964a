import Mathlib.Data.List.Sort
import RestFleet.Model.Domain.Template

/-! # Desired states

`domain.PlanSchedule` and `domain.DesiredState` with their row and their message. Instants are the
microseconds of `timestamptz` since the zero time. -/

namespace RestFleet.Domain

structure DesiredStateError where
  code : Text
  fieldPath : Text
  deriving DecidableEq

def stateError (code fieldPath : String) : Except DesiredStateError Unit :=
  .error ⟨code.toList, fieldPath.toList⟩

structure RuntimePolicy where
  maxParallelIOJobs : ℤ
  logLimitBytes : ℤ
  deriving DecidableEq

def defaultLogLimitBytes : ℤ := 10 * 2 ^ 20

structure PlanSchedule where
  planID : UUID
  revision : ℤ
  name : Text
  hostID : UUID
  repositoryID : UUID
  cron : Text
  timezone : Text
  jitterSeconds : ℤ
  misfireGraceSeconds : ℤ
  concurrencyPolicy : Text
  paths : Slice Text
  excludePatterns : Slice Text
  excludeCaches : Bool
  oneFileSystem : Bool
  configHash : Text
  execution : Option BackupExecution
  deriving DecidableEq

structure DesiredState where
  agentID : UUID
  revision : ℤ
  generatedAt : ℤ
  configHash : Text
  runtimePolicy : RuntimePolicy
  plans : List PlanSchedule
  deriving DecidableEq

/-! ## Validation -/

def PlanSchedule.validate (zones : Zones) (p : PlanSchedule) : Except DesiredStateError Unit := do
  if !p.planID.isV7 then stateError "PLAN_ID_INVALID" "plans.plan_id"
  if p.revision < 1 then stateError "PLAN_REVISION_INVALID" "plans.revision"
  if p.name.isEmpty || 128 < p.name.byteLength then stateError "PLAN_NAME_INVALID" "plans.name"
  if !p.repositoryID.isV7 then stateError "PLAN_REPOSITORY_INVALID" "plans.repository_id"
  if p.paths.items.isEmpty then stateError "PLAN_PATHS_REQUIRED" "plans.paths"
  if p.jitterSeconds < 0 || p.jitterSeconds > 3600 then
    stateError "PLAN_JITTER_INVALID" "plans.jitter_seconds"
  if p.misfireGraceSeconds < 0 || p.misfireGraceSeconds > 86400 then
    stateError "PLAN_MISFIRE_INVALID" "plans.misfire_grace_seconds"
  if !(["", "FORBID", "ALLOW"].map String.toList).contains p.concurrencyPolicy then
    stateError "PLAN_CONCURRENCY_INVALID" "plans.concurrency_policy"
  if !validateCron p.cron then stateError "PLAN_CRON_INVALID" "plans.cron"
  if !validateTimezone zones p.timezone then
    stateError "PLAN_TIMEZONE_INVALID" "plans.timezone"
  match validateBackupPaths p.paths p.excludePatterns with
  | .error e => throw ⟨"PLAN_PATHS_INVALID".toList, "plans.".toList ++ e.field⟩
  | .ok () => pure ()
  match validateExecution p.execution with
  | .error _ => stateError "PLAN_EXECUTION_INVALID" "plans.execution"
  | .ok () => pure ()

/-! ## JSON -/

def RuntimePolicy.members (p : RuntimePolicy) : List (Text × Json) :=
  [("max_parallel_io_jobs".toList, .int p.maxParallelIOJobs),
    ("log_limit_bytes".toList, .int p.logLimitBytes)]

def RuntimePolicy.encode (p : RuntimePolicy) : Json := .obj p.members

def RuntimePolicy.zero : RuntimePolicy := ⟨0, 0⟩

/-- The fields are a `uint32` and a `uint64`; `null` leaves a record as it is. -/
def RuntimePolicy.decode (p : RuntimePolicy) : Json → Option RuntimePolicy
  | .null => some p
  | .obj ms => do
    let maxParallelIOJobs ← Json.field "max_parallel_io_jobs".toList
      (Json.decodeInt 0 (2 ^ 32 - 1)) p.maxParallelIOJobs ms
    let logLimitBytes ← Json.field "log_limit_bytes".toList
      (Json.decodeInt 0 (2 ^ 64 - 1)) p.logLimitBytes ms
    pure ⟨maxParallelIOJobs, logLimitBytes⟩
  | _ => none

namespace PlanSchedule

def zero : PlanSchedule :=
  ⟨UUID.nil, 0, [], UUID.nil, UUID.nil, [], [], 0, 0, [], none, none, false, false, [], none⟩

def fixedMembers (p : PlanSchedule) : List (Text × Json) :=
  [("plan_id".toList, encodeUUID p.planID),
    ("revision".toList, .int p.revision),
    ("name".toList, .str p.name),
    ("host_id".toList, encodeUUID p.hostID),
    ("repository_id".toList, encodeUUID p.repositoryID),
    ("cron".toList, .str p.cron),
    ("timezone".toList, .str p.timezone),
    ("jitter_seconds".toList, .int p.jitterSeconds),
    ("misfire_grace_seconds".toList, .int p.misfireGraceSeconds),
    ("concurrency_policy".toList, .str p.concurrencyPolicy),
    ("paths".toList, Json.encodeSlice .str p.paths),
    ("exclude_patterns".toList, Json.encodeSlice .str p.excludePatterns),
    ("exclude_caches".toList, .bool p.excludeCaches),
    ("one_file_system".toList, .bool p.oneFileSystem),
    ("config_hash".toList, .str p.configHash)]

def members (p : PlanSchedule) : List (Text × Json) :=
  p.fixedMembers ++
    Json.sparse [("execution".toList, Json.encodePointer BackupExecution.encode p.execution)]

def encode (p : PlanSchedule) : Json := .obj p.members

def decode (p : PlanSchedule) : Json → Option PlanSchedule
  | .null => some p
  | .obj ms => do
    let planID ← Json.field "plan_id".toList decodeUUID p.planID ms
    let revision ← Json.field "revision".toList decodeInt p.revision ms
    let name ← Json.field "name".toList Json.decodeStr p.name ms
    let hostID ← Json.field "host_id".toList decodeUUID p.hostID ms
    let repositoryID ← Json.field "repository_id".toList decodeUUID p.repositoryID ms
    let cron ← Json.field "cron".toList Json.decodeStr p.cron ms
    let timezone ← Json.field "timezone".toList Json.decodeStr p.timezone ms
    let jitterSeconds ← Json.field "jitter_seconds".toList decodeInt p.jitterSeconds ms
    let misfireGraceSeconds ←
      Json.field "misfire_grace_seconds".toList decodeInt p.misfireGraceSeconds ms
    let concurrencyPolicy ←
      Json.field "concurrency_policy".toList Json.decodeStr p.concurrencyPolicy ms
    let paths ← Json.field "paths".toList decodeTexts p.paths ms
    let excludePatterns ← Json.field "exclude_patterns".toList decodeTexts p.excludePatterns ms
    let excludeCaches ← Json.field "exclude_caches".toList Json.decodeBool p.excludeCaches ms
    let oneFileSystem ← Json.field "one_file_system".toList Json.decodeBool p.oneFileSystem ms
    let configHash ← Json.field "config_hash".toList Json.decodeStr p.configHash ms
    let execution ← Json.field "execution".toList
      (Json.decodePointer BackupExecution.zero (BackupExecution.decode false)) p.execution ms
    pure { planID, revision, name, hostID, repositoryID, cron, timezone, jitterSeconds,
           misfireGraceSeconds, concurrencyPolicy, paths, excludePatterns, excludeCaches,
           oneFileSystem, configHash, execution }
  | _ => none

def less (p q : PlanSchedule) : Bool :=
  if p.planID ≠ q.planID then p.planID.text < q.planID.text else p.revision < q.revision

end PlanSchedule

def sortPlans (plans : List PlanSchedule) : List PlanSchedule :=
  plans.insertionSort fun p q => q.less p = false

namespace DesiredState

def members (s : DesiredState) : List (Text × Json) :=
  [("plans".toList, .arr ((sortPlans s.plans).map PlanSchedule.encode)),
    ("repositories".toList, .arr []),
    ("runtime_policy".toList, s.runtimePolicy.encode)]

def encode (s : DesiredState) : Json := .obj s.members

def canonicalJSON (s : DesiredState) : Text := Json.render s.encode

def expectedHash (digest : Digest) (s : DesiredState) : Text :=
  "sha256:".toList ++ digest s.canonicalJSON

def validate (digest : Digest) (zones : Zones) (s : DesiredState) :
    Except DesiredStateError Unit := do
  if s.agentID = UUID.nil then stateError "AGENT_ID_INVALID" "agent_id"
  if s.revision < 1 then stateError "REVISION_INVALID" "revision"
  if s.generatedAt = 0 then stateError "GENERATED_AT_INVALID" "generated_at"
  if s.runtimePolicy.maxParallelIOJobs < 1 || s.runtimePolicy.maxParallelIOJobs > 16 then
    stateError "MAX_PARALLEL_IO_JOBS_INVALID" "runtime_policy.max_parallel_io_jobs"
  if s.runtimePolicy.logLimitBytes < 64 * 2 ^ 10 ||
      s.runtimePolicy.logLimitBytes > defaultLogLimitBytes then
    stateError "LOG_LIMIT_BYTES_INVALID" "runtime_policy.log_limit_bytes"
  s.plans.forM fun p => p.validate zones
  if s.configHash ≠ s.expectedHash digest then stateError "CONFIG_HASH_MISMATCH" "config_hash"

end DesiredState

/-! ## The database row -/

structure DesiredStateRow where
  agentID : UUID
  revision : ℤ
  generatedAt : ℤ
  configHash : Text
  configJSON : Json

/-- The part of the column that is decoded; a null list is nil. -/
def decodeState : Json → Option (RuntimePolicy × List PlanSchedule)
  | .null => some (.zero, [])
  | .obj ms => do
    let policy ← Json.field "runtime_policy".toList RuntimePolicy.decode .zero ms
    let plans ← Json.field "plans".toList
      (Json.decodeSlice (PlanSchedule.decode .zero)) none ms
    pure (policy, Slice.items plans)
  | _ => none

/-- `Store.DesiredState` of the Agent's current row; `none` is an error. -/
def DesiredStateRow.load (digest : Digest) (zones : Zones) (row : DesiredStateRow) :
    Option DesiredState := do
  let (policy, plans) ← decodeState row.configJSON
  let state : DesiredState := ⟨row.agentID, row.revision, row.generatedAt, row.configHash, policy, plans⟩
  match state.validate digest zones with
  | .ok () => some state
  | .error _ => none

/-! ## The message -/

/-- `agentv1.PlanSchedule`. A repeated field has no nil; the bytes of the execution are given by
the value that they encode, and none is an absent field. -/
structure PlanMessage where
  planID : Text
  revision : ℤ
  name : Text
  hostID : Text
  repositoryID : Text
  cron : Text
  timezone : Text
  jitterSeconds : ℤ
  misfireGraceSeconds : ℤ
  concurrencyPolicy : Text
  paths : List Text
  excludePatterns : List Text
  excludeCaches : Bool
  oneFileSystem : Bool
  configHash : Text
  executionConfigJSON : Option Json

structure Snapshot where
  revision : ℤ
  generatedAt : ℤ
  configHash : Text
  maxParallelIOJobs : ℤ
  logLimitBytes : ℤ
  plans : List PlanMessage

def toInt32 (n : ℤ) : ℤ := n.bmod (2 ^ 32)

def executionLimit : ℕ := 16 * 2 ^ 10

def oversized (j : Json) : Bool := executionLimit < Text.byteLength (Json.render j)

/-- What becomes of a state that is to be sent. -/
inductive Sending where
  | capabilityRequired
  | invalidExecution
  | sent (snapshot : Snapshot)

def PlanSchedule.message (p : PlanSchedule) : PlanMessage where
  planID := p.planID.text
  revision := p.revision
  name := p.name
  hostID := p.hostID.text
  repositoryID := p.repositoryID.text
  cron := p.cron
  timezone := p.timezone
  jitterSeconds := toInt32 p.jitterSeconds
  misfireGraceSeconds := toInt32 p.misfireGraceSeconds
  concurrencyPolicy := p.concurrencyPolicy
  paths := p.paths.items
  excludePatterns := p.excludePatterns.items
  excludeCaches := p.excludeCaches
  oneFileSystem := p.oneFileSystem
  configHash := p.configHash
  executionConfigJSON := p.execution.map BackupExecution.encode

/-- The loop of `sendDesiredState`, and the message. `capable` says that the Agent has
`domain.BackupExecutionCapability`. -/
def sendDesiredState (capable : Bool) (s : DesiredState) : Sending :=
  match s.plans.find? fun p => p.execution.any fun e => !capable || oversized e.encode with
  | some _ => if capable then .invalidExecution else .capabilityRequired
  | none => .sent ⟨s.revision, s.generatedAt, s.configHash, s.runtimePolicy.maxParallelIOJobs,
      s.runtimePolicy.logLimitBytes, s.plans.map PlanSchedule.message⟩

/-- `CheckValid` of a timestamp: years 1 to 9999. -/
def timestampValid (t : ℤ) : Bool := 0 ≤ t && t < (unixEpoch + 253402300800) * 1000000

/-- A repeated field as the decoder of the message leaves it. -/
def repeatedField {α : Type} (xs : List α) : Slice α := if xs.isEmpty then none else some xs

def decodeExecution (raw : Option Json) : Except DesiredStateError (Option BackupExecution) :=
  match raw with
  | none => .ok none
  | some j =>
    let invalid := ⟨"PLAN_EXECUTION_INVALID".toList, "plans.execution".toList⟩
    if oversized j then .error invalid
    else match Json.decodePointer BackupExecution.zero (BackupExecution.decode true) none j with
      | some (some e) =>
        match e.validate with
        | .ok () => .ok (some e)
        | .error _ => .error invalid
      | _ => .error invalid

def PlanMessage.schedule (m : PlanMessage) : Except DesiredStateError PlanSchedule := do
  let some planID := UUID.parse m.planID
    | throw ⟨"PLAN_ID_INVALID".toList, "plans.plan_id".toList⟩
  let some repositoryID := UUID.parse m.repositoryID
    | throw ⟨"PLAN_REPOSITORY_INVALID".toList, "plans.repository_id".toList⟩
  let some hostID := UUID.parse m.hostID
    | throw ⟨"PLAN_HOST_INVALID".toList, "plans.host_id".toList⟩
  let execution ← decodeExecution m.executionConfigJSON
  pure { planID, revision := m.revision, name := m.name, hostID, repositoryID, cron := m.cron,
         timezone := m.timezone, jitterSeconds := m.jitterSeconds,
         misfireGraceSeconds := m.misfireGraceSeconds, concurrencyPolicy := m.concurrencyPolicy,
         paths := repeatedField m.paths, excludePatterns := repeatedField m.excludePatterns,
         excludeCaches := m.excludeCaches, oneFileSystem := m.oneFileSystem,
         configHash := m.configHash, execution }

/-- The state that `desiredStateFromProto` builds, before its validation. -/
def Snapshot.state (agentID : UUID) (snapshot : Snapshot) : Except DesiredStateError DesiredState := do
  if !timestampValid snapshot.generatedAt then throw ⟨"SNAPSHOT_INVALID".toList, []⟩
  let plans ← snapshot.plans.mapM PlanMessage.schedule
  pure ⟨agentID, snapshot.revision, snapshot.generatedAt, snapshot.configHash,
    ⟨snapshot.maxParallelIOJobs, snapshot.logLimitBytes⟩, plans⟩

def desiredStateFromProto (digest : Digest) (zones : Zones) (agentID : UUID) (snapshot : Snapshot) :
    Except DesiredStateError DesiredState := do
  let state ← snapshot.state agentID
  state.validate digest zones
  pure state

end RestFleet.Domain
