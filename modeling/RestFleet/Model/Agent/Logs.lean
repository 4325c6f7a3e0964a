import RestFleet.Model.Strings

/-! # The local log of an operation

`logs.go` of the Agent and `BackupLogEntry`. `json.Marshal` of an entry is a parameter; a log that does
not exist yet is `none`. -/

namespace RestFleet.Agent.Logs

/-! ## Entries -/

structure Entry where
  sequence : ℕ
  observedAt : ℤ
  «section» : Text
  level : Text
  code : Text
  filesDone : ℤ
  bytesDone : ℤ
  deriving DecidableEq

/-- `BACKUP_PROGRESS`, the only code that is not critical. -/
def backupProgress : Text := "BACKUP_PROGRESS".toList

def logTruncated : Text := "LOG_TRUNCATED".toList

/-- The codes of `ValidBackupErrorCode` other than the empty one. -/
def backupErrorCodes : List Text :=
  ["EXECUTOR_UNAVAILABLE", "IDENTITY_UNAVAILABLE", "CREDENTIAL_UNAVAILABLE", "WORKDIR_UNAVAILABLE",
    "CONFIG_INVALID", "CANCELED", "GATEWAY_SESSION_FAILED", "GATEWAY_CLEANUP_UNCONFIRMED",
    "GATEWAY_BUSY", "INVALID_ENGINE_OUTPUT", "PARTIAL_READ", "GATEWAY_UNAVAILABLE",
    "GATEWAY_RATE_LIMITED", "REPOSITORY_LOCKED", "WRONG_REPOSITORY_PASSWORD", "REPOSITORY_MISSING",
    "BACKUP_FAILED", "UNKNOWN_EXIT_CODE", "STATE_STORAGE_UNAVAILABLE", "BACKUP_TIMED_OUT",
    "PRE_HOOK_FAILED", "POST_HOOK_FAILED", "CONFIG_SUPERSEDED", "LOCAL_OPERATION_RECOVERED",
    "MISFIRE_GRACE_EXCEEDED", "CONCURRENCY_SKIPPED", "AGENT_REJECTED"].map String.toList

def eventCodes : List Text :=
  ["BACKUP_STARTED", "BACKUP_PROGRESS", "BACKUP_SUMMARY", "BACKUP_SUCCEEDED",
    "BACKUP_SUCCEEDED_WITH_WARNINGS", "HOOK_STARTED", "HOOK_FINISHED", "ENGINE_READ_ERROR",
    "LOG_TRUNCATED"].map String.toList

def sections : List Text := ["backup", "pre_hook", "post_hook", "agent"].map String.toList

def levels : List Text := ["INFO", "WARN", "ERROR"].map String.toList

def Entry.validate (e : Entry) : Bool :=
  !(e.sequence = 0 || 2 ^ 62 < e.sequence || e.observedAt = 0 || e.filesDone < 0 ||
    e.bytesDone < 0) &&
  sections.contains e.section && levels.contains e.level &&
  (eventCodes.contains e.code || backupErrorCodes.contains e.code)

def Entry.key (e : Entry) : Text := e.section ++ ':' :: e.code

/-! ## The log -/

structure LogState where
  next : ℕ
  ack : ℕ
  bytes : ℕ
  limit : ℕ
  truncated : Bool
  critical : List Text
  sentThrough : ℕ
  lastSentAt : ℤ
  deriving DecidableEq

structure Stored where
  entry : Entry
  payload : Bytes
  deriving DecidableEq

/-- The bucket of an operation; the entries are in the order of their keys. -/
structure Log where
  «meta» : LogState
  entries : List Stored
  deriving DecidableEq

def fresh : Log := ⟨⟨0, 0, 0, 0, false, [], 0, 0⟩, []⟩

/-- `entries.Put(logKey(sequence), payload)`. -/
def put (entries : List Stored) (s : Stored) : List Stored :=
  entries.filter (·.entry.sequence < s.entry.sequence) ++ [s] ++
    entries.filter (s.entry.sequence < ·.entry.sequence)

inductive LogError where
  | unavailable | invalidEntry | encoding | limitExceeded | unknownOperation | invalidSend
  | invalidAcknowledgement
  deriving DecidableEq

def defaultLogLimitBytes : ℕ := 10 * 2 ^ 20

/-- `16 << 10`, what progress entries leave free. -/
def reserve : ℕ := 16 * 2 ^ 10

/-- The limit of a log: the one that it has, or the one of the active desired state, if there is one
and it is in range. -/
def logLimit (limit : ℕ) (configured : Option ℕ) : ℕ :=
  if limit ≠ 0 then limit
  else
    let limit := configured.getD defaultLogLimitBytes
    if limit < 64 * 2 ^ 10 || defaultLogLimitBytes < limit then defaultLogLimitBytes else limit

def store (log : Log) (entry : Entry) (payload : Bytes) (critical : Bool) : Except LogError Log :=
  if log.meta.limit < log.meta.bytes + payload.length then .error .limitExceeded
  else .ok
    { «meta» :=
        { log.meta with
          next := entry.sequence
          bytes := log.meta.bytes + payload.length
          critical := if critical then entry.key :: log.meta.critical else log.meta.critical }
      entries := put log.entries ⟨entry, payload⟩ }

/-- The part of `appendOperationLog` after the limit is known. A progress entry of a truncated log is
dropped, which is `none`; the first one that does not fit becomes the truncation marker. -/
def appendNew (marshal : Entry → Option Bytes) (log : Log) (entry : Entry) :
    Except LogError (Option Log) :=
  let critical : Bool := entry.code ≠ backupProgress
  match marshal entry with
  | none => .error .encoding
  | some payload =>
    if !critical &&
        (log.meta.truncated || log.meta.limit - reserve < log.meta.bytes + payload.length) then
      if log.meta.truncated then .ok none
      else
        let marker := { entry with code := logTruncated, level := "WARN".toList }
        match marshal marker with
        | none => .error .encoding
        | some payload =>
          (store { log with «meta» := { log.meta with truncated := true } } marker payload false).map
            some
    else (store log entry payload critical).map some

/-- `appendOperationLog`, for an operation that exists or not, and the limit of the active desired
state. An entry that is passed over leaves the log as it is. -/
def appendOperationLog (marshal : Entry → Option Bytes) (available : Bool) (configured : Option ℕ)
    (log : Option Log) (entry : Entry) : Except LogError (Option Log) :=
  if !available then .error .unavailable
  else
    let old := log.getD fresh
    let entry := { entry with sequence := old.meta.next + 1 }
    if !entry.validate then .error .invalidEntry
    else if entry.code ≠ backupProgress && old.meta.critical.contains entry.key then .ok log
    else
      let limited :=
        { old with «meta» := { old.meta with limit := logLimit old.meta.limit configured } }
      (appendNew marshal limited entry).map fun new => new.or log

def markLogsSent (log : Option Log) (through : ℕ) (now : ℤ) : Except LogError (Option Log) :=
  match log with
  | none => .error .unknownOperation
  | some log =>
    if log.meta.next < through then .error .invalidSend
    else .ok (some { log with «meta» := { log.meta with sentThrough := through, lastSentAt := now } })

def acknowledgeLogs (log : Option Log) (through : ℕ) : Except LogError (Option Log) :=
  match log with
  | none => .error .unknownOperation
  | some log =>
    if log.meta.sentThrough < through || log.meta.next < through then
      .error .invalidAcknowledgement
    else if through ≤ log.meta.ack then .ok (some log)
    else .ok (some
      { «meta» := { log.meta with ack := through, lastSentAt := 0 }
        entries := log.entries.dropWhile (·.entry.sequence ≤ through) })

inductive Act where
  | append (available : Bool) (configured : Option ℕ) (entry : Entry)
  | sent (through : ℕ) (now : ℤ)
  | acknowledged (through : ℕ)

def Act.apply (marshal : Entry → Option Bytes) : Act → Option Log → Except LogError (Option Log)
  | .append available configured entry, log =>
    appendOperationLog marshal available configured log entry
  | .sent through now, log => markLogsSent log through now
  | .acknowledged through, log => acknowledgeLogs log through

end RestFleet.Agent.Logs
