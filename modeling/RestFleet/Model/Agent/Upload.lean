import RestFleet.Model.Agent.Logs
import RestFleet.Model.Agent.Records

/-! # The upload of a local log

`pendingLogs` of the Agent for one operation, and a chunk on the server: the `JobLogChunk` case of
`Connect`, `RecordOperationLogs` and `AppendOperationLogs`, which locks the row of the operation. -/

namespace RestFleet.Agent.Logs

def maxBackupLogChunkBytes : ℕ := 32 * 2 ^ 10

def array (payloads : List Bytes) : Bytes := 91 :: [44].intercalate payloads ++ [93]

/-- `encoding/json` at `BackupLogEntry`: an array of valid entries is read as it was written. -/
structure Wire where
  marshal : Entry → Option Bytes
  unmarshal : Bytes → Option (List Entry)
  unmarshal_array : ∀ stored : List Stored,
    (∀ s ∈ stored, s.entry.validate = true ∧ marshal s.entry = some s.payload) →
    unmarshal (array (stored.map (·.payload))) = some (stored.map (·.entry))

/-! ## The Agent -/

structure Chunk where
  first : ℕ
  last : ℕ
  json : Bytes
  deriving DecidableEq

/-- The loop of the cursor. -/
def Chunk.fill (c : Chunk) : List Stored → Chunk
  | [] => c
  | s :: rest =>
    if maxBackupLogChunkBytes < c.json.length + s.payload.length + 2 || c.first + 199 ≤ c.last then c
    else fill ⟨c.first, s.entry.sequence,
      (if c.last ≠ 0 then c.json ++ [44] else c.json) ++ s.payload⟩ rest

/-- The chunk of an operation in `pendingLogs`. -/
def pendingLog (now : Backup.Stamp) (force : Bool) (r : OperationRecord) (log : Log) :
    Option Chunk :=
  if r.terminal && !r.uploaded || !r.terminal && r.lastReportedAt = 0 then none
  else if log.meta.next ≤ log.meta.ack ||
      !force && now - log.meta.lastSentAt < State.resultRetryInterval then none
  else
    let c := Chunk.fill ⟨log.meta.ack + 1, 0, [91]⟩
      (log.entries.dropWhile (·.entry.sequence < log.meta.ack + 1))
    if c.last = 0 then none else some { c with json := c.json ++ [93] }

/-! ## The server -/

/-- The rows of an operation in `backup_operation_log_heads` and `backup_operation_logs`. -/
structure LogRows where
  ack : ℕ
  bytes : ℕ
  entries : List Entry
  deriving DecidableEq

inductive ChunkError where
  | jobLogInvalid | invalidOperationLogs | operationTransition | planBindingInvalid | encoding
  | primaryKey
  deriving DecidableEq

/-- The checks that `RecordOperationLogs` and `AppendOperationLogs` both make. -/
def validEntries (entries : List Entry) : Bool :=
  entries ≠ [] && entries.length ≤ 200 && entries.all Entry.validate &&
    decide (entries.IsChain fun a b => b.sequence = a.sequence + 1)

def insertEntries (marshal : Entry → Option Bytes) : List Entry → LogRows → Except ChunkError LogRows
  | [], rows => .ok rows
  | e :: rest, rows =>
    if e.sequence ≤ rows.ack then insertEntries marshal rest rows
    else match marshal e with
    | none => .error .encoding
    | some raw =>
      if defaultLogLimitBytes < rows.bytes + raw.length then .error .operationTransition
      else if rows.entries.any (·.sequence = e.sequence) then .error .primaryKey
      else insertEntries marshal rest ⟨e.sequence, rows.bytes + raw.length, rows.entries ++ [e]⟩

/-- `AppendOperationLogs`; `owner` is the Agent of the row, if there is one. -/
def appendOperationLogs (marshal : Entry → Option Bytes) (owner : Option UUID) (agentID : UUID)
    (entries : List Entry) (rows : LogRows) : Except ChunkError LogRows :=
  if !validEntries entries then .error .operationTransition
  else if owner ≠ some agentID then .error .planBindingInvalid
  else if entries.head?.any (rows.ack + 1 < ·.sequence) then .error .operationTransition
  else insertEntries marshal entries rows

def recordOperationLogs (marshal : Entry → Option Bytes) (owner : Option UUID) (agentID id : UUID)
    (entries : List Entry) (rows : LogRows) : Except ChunkError LogRows :=
  if !Backup.validOperationID id || agentID.version ≠ 7 || !validEntries entries then
    .error .invalidOperationLogs
  else appendOperationLogs marshal owner agentID entries rows

/-- The `JobLogChunk` case of `Connect`; the new `ack` goes back to the Agent. -/
def handleLogChunk (w : Wire) (logsCapable : Bool) (owner : Option UUID) (agentID id : UUID)
    (c : Chunk) (rows : LogRows) : Except ChunkError LogRows :=
  if !logsCapable || !Backup.validOperationID id || maxBackupLogChunkBytes < c.json.length then
    .error .jobLogInvalid
  else match w.unmarshal c.json with
  | none => .error .jobLogInvalid
  | some entries =>
    if entries = [] || 200 < entries.length || entries.head?.map (·.sequence) ≠ some c.first ||
        entries.getLast?.map (·.sequence) ≠ some c.last then .error .jobLogInvalid
    else recordOperationLogs w.marshal owner agentID id entries rows

end RestFleet.Agent.Logs
