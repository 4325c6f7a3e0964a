import RestFleet.Model.Agent.Records
import RestFleet.Shared.Lines

/-! # The output of a backup

`ParseEvent` of the Agent's restic package, `progressSink` for the standard output of a backup run and
`backupWarningSink` for its standard error. The JSON decoder and `float64` are parameters. -/

namespace RestFleet.Agent.Output

open Backup (ErrorCode Summary)

/-- `wireEvent`, with the type of its percentage. -/
structure WireEvent (π : Type) where
  messageType : Text
  percentDone : Option π
  filesDone : Option ℤ
  filesProcessed : Option ℤ
  bytesProcessed : Option ℤ
  totalFiles : Option ℤ
  bytesDone : Option ℤ
  totalBytes : Option ℤ
  snapshotID : Text
  filesNew : Option ℤ
  dataAdded : Option ℤ
  message : Text

/-- What the standard library makes of a line: `bytes.TrimSpace`, `json.Unmarshal` into the three
targets, and the comparisons of `float64`. -/
structure Decoder (π : Type) where
  trimSpace : Bytes → Bytes
  messageType : Bytes → Option Text
  wire : Bytes → Option (WireEvent π)
  summary : Bytes → Option Summary
  zero : π
  /-- not below 0 and not above 1 -/
  fraction : π → Bool
  /-- a later percentage is at least 0.05 above an earlier one -/
  advanced : π → π → Bool

inductive EventType where
  | status | summary | error
  deriving DecidableEq

structure Event (π : Type) where
  type : EventType
  percentDone : π
  filesDone : ℤ
  totalFiles : ℤ
  bytesDone : ℤ
  totalBytes : ℤ
  snapshotID : Text
  filesNew : ℤ
  dataAdded : ℤ
  message : Text
  summary : Option Summary

inductive ParseError where
  | invalidMessage | invalidCounter | invalidPercentage | incompleteSummary | invalidSnapshotID
  | invalidSummary
  deriving DecidableEq

variable {π : Type}

def Decoder.blank (d : Decoder π) (type : EventType) : Event π :=
  ⟨type, d.zero, 0, 0, 0, 0, [], 0, 0, [], none⟩

def Decoder.statusEvent (d : Decoder π) (wire : WireEvent π) : Event π :=
  { d.blank .status with
    percentDone := wire.percentDone.getD d.zero
    filesDone := wire.filesDone.getD 0
    totalFiles := wire.totalFiles.getD 0
    bytesDone := wire.bytesDone.getD 0
    totalBytes := wire.totalBytes.getD 0 }

def Decoder.summaryEvent (d : Decoder π) (line : Bytes) (wire : WireEvent π) :
    Except ParseError (Event π) :=
  match wire.filesNew, wire.dataAdded, wire.filesProcessed, wire.bytesProcessed with
  | some filesNew, some dataAdded, some filesProcessed, some bytesProcessed =>
    if wire.snapshotID ≠ [] && !Backup.validSnapshotID wire.snapshotID then .error .invalidSnapshotID
    else match d.summary line with
    | none => .error .invalidSummary
    | some summary =>
      if !summary.validate then .error .invalidSummary
      else .ok
        { d.blank .summary with
          snapshotID := wire.snapshotID
          summary := some summary
          filesNew, dataAdded
          filesDone := filesProcessed
          bytesDone := bytesProcessed }
  | _, _, _, _ => .error .incompleteSummary

/-- `ParseEvent`; no event for a line that is ignored. -/
def Decoder.parseEvent (d : Decoder π) (line : Bytes) : Except ParseError (Option (Event π)) :=
  let line := d.trimSpace line
  if line.isEmpty then .ok none
  else match d.messageType line with
  | none => .error .invalidMessage
  | some type =>
    if type.isEmpty then .error .invalidMessage
    else if type ≠ "status".toList && type ≠ "summary".toList && type ≠ "error".toList then .ok none
    else match d.wire line with
    | none => .error .invalidMessage
    | some wire =>
      if [wire.filesDone, wire.totalFiles, wire.bytesDone, wire.totalBytes, wire.filesNew,
          wire.dataAdded, wire.filesProcessed, wire.bytesProcessed].any
          fun counter => counter.any (· < 0) then .error .invalidCounter
      else if wire.percentDone.any fun percent => !d.fraction percent then .error .invalidPercentage
      else if wire.messageType = "status".toList then .ok (some (d.statusEvent wire))
      else if wire.messageType = "summary".toList then (d.summaryEvent line wire).map some
      else if wire.messageType = "error".toList then
        .ok (some { d.blank .error with message := wire.message })
      else .ok none

/-! ## The standard output -/

inductive LogCode where
  | backupProgress | backupSummary | engineReadError
  deriving DecidableEq

inductive Effect where
  | update (counters : State.Counters)
  | log (code : LogCode) (files bytes : ℤ)
  deriving DecidableEq

/-- What a run of the sink meets: the readings of the clock, and which writes succeed. -/
structure Env where
  clock : ℕ → ℤ
  stored : ℕ → Bool

/-- `progressSink`. The effects are those attempted so far; without a state there are none. -/
structure ProgressSink (π : Type) where
  hasState : Bool
  sawSummary : Bool
  snapshotID : Text
  files : ℤ
  totalFiles : ℤ
  bytes : ℤ
  totalBytes : ℤ
  filesNew : ℤ
  dataAdded : ℤ
  lastWrite : ℤ
  lastPercent : π
  pendingLine : Bytes
  summary : Option Summary
  warnings : ℤ
  errorCode : ErrorCode
  canceled : Bool
  readings : ℕ
  effects : List Effect

namespace ProgressSink

def new (d : Decoder π) (hasState : Bool) : ProgressSink π where
  hasState := hasState
  sawSummary := false
  snapshotID := []
  files := 0
  totalFiles := 0
  bytes := 0
  totalBytes := 0
  filesNew := 0
  dataAdded := 0
  lastWrite := 0
  lastPercent := d.zero
  pendingLine := []
  summary := none
  warnings := 0
  errorCode := .none
  canceled := false
  readings := 0
  effects := []

def fail (p : ProgressSink π) (code : ErrorCode) : ProgressSink π :=
  if p.errorCode = .none then { p with errorCode := code, pendingLine := [], canceled := true }
  else p

def attempt (env : Env) (p : ProgressSink π) (effect : Effect) : ProgressSink π :=
  let written := { p with effects := p.effects ++ [effect] }
  if env.stored p.effects.length then written else written.fail .stateStorageUnavailable

def counters (p : ProgressSink π) : State.Counters :=
  ⟨p.files, p.totalFiles, p.bytes, p.totalBytes, p.filesNew, p.dataAdded, p.snapshotID, p.summary⟩

def operationLog (env : Env) (p : ProgressSink π) (code : LogCode) : ProgressSink π :=
  if p.hasState then p.attempt env (.log code p.files p.bytes) else p

def persist (env : Env) (p : ProgressSink π) : ProgressSink π :=
  if p.hasState then
    let updated := p.attempt env (.update p.counters)
    if env.stored p.effects.length then updated.operationLog env .backupProgress else updated
  else p

def status (env : Env) (d : Decoder π) (p : ProgressSink π) (event : Event π) : ProgressSink π :=
  let now := env.clock p.readings
  let p :=
    { p with
      files := event.filesDone
      totalFiles := event.totalFiles
      bytes := event.bytesDone
      totalBytes := event.totalBytes
      readings := p.readings + 1 }
  if 2 * second ≤ now - p.lastWrite || d.advanced event.percentDone p.lastPercent then
    { p with lastWrite := now, lastPercent := event.percentDone }.persist env
  else p

def summarize (env : Env) (p : ProgressSink π) (event : Event π) : ProgressSink π :=
  if p.sawSummary then p.fail .invalidEngineOutput
  else
    let p :=
      { p with
        sawSummary := true
        snapshotID := event.snapshotID
        summary := event.summary.map fun (s : Summary) => { s with warningCount := p.warnings }
        filesNew := event.filesNew
        dataAdded := event.dataAdded
        files := if 0 < event.filesDone then event.filesDone else p.files
        bytes := event.bytesDone }
    (p.persist env).operationLog env .backupSummary

def consume (env : Env) (d : Decoder π) (p : ProgressSink π) (line : Bytes) : ProgressSink π :=
  match d.parseEvent line with
  | .error _ => p.fail .invalidEngineOutput
  | .ok none => p
  | .ok (some event) => match event.type with
    | .status => p.status env d event
    | .summary => p.summarize env event
    | .error => { p with warnings := p.warnings + 1 }.operationLog env .engineReadError

def maxLine : ℕ := 2 ^ 20

/-- The loop of `Write`: a line that is too long fails, and an error ends the loop. -/
def sink (env : Env) (d : Decoder π) : LineSink UInt8 (ProgressSink π) where
  sep := 10
  stop p := p.errorCode ≠ .none
  absorb p part :=
    if maxLine < p.pendingLine.length + part.length then p.fail .invalidEngineOutput
    else { p with pendingLine := p.pendingLine ++ part }
  newline p := { p.consume env d p.pendingLine with pendingLine := [] }

def write (env : Env) (d : Decoder π) : ProgressSink π → Bytes → ProgressSink π := (sink env d).write

def finish (env : Env) (d : Decoder π) (p : ProgressSink π) : ProgressSink π :=
  let p := if p.errorCode = .none && !p.pendingLine.isEmpty then p.consume env d p.pendingLine else p
  { p with pendingLine := [] }

def run (env : Env) (d : Decoder π) (hasState : Bool) (chunks : List Bytes) : ProgressSink π :=
  (chunks.foldl (write env d) (new d hasState)).finish env d

end ProgressSink

/-! ## The standard error -/

structure WarningSink where
  pending : Bytes
  count : ℤ
  discarding : Bool
  deriving DecidableEq

namespace WarningSink

def new : WarningSink := ⟨[], 0, false⟩

def finish (d : Decoder π) (s : WarningSink) : WarningSink :=
  { pending := []
    count := if !s.discarding && d.messageType s.pending = some "error".toList then s.count + 1
      else s.count
    discarding := false }

/-- The loop of `Write`: the rest of a line that is too long is discarded. -/
def sink (d : Decoder π) : LineSink UInt8 WarningSink where
  sep := 10
  stop _ := false
  absorb s part :=
    let s := if ProgressSink.maxLine < s.pending.length + part.length then
        { s with pending := [], discarding := true }
      else s
    if s.discarding then s else { s with pending := s.pending ++ part }
  newline := finish d

def write (d : Decoder π) : WarningSink → Bytes → WarningSink := (sink d).write

def run (d : Decoder π) (chunks : List Bytes) : WarningSink := (chunks.foldl (write d) new).finish d

end WarningSink

end RestFleet.Agent.Output
