import RestFleet.Model.Restic.Index
import RestFleet.Shared.Program

/-! # Initialising a repository

`Provision` and `initialize` of `provision_linux.go`, as programs over the commands that they run. -/

namespace RestFleet.Restic.Provision

structure ProvisionRequest where
  gatewayID : UUID
  repositoryID : UUID
  password : Bytes
  expectedID : Text

def ProvisionRequest.valid (r : ProvisionRequest) : Bool :=
  r.gatewayID.isV7 && r.repositoryID.isV7 && 32 ≤ r.password.length && r.password.length ≤ 1024 &&
    !(r.password.any fun b => b = 0 || b = 10 || b = 13) &&
    (r.expectedID = [] || validID r.expectedID)

structure RepositoryInfo where
  id : Text
  formatVersion : ℤ
  deriving DecidableEq

/-- The errors of `Provision`; `runtime` are those of the configuration, the backend and the
context. -/
inductive ProvisionError where
  | invalidProvision
  | runtime
  | command (e : IndexError)
  | repositoryMatch
  | repositoryInUse
  deriving DecidableEq

/-! ## Output -/

structure WireConfig where
  id : Text
  version : Option ℤ

def WireConfig.decode : Json → Option WireConfig
  | .null => some ⟨[], none⟩
  | .obj ms => do
    let id ← Json.field "id".toList Json.decodeStr [] ms
    let version ← Json.field "version".toList (Json.decodePointer 0 decodeInt64) none ms
    pure ⟨id, version⟩
  | _ => none

/-- The identifier and the version in the output of `cat config`. -/
def printedConfig (raw : Bytes) : Option (Text × ℤ) := do
  let config ← (Json.parse (Utf8.decode raw)).bind WireConfig.decode
  let version ← config.version
  if validID config.id then some (config.id, version) else none

def parseConfig (expected : Text) (raw : Bytes) : Except ProvisionError RepositoryInfo :=
  match printedConfig raw with
  | none => .error (.command .invalidOutput)
  | some (id, version) =>
    if version ≠ 2 || (expected ≠ [] && id ≠ expected) then .error .repositoryMatch
    else .ok ⟨id, version⟩

structure WireEvent where
  type : Text
  id : Text

def WireEvent.decode : Json → Option WireEvent
  | .null => some ⟨[], []⟩
  | .obj ms => do
    let type ← Json.field "message_type".toList Json.decodeStr [] ms
    let id ← Json.field "id".toList Json.decodeStr [] ms
    pure ⟨type, id⟩
  | _ => none

/-- The loop of `initializedID`, over at most `n` messages; `id` is what was found so far. -/
def initializedLoop : ℕ → Text → Text → Option Text
  | 0, _, _ => none
  | n + 1, id, text =>
    if Json.skip text = [] then (if id = [] then none else some id)
    else match Json.parseValue (2 * text.length + 1) text with
      | none => none
      | some (j, rest) =>
        match WireEvent.decode j with
        | none => none
        | some event =>
          if event.type = [] then none
          else if event.type = "initialized".toList then
            if id ≠ [] || !validID event.id then none else initializedLoop n event.id rest
          else initializedLoop n id rest

/-- `initializedID`; a message has at least one character. -/
def initializedID (raw : Bytes) : Option Text :=
  let text := Utf8.decode raw
  initializedLoop (text.length + 1) [] text

/-- The snapshots in the output of `snapshots`; a null list is none. -/
def printedSnapshots (raw : Bytes) : Option (List Json) :=
  match Json.parse (Utf8.decode raw) with
  | some (.arr items) => some items
  | _ => none

/-! ## Attempts -/

inductive Kind where
  | catConfig
  | init
  | snapshots
  deriving DecidableEq

/-- What an attempt does: it prepares the configuration and the backend, runs commands, and leaves
the scope of both. -/
inductive Op where
  | prepare
  | exec (k : Kind)
  | finish
  deriving DecidableEq

/-- Preparing and leaving may fail; a command is answered by how it went. -/
def Reply : Op → Type
  | .prepare | .finish => Bool
  | .exec _ => Command

abbrev ProvisionM := Program Op Reply

def op (o : Op) : ProvisionM (Reply o) := Program.perform o

def prepare : ProvisionM Bool := op .prepare
def exec (k : Kind) : ProvisionM Command := op (.exec k)
def finish : ProvisionM Bool := op .finish

def execute (k : Kind) : ProvisionM (Except ProvisionError Bytes) := do
  let c ← exec k
  return (run c).mapError .command

def readConfig (expected : Text) : ProvisionM (Except ProvisionError RepositoryInfo) := do
  let raw ← execute .catConfig
  return raw >>= parseConfig expected

def verifyEmpty (info : RepositoryInfo) : ProvisionM (Except ProvisionError RepositoryInfo) := do
  let raw ← execute .snapshots
  return raw >>= fun raw =>
    match printedSnapshots raw with
    | none => .error (.command .invalidOutput)
    | some items => if items.isEmpty then .ok info else .error .repositoryInUse

def create : ProvisionM (Except ProvisionError RepositoryInfo) := do
  match ← execute .init with
  | .error e => return .error e
  | .ok raw =>
    match initializedID raw with
    | none => return .error (.command .invalidOutput)
    | some id =>
      match ← readConfig id with
      | .error e => return .error e
      | .ok info => verifyEmpty info

def initializeRepository (expected : Text) : ProvisionM (Except ProvisionError RepositoryInfo) := do
  match ← readConfig expected with
  | .ok info => verifyEmpty info
  | .error e =>
    if e = .command .repositoryAbsent ∧ expected = [] then create else return .error e

/-- `Provision`: whatever `initialize` returns, the context or the configuration may have failed. -/
def provision (r : ProvisionRequest) : ProvisionM (Except ProvisionError RepositoryInfo) := do
  if !r.valid then return .error .invalidProvision
  if !(← prepare) then return .error .runtime
  let result ← initializeRepository r.expectedID
  if ← finish then return result else return .error .runtime

end RestFleet.Restic.Provision
