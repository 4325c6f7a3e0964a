import RestFleet.Model.Restic.Listing
import RestFleet.Shared.JsonText
import RestFleet.Shared.Utf8

/-! # Indexing the snapshots of a repository

`snapshot_index_linux.go` and the command runner of `provision_linux.go`: the snapshots that
`restic snapshots --json` prints. -/

namespace RestFleet.Restic

inductive IndexError where
  | invalidSnapshotIndex | canceled | processFailed | repositoryAbsent | repositoryLocked
  | wrongPassword | invalidOutput
  deriving DecidableEq

def maxIndexSnapshots : ℕ := 50000
def maxIndexTags : ℕ := 100
def maxIndexPaths : ℕ := 1000
def maxCommandOutput : ℕ := 64 * 1024

structure SnapshotIndexRequest where
  gatewayID : UUID
  repositoryID : UUID
  password : Bytes

def SnapshotIndexRequest.valid (r : SnapshotIndexRequest) : Bool :=
  r.gatewayID.isV7 && r.repositoryID.isV7 && 32 ≤ r.password.length && r.password.length ≤ 1024 &&
    !(r.password.any fun b => b = 0 || b = 10 || b = 13)

/-! ## The command -/

structure CommandOutput where
  data : Bytes
  overflow : Bool

def CommandOutput.write (b : CommandOutput) (p : Bytes) : CommandOutput :=
  let remaining := maxCommandOutput - b.data.length
  if remaining < p.length then ⟨b.data ++ p.take remaining, true⟩
  else { b with data := b.data ++ p }

inductive Exit where
  | success
  | code (n : ℕ)
  /-- Any other error of `Wait`. -/
  | failed

/-- A command as `run` sees it: whether it starts, what it writes, whether the context is over when
it ends, and how it ends. -/
structure Command where
  started : Bool
  writes : List Bytes
  canceled : Bool
  exit : Exit

def run (c : Command) : Except IndexError Bytes := do
  if !c.started then throw .processFailed
  let output := c.writes.foldl CommandOutput.write ⟨[], false⟩
  if c.canceled then throw .canceled
  match c.exit with
  | .success => if output.overflow then throw .invalidOutput else return output.data
  | .code 10 => throw .repositoryAbsent
  | .code 11 => throw .repositoryLocked
  | .code 12 => throw .wrongPassword
  | _ => throw .processFailed

/-! ## The output -/

structure WireSummary where
  filesNew : ℤ
  dataAdded : ℤ

def decodeInt64 : ℤ → Json → Option ℤ := Json.decodeInt (-2 ^ 63) (2 ^ 63 - 1)

def WireSummary.decode (w : WireSummary) : Json → Option WireSummary
  | .null => some w
  | .obj ms => do
    let filesNew ← Json.field "files_new".toList decodeInt64 w.filesNew ms
    let dataAdded ← Json.field "data_added".toList decodeInt64 w.dataAdded ms
    pure ⟨filesNew, dataAdded⟩
  | _ => none

structure WireSnapshot where
  id : Text
  tree : Text
  time : Text
  paths : Option (List Text)
  tags : Option (List Text)
  programVersion : Text
  summary : Option WireSummary

def decodeStrings : Option (List Text) → Json → Option (Option (List Text)) :=
  Json.decodeSlice (Json.decodeStr [])

def WireSnapshot.decode : Json → Option WireSnapshot
  | .null => some ⟨[], [], [], none, none, [], none⟩
  | .obj ms => do
    let id ← Json.field "id".toList Json.decodeStr [] ms
    let tree ← Json.field "tree".toList Json.decodeStr [] ms
    let time ← Json.field "time".toList Json.decodeStr [] ms
    let paths ← Json.field "paths".toList decodeStrings none ms
    let tags ← Json.field "tags".toList decodeStrings none ms
    let programVersion ← Json.field "program_version".toList Json.decodeStr [] ms
    let summary ← Json.field "summary".toList (Json.decodePointer ⟨0, 0⟩ WireSummary.decode) none ms
    pure ⟨id, tree, time, paths, tags, programVersion, summary⟩
  | _ => none

structure IndexedSnapshot where
  snapshotID : Text
  treeID : Text
  capturedAt : ℤ
  tags : List Text
  paths : List Text
  programVersion : Text
  filesNew : ℤ
  bytesAdded : ℤ
  deriving DecidableEq

def validTag (tag : Text) : Bool := tag ≠ [] && tag.byteLength ≤ 256 && !tag.any isControl

def validPath (path : Text) : Bool :=
  path ≠ [] && path.byteLength ≤ 4096 && path.isAbs && !path.any isControl

/-- The checks of one item; `time` is `time.Parse` of an RFC 3339 time. -/
def WireSnapshot.entry (time : Text → Option ℤ) (w : WireSnapshot) : Option IndexedSnapshot :=
  let tags := w.tags.getD []
  let paths := w.paths.getD []
  if !validID w.id || !validID w.tree || 128 < w.programVersion.byteLength ||
      maxIndexTags < tags.length || maxIndexPaths < paths.length then none
  else match time w.time with
    | none => none
    | some captured =>
      if !tags.all validTag || !paths.all validPath then none
      else match w.summary with
        | none => some ⟨w.id, w.tree, captured, tags, paths, w.programVersion, 0, 0⟩
        | some s =>
          if s.filesNew < 0 || s.dataAdded < 0 then none
          else some ⟨w.id, w.tree, captured, tags, paths, w.programVersion, s.filesNew, s.dataAdded⟩

def parseSnapshotIndex (time : Text → Option ℤ) (raw : Bytes) :
    Except IndexError (List IndexedSnapshot) :=
  let text : Text := Utf8.decode raw
  if text.trimSpace.head? ≠ some '[' then .error .invalidOutput
  else match Json.parse text with
    | some (.arr items) =>
      match items.mapM WireSnapshot.decode with
      | none => .error .invalidOutput
      | some wire =>
        if maxIndexSnapshots < wire.length then .error .invalidOutput
        else match wire.mapM (WireSnapshot.entry time) with
          | none => .error .invalidOutput
          | some entries => .ok entries
    | _ => .error .invalidOutput

def snapshotIndex (time : Text → Option ℤ) (r : SnapshotIndexRequest) (c : Command) :
    Except IndexError (List IndexedSnapshot) := do
  if !r.valid then throw .invalidSnapshotIndex
  let raw ← run c
  parseSnapshotIndex time raw

end RestFleet.Restic
