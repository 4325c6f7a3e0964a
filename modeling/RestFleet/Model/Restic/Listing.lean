import Mathlib.Data.Char
import Mathlib.Data.List.Lex
import Mathlib.Data.List.Sort
import RestFleet.Model.Strings
import RestFleet.Shared.Json

/-! # Listing a snapshot

`list_linux.go` and the checks of `SnapshotEntries`: the children of one directory, from the lines
that `restic ls --json` prints. A line stands for the JSON value that it holds. -/

namespace RestFleet.Restic

inductive ListError where
  | invalidListRequest | invalidOutput
  deriving DecidableEq

def isControl (c : Char) : Bool := c.toNat < 0x20 || c.toNat = 0x7f

structure ListRequest where
  gatewayID : UUID
  repositoryID : UUID
  password : Bytes
  snapshotID : Text
  path : Text
  after : Text
  maxNodes : ℤ
  maxEntries : ℤ
  deriving DecidableEq

def validID (id : Text) : Bool := id.length = 64 && id.all Text.isLowerHex

def ListRequest.valid (r : ListRequest) : Bool :=
  r.gatewayID.isV7 && r.repositoryID.isV7 && 32 ≤ r.password.length && r.password.length ≤ 1024 &&
    !(r.password.any fun b => b = 0 || b = 10 || b = 13) && validID r.snapshotID

/-- A line of the stream: empty, longer than the buffer, not JSON, or a value. -/
inductive Line where
  | blank
  | tooLong
  | malformed
  | value (j : Json)

structure Event where
  messageType : Text
  tree : Text
  name : Text
  path : Text
  type : Text
  size : ℤ
  mode : ℤ
  uid : ℤ
  gid : ℤ
  mtime : Text
  deriving DecidableEq

/-- `json.Unmarshal` of a line; a value that is no object has no fields to fill. -/
def Event.decode : Json → Option Event
  | .null => some ⟨[], [], [], [], [], 0, 0, 0, 0, []⟩
  | .obj ms => do
    let messageType ← Json.field "message_type".toList Json.decodeStr [] ms
    let tree ← Json.field "tree".toList Json.decodeStr [] ms
    let name ← Json.field "name".toList Json.decodeStr [] ms
    let path ← Json.field "path".toList Json.decodeStr [] ms
    let type ← Json.field "type".toList Json.decodeStr [] ms
    let size ← Json.field "size".toList (Json.decodeInt (-2 ^ 63) (2 ^ 63 - 1)) 0 ms
    let mode ← Json.field "mode".toList (Json.decodeInt 0 (2 ^ 32 - 1)) 0 ms
    let uid ← Json.field "uid".toList (Json.decodeInt 0 (2 ^ 32 - 1)) 0 ms
    let gid ← Json.field "gid".toList (Json.decodeInt 0 (2 ^ 32 - 1)) 0 ms
    let mtime ← Json.field "mtime".toList Json.decodeStr [] ms
    pure ⟨messageType, tree, name, path, type, size, mode, uid, gid, mtime⟩
  | _ => none

/-- `Node`; the modification time is in nanoseconds. -/
structure Node where
  name : Text
  path : Text
  type : Text
  size : ℤ
  mode : Text
  uid : ℤ
  gid : ℤ
  modTime : ℤ
  deriving DecidableEq

/-- `fmt.Sprintf("%04o", mode & 0o7777)`. -/
def formatMode (mode : ℤ) : Text :=
  let digits := Nat.toDigits 8 (mode.toNat % 4096)
  List.replicate (4 - digits.length) '0' ++ digits

def nodePath (path : Text) : Text :=
  let trimmed := if path.getLast? = some '/' then path.dropLast else path
  if trimmed = [] then ['/'] else trimmed

def directChild (parent path : Text) : Option Text :=
  let before := if parent = ['/'] then ['/'] else parent ++ ['/']
  if path.hasPrefix before then
    let name := path.drop before.length
    if name = [] || name.contains '/' then none else some name
  else none

structure ListResult where
  treeID : Text
  entries : List Node
  scanned : ℕ
  truncated : Bool
  nextCursor : Text
  deriving DecidableEq

structure Scan where
  treeID : Text
  entries : List Node
  scanned : ℕ
  truncated : Bool
  deriving DecidableEq

def Scan.start : Scan := ⟨[], [], 0, false⟩

/-- The node of an event, if it is a direct child of `root`; `time` is `time.Parse` of an RFC 3339
time. -/
def readNode (time : Text → Option ℤ) (root : Text) (e : Event) : Except ListError (Option Node) :=
  let path := nodePath e.path
  if e.name = [] || 255 < e.name.byteLength || e.type = [] || e.mtime = [] then
    .error .invalidOutput
  else if !path.isAbs || 4096 < path.byteLength || path.any isControl then .error .invalidOutput
  else match time e.mtime with
    | none => .error .invalidOutput
    | some modTime => match directChild root path with
      | none => .ok none
      | some name =>
        if name ≠ e.name then .error .invalidOutput
        else .ok (some ⟨name, path, e.type, e.size, formatMode e.mode, e.uid, e.gid, modTime⟩)

/-- One event; the scan stops at a node beyond `maxNodes`. -/
def scanEvent (time : Text → Option ℤ) (root : Text) (maxNodes : ℕ) (s : Scan) (e : Event) :
    Except ListError Scan :=
  if e.messageType = "snapshot".toList then
    if e.tree = [] || s.treeID ≠ [] || !validID e.tree then .error .invalidOutput
    else .ok { s with treeID := e.tree }
  else if e.messageType = "node".toList then
    let s := { s with scanned := s.scanned + 1 }
    if maxNodes < s.scanned then .ok { s with truncated := true }
    else do
      match ← readNode time root e with
      | none => pure s
      | some n =>
        if s.entries.any (·.path = n.path) then pure s
        else pure { s with entries := s.entries ++ [n] }
  else .ok s

def scanLines (time : Text → Option ℤ) (root : Text) (maxNodes : ℕ) :
    List Line → Scan → Except ListError Scan
  | [], s => .ok s
  | .blank :: rest, s => scanLines time root maxNodes rest s
  | .tooLong :: _, _ => .error .invalidOutput
  | .malformed :: _, _ => .error .invalidOutput
  | .value j :: rest, s =>
    match Event.decode j with
    | none => .error .invalidOutput
    | some e => do
      let s ← scanEvent time root maxNodes s e
      if s.truncated then pure s else scanLines time root maxNodes rest s

/-- The end of `parseListJSON`: a page of the sorted entries. -/
def Scan.page (s : Scan) (maxEntries : ℕ) (after : Text) : ListResult :=
  let sorted := s.entries.mergeSort fun a b => !(b.path < a.path : Bool)
  let rest := if after = [] then sorted else sorted.filter fun n => after < n.path
  if maxEntries < rest.length then
    let entries := rest.take maxEntries
    ⟨s.treeID, entries, s.scanned, true, (entries.getLast?.map (·.path)).getD []⟩
  else
    ⟨s.treeID, rest, s.scanned, s.truncated,
      if s.truncated then (rest.getLast?.map (·.path)).getD [] else []⟩

def parseListJSON (time : Text → Option ℤ) (stream : List Line) (root : Text)
    (maxNodes maxEntries : ℕ) (after : Text) : Except ListError ListResult := do
  let s ← scanLines time root maxNodes stream .start
  pure (s.page maxEntries after)

def list (time : Text → Option ℤ) (stream : List Line) (root : Text) (maxNodes maxEntries : ℕ)
    (after : Text) : Except ListError ListResult := do
  let result ← parseListJSON time stream root maxNodes maxEntries after
  if result.treeID = [] then throw .invalidOutput
  return result

end RestFleet.Restic
