import RestFleet.Model.Backup.Server
import RestFleet.Model.ControlPlane
import RestFleet.Model.Restic.Index
import RestFleet.Shared.Part

/-! # The snapshots of repositories

The table `snapshots` and its two writers: `UpsertOperationResult` of `operations.go` and
`FinishSnapshotIndexJob` of `snapshot_index.go`. -/

namespace RestFleet.Snapshots

open Tx (view write lock claim commit choose transaction)

abbrev Stamp := ℤ

structure Row where
  planID : Option UUID
  agentID : Option UUID
  hostID : UUID
  operationID : Option UUID
  capturedAt : Stamp
  recordedAt : Stamp
  filesNew : ℤ
  bytesAdded : ℤ
  managed : Bool
  treeID : Text
  tags : List Text
  paths : List Text
  programVersion : Text
  missingAt : Option Stamp
  deriving DecidableEq

/-- What a commit did to the table. No table of the source holds these entries. `since` counts the
entries that there were when the listing of the index was taken. -/
inductive Entry where
  | recorded (result : Backup.Result) (plan : Backup.Plan) (now : Stamp)
  | indexed (operationID repositoryID : UUID) (since : ℕ) (rows : List (Text × Row))
      (marked : List Text) (now : Stamp)
  deriving DecidableEq

structure Database where
  backup : Backup.Database
  store : Store.Database
  rows : Table (UUID × Text) Row
  trail : List Entry

inductive Key where
  | backup (k : Backup.Key)
  | store (k : Store.Key)
  deriving DecidableEq

/-- What the parts get from elsewhere, and what `restic snapshots` prints for a job. -/
inductive Choice where
  | backup (q : Backup.Choice)
  | store (q : Store.Choice)
  | listing (jobID : UUID)

abbrev Answer : Choice → Type
  | .backup q => Backup.Answer q
  | .store q => Store.Answer q
  | .listing _ => List Restic.IndexedSnapshot

def present : Key → Database → Bool
  | .backup (.snapshot repositoryID snapshotID), db => (db.rows.row (repositoryID, snapshotID)).isSome
  | .backup k, db => Backup.present k db.backup
  | .store k, db => Store.present k db.store

abbrev schema : Tx.Schema where
  Db := Database
  Key := Key
  Choice := Choice
  Answer := Answer
  present := present

inductive SnapshotError where
  | backup (e : Backup.BackupError)
  | store (e : Store.StoreError)
  | database
  deriving DecidableEq

abbrev SnapshotM := Tx.Action schema SnapshotError

abbrev SnapshotProgram := Program (Tx.Op schema) (Tx.Reply schema)

def Database.onBackup (f : Backup.Database → Backup.Database) (db : Database) : Database :=
  { db with backup := f db.backup }

def Database.onStore (f : Store.Database → Store.Database) (db : Database) : Database :=
  { db with store := f db.store }

def Database.onRows (f : Table (UUID × Text) Row → Table (UUID × Text) Row) (db : Database) :
    Database :=
  { db with rows := f db.rows }

def backupPart : Tx.Part Backup.schema schema where
  get := Database.backup
  modify := Database.onBackup
  key := .backup
  choice := .backup
  answer := fun _ r => r

def storePart : Tx.Part Store.schema schema where
  get := Database.store
  modify := Database.onStore
  key := .store
  choice := .store
  answer := fun _ r => r

def onBackup {α : Type} (x : Backup.BackupM α) : SnapshotM α := backupPart.action .backup x

def onStore {α : Type} (x : Store.StoreM α) : SnapshotM α := storePart.action .store x

def Database.note (db : Database) (e : Entry) : Database := { db with trail := db.trail ++ [e] }

/-! ## Results of backups -/

def resultRow (r : Backup.Result) (p : Backup.Plan) (now : Stamp) : Row where
  planID := some r.planID
  agentID := some r.agentID
  hostID := p.hostID
  operationID := some r.operationID
  capturedAt := r.finishedAt
  recordedAt := now
  filesNew := r.filesNew
  bytesAdded := r.dataAdded
  managed := true
  treeID := []
  tags := []
  paths := []
  programVersion := []
  missingAt := none

/-- A row that exists keeps the columns that only an index writes. -/
def Row.recordResult (row : Row) (r : Backup.Result) (p : Backup.Plan) (now : Stamp) : Row :=
  { resultRow r p now with
    treeID := row.treeID
    tags := row.tags
    paths := row.paths
    programVersion := row.programVersion }

def recordRow (rows : Table (UUID × Text) Row) (r : Backup.Result) (p : Backup.Plan) (now : Stamp) :
    Table (UUID × Text) Row :=
  rows.upsert (p.repositoryID, r.snapshotID) (resultRow r p now) (·.recordResult r p now)

def indexSnapshot (r : Backup.Result) (p : Backup.Plan) : SnapshotM Unit :=
  if r.snapshotID = [] then return ()
  else do
    let now ← onBackup Backup.clock
    claim (.backup (.snapshot p.repositoryID r.snapshotID))
    write (·.onRows (recordRow · r p now))
    write (·.note (.recorded r p now))

/-- The tail of `UpsertOperationResult` after a row was affected. -/
def recordResult (r : Backup.Result) (p : Backup.Plan) : SnapshotM Unit := do
  write (·.onBackup (·.upsertResult r))
  write (·.onBackup (·.storeSummary r))
  let _ ← lock (.backup (.plan r.planID))
  write (·.onBackup (·.updatePlan r))
  indexSnapshot r p
  commit

def upsertOperationResult (r : Backup.Result) : SnapshotM Unit := do
  match (← view).backup.boundPlan? r.toReport with
  | none => throw (.backup .planBindingInvalid)
  | some p =>
    onBackup (Backup.lockReportedOperation r.toReport)
    claim (.backup (.operation r.operationID))
    if (← view).backup.affects r.toReport then recordResult r p
    else
      onBackup (Backup.lockReportedOperation r.toReport)
      commit

def run {α : Type} (body : SnapshotM α) : SnapshotProgram Unit := do
  let _ ← transaction body
  return ()

def handleResult (r : Backup.Result) : SnapshotProgram Unit :=
  if !Backup.reportedOperationLinks r.toReport then return ()
  else match r.check with
    | .error _ => return ()
    | .ok _ => run (upsertOperationResult r)

/-! ## Index jobs -/

/-- One tag in `resolveSnapshotPlan`: whether the snapshot is managed, whether its plan is
ambiguous, and the plan. -/
def resolveTag (s : Bool × Bool × Option UUID) (tag : Text) : Bool × Bool × Option UUID :=
  let (managed, ambiguous, planID) := s
  if tag = "restfleet:managed".toList then (true, ambiguous, planID)
  else if tag.hasPrefix "restfleet:plan:".toList then
    let name := tag.trimPrefix "restfleet:plan:".toList
    match UUID.parse name with
    | none => (managed, true, planID)
    | some parsed =>
      if !parsed.isV7 || name ≠ parsed.text then (managed, true, planID)
      else match planID with
        | none => (managed, ambiguous, some parsed)
        | some id => (managed, ambiguous || id ≠ parsed, planID)
  else s

def resolveSnapshotPlan (tags : List Text) : Option UUID :=
  let (managed, ambiguous, planID) := tags.foldl resolveTag (false, false, none)
  if !managed || ambiguous then none else planID

structure IndexEntry extends Restic.IndexedSnapshot where
  planID : Option UUID
  deriving DecidableEq

def validSnapshotIndexCode (code : String) : Bool :=
  code ∈ ["", "INDEX_FAILED", "INDEX_TIMED_OUT", "REPOSITORY_UNAVAILABLE", "REPOSITORY_LOCKED",
    "PASSWORD_REJECTED", "CREDENTIAL_CHANGED", "CREDENTIAL_DISABLED", "SECRET_UNAVAILABLE",
    "CONFIG_UNSAFE", "REFRESH_FAILED", "WORKER_LOST"]

def Database.livePlan? (db : Database) (planID : Option UUID) (repositoryID : UUID) :
    Option Backup.Plan :=
  (planID.bind db.backup.plans.row).filter fun p => p.repositoryID = repositoryID && !p.archived

def indexRow (operationID : UUID) (r : Store.Repository) (e : IndexEntry) (p : Option Backup.Plan)
    (now : Stamp) : Row where
  planID := if p.isSome then e.planID else none
  agentID := p.map (·.agentID)
  hostID := p.elim r.hostID (·.hostID)
  operationID := some operationID
  capturedAt := e.capturedAt
  recordedAt := now
  filesNew := e.filesNew
  bytesAdded := e.bytesAdded
  managed := p.isSome
  treeID := e.treeID
  tags := e.tags
  paths := e.paths
  programVersion := e.programVersion
  missingAt := none

def putRow (rows : Table (UUID × Text) Row) (k : UUID × Text) (row : Row) :
    Table (UUID × Text) Row :=
  rows.upsert k row fun _ => row

def IndexEntry.valid (e : IndexEntry) : Bool :=
  e.snapshotID.byteLength = 64 && e.treeID.byteLength = 64 && e.capturedAt ≠ 0 &&
    e.tags.length ≤ 100 && e.paths.length ≤ 1000

/-- One entry of the result; the last check is a constraint of the table. -/
def indexEntry (operationID : UUID) (r : Store.Repository) (now : Stamp) (e : IndexEntry) :
    SnapshotM (Text × Row) := do
  if !e.valid then throw (.store .operationTransition)
  else
    let row := indexRow operationID r e ((← view).livePlan? e.planID r.id) now
    if !e.treeID.all Text.isLowerHex then throw .database
    else
      claim (.backup (.snapshot r.id e.snapshotID))
      write (·.onRows (putRow · (r.id, e.snapshotID) row))
      return (e.snapshotID, row)

def indexEntries (operationID : UUID) (r : Store.Repository) (now : Stamp) :
    List IndexEntry → SnapshotM (List (Text × Row))
  | [] => return []
  | e :: rest => do
    let row ← indexEntry operationID r now e
    let rows ← indexEntries operationID r now rest
    return row :: rows

def Database.unseen (db : Database) (repositoryID : UUID) (seen : List Text) : List Text :=
  (db.rows.keys.filter fun k => k.1 = repositoryID && !seen.contains k.2 &&
    (db.rows.row k).any (·.missingAt.isNone)).map (·.2)

def markRow (rows : Table (UUID × Text) Row) (k : UUID × Text) (now : Stamp) :
    Table (UUID × Text) Row :=
  rows.modify k fun row =>
    if row.missingAt.isNone then { row with missingAt := some now } else row

def markMissing (repositoryID : UUID) (now : Stamp) : List Text → SnapshotM Unit
  | [] => return ()
  | id :: rest => do
    let _ ← lock (.backup (.snapshot repositoryID id))
    write (·.onRows (markRow · (repositoryID, id) now))
    markMissing repositoryID now rest

def indexResult (operationID : UUID) (r : Store.Repository) (now : Stamp) (since : ℕ)
    (entries : List IndexEntry) : SnapshotM Entry := do
  if 50000 < entries.length then throw (.store .operationTransition)
  else
    let rows ← indexEntries operationID r now entries
    let marked := (← view).unseen r.id (rows.map (·.1))
    markMissing r.id now marked
    return .indexed operationID r.id since rows marked now

def noteEntry : Option Entry → SnapshotM Unit
  | none => return ()
  | some e => write (·.note e)

def indexWhenDone (code : String) (operationID : UUID) (r : Store.Repository) (now : Stamp)
    (since : ℕ) (entries : List IndexEntry) : SnapshotM (Option Entry) :=
  if code = "" then do
    let e ← indexResult operationID r now since entries
    return some e
  else return none

def finishSnapshotIndexJob (id owner : UUID) (code : String) (since : ℕ)
    (entries : List IndexEntry) : SnapshotM Unit := do
  if !validSnapshotIndexCode code then throw (.store .operationTransition)
  else
    let c ← onStore (Store.lockCredentialJob id owner)
    match c.repository with
    | none => throw (.store .operationTransition)
    | some (r, available) =>
      if c.operation.type ≠ .snapshotIndex then throw (.store .operationTransition)
      else
        let now ← onStore Store.clock
        let code ← onStore (Store.boundCode c
          (if !available then "REPOSITORY_UNAVAILABLE" else Store.credentialCode c code))
        let entry ← indexWhenDone code c.operation.id r now since entries
        let f ← onStore (Store.finishSnapshotReadJob (Store.withCode c code)
          (Store.codeStatus code "INDEX_TIMED_OUT" .succeeded) now)
        onStore (Store.ensureReadResult c code)
        onStore (Store.noteFinish c (fun f => .finished c.owner f.checkedAt f.tested) f)
        noteEntry entry
        commit

/-- The listing of a job, taken at the moment of the first statement. -/
def takeListing (id : UUID) : SnapshotM (ℕ × List IndexEntry) := do
  let since := (← view).trail.length
  let entries ← choose (M := schema) (.listing id)
  return (since, entries.map fun e => ⟨e, resolveSnapshotPlan e.tags⟩)

/-- The end of `ProcessCredentialJob` for an index job: the listing, and the transaction that
stores it. -/
def processIndexJob (id owner : UUID) (code : String) : SnapshotProgram Unit := do
  match ← transaction (takeListing id) with
  | .error _ => return ()
  | .ok (since, entries) => run (finishSnapshotIndexJob id owner code since entries)

/-! ## Concurrent calls -/

inductive Call where
  | result (r : Backup.Result)
  | index (id owner : UUID) (code : String)
  | backup (c : Backup.Call)
  | store (c : Store.Call)

def Call.program (site : Store.Site) : Call → SnapshotProgram Unit
  | .result r => handleResult r
  | .index id owner code => processIndexJob id owner code
  | .backup c => backupPart.program c.program
  | .store c => storePart.program (c.program site)

def Call.Arrives (site : Store.Site) : Call → Prop
  | .backup (.result _) => False
  | .store (.finishIndex _ _ _ _ _) => False
  | .store c => c.Trusts site
  | _ => True

def arrivals (site : Store.Site) (p : SnapshotProgram Unit) : Prop :=
  ∃ c : Call, c.Arrives site ∧ p = c.program site

abbrev server (site : Store.Site) :
    System (Tx.State schema) ℕ (Tx.Op schema) (Tx.Reply schema) :=
  Tx.system (M := schema) (arrivals site)

structure Database.Fresh (db : Database) : Prop where
  rows : db.rows = Table.empty
  trail : db.trail = []

end RestFleet.Snapshots
