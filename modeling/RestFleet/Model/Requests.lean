import RestFleet.Model.Backup.Server
import RestFleet.Model.ControlPlane
import RestFleet.Shared.Part

/-! # Idempotent requests

The requests of `operations.go` and `credential_jobs.go` that carry an idempotency key. The records of
the keys are tables of their own here; the rest is `RestFleet.Backup` and `RestFleet.Store`. -/

namespace RestFleet.Requests

open Backup (RequestKey requestLifetime)
open Tx (view write claim commit transaction)

abbrev Stamp := ℤ

structure Record where
  request : Bytes
  resourceID : UUID
  expiresAt : Stamp
  deriving DecidableEq

/-- The two kinds of request. A scope hashes the route, so requests of one scope are of one kind. -/
inductive Kind where
  | backup
  | storage
  deriving DecidableEq

/-- What requests have to share in order to be taken for one: the scope and the key. -/
structure Identity where
  kind : Kind
  scope : Bytes
  key : Bytes
  deriving DecidableEq

/-- What a request gets back. The record of a backup request holds the operation itself; a storage
operation is read again by its id. -/
inductive Response where
  | backup (operation : Backup.Operation)
  | storage (id : UUID)
  deriving DecidableEq

inductive RequestError where
  | backup (e : Backup.BackupError)
  | store (e : Store.StoreError)
  deriving DecidableEq

/-- How a request ended, with the readings of the clock at its lookup and for its record. -/
inductive Outcome where
  | effect (lookedUpAt : Stamp) (response : Response) (savedAt : Stamp)
  | replayed (lookedUpAt : Stamp) (response : Response)
  | refused (error : RequestError)
  deriving DecidableEq

/-- A request that was answered. No table of the source holds these entries, and none is ever read. -/
structure Entry where
  identity : Identity
  body : Bytes
  outcome : Outcome
  deriving DecidableEq

/-- The requests of `backup` are not used here. -/
structure Database where
  backup : Backup.Database
  store : Store.Database
  requests : Table (Bytes × Bytes) Backup.Request
  records : Table (Bytes × Bytes) Record
  trail : List Entry

/-- The advisory locks of both kinds are numbers of one space, that of `backup`. -/
inductive Key where
  | backup (k : Backup.Key)
  | store (k : Store.Key)
  | record (scope key : Bytes)
  deriving DecidableEq

inductive Choice where
  | backup (q : Backup.Choice)
  | store (q : Store.Choice)

abbrev Answer : Choice → Type
  | .backup q => Backup.Answer q
  | .store q => Store.Answer q

def present : Key → Database → Bool
  | .backup (.request scope key), db => (db.requests.row (scope, key)).isSome
  | .backup k, db => Backup.present k db.backup
  | .store k, db => Store.present k db.store
  | .record scope key, db => (db.records.row (scope, key)).isSome

abbrev schema : Tx.Schema where
  Db := Database
  Key := Key
  Choice := Choice
  Answer := Answer
  present := present

abbrev RequestM := Tx.Action schema RequestError

abbrev RequestProgram := Program (Tx.Op schema) (Tx.Reply schema)

def Database.onBackup (f : Backup.Database → Backup.Database) (db : Database) : Database :=
  { db with backup := f db.backup }

def Database.onStore (f : Store.Database → Store.Database) (db : Database) : Database :=
  { db with store := f db.store }

def backupPart : Tx.Part Backup.schema schema where
  get := Database.backup
  modify := Database.onBackup
  key := .backup
  choice := .backup
  answer := fun _ r => r

def storePart : Tx.Part Store.schema schema where
  get := Database.store
  modify := Database.onStore
  key := .store
  choice := .store
  answer := fun _ r => r

def onBackup {α : Type} (x : Backup.BackupM α) : RequestM α := backupPart.action .backup x

def onStore {α : Type} (x : Store.StoreM α) : RequestM α := storePart.action .store x

def Database.note (db : Database) (e : Entry) : Database := { db with trail := db.trail ++ [e] }

/-! ## Backup requests -/

def backupIdentity (key : RequestKey) : Identity := ⟨.backup, key.scope, key.key⟩

/-- `lockBackupRequest`, with the reading of its query; no operation when there is no live
record. -/
def lockBackupRequest (key : RequestKey) : RequestM (Stamp × Option Backup.Operation) := do
  let zero := List.replicate 32 0
  if key.scope = zero ∨ key.key = zero ∨ key.body = zero then throw (.backup .idempotencyReused)
  else
    claim (.backup (.advisory (key.key.take 8)))
    let now ← onBackup Backup.clock
    match (← view).requests.row (key.scope, key.key) with
    | none => return (now, none)
    | some request =>
      if request.expiresAt ≤ now then return (now, none)
      else if request.body ≠ key.body then throw (.backup .idempotencyReused)
      else return (now, some request.response)

def Database.saveRequest (db : Database) (key : RequestKey) (o : Backup.Operation) (now : Stamp) :
    Database :=
  let request : Backup.Request := ⟨key.body, o, now + requestLifetime⟩
  { db with requests := db.requests.upsert (key.scope, key.key) request fun _ => request }

/-- `saveBackupRequest`, with the audit event that is written before it. -/
def saveBackupRequest (key : RequestKey) (o : Backup.Operation) : RequestM Stamp := do
  let now ← onBackup Backup.clock
  claim (.backup (.request key.scope key.key))
  write (·.saveRequest key o now)
  return now

def replayBackup (key : RequestKey) (lookedUpAt : Stamp) (original : Backup.Operation) :
    RequestM Response := do
  write (·.note ⟨backupIdentity key, key.body, .replayed lookedUpAt (.backup original)⟩)
  commit
  return .backup original

def finishBackup (key : RequestKey) (lookedUpAt : Stamp) (response : Backup.Operation)
    (entry : Stamp → Backup.Entry) : RequestM Response := do
  let savedAt ← saveBackupRequest key response
  write (·.onBackup (·.note (entry savedAt)))
  write (·.note ⟨backupIdentity key, key.body, .effect lookedUpAt (.backup response) savedAt⟩)
  commit
  return .backup response

def insertManual (o : Backup.Operation) (key : RequestKey) (lookedUpAt : Stamp) :
    RequestM Response := do
  claim (.backup (.operation o.id))
  if ((← view).backup.operations.row o.id).isSome then throw (.backup .alreadyExists)
  else
    write (·.onBackup (·.insertOperation o))
    finishBackup key lookedUpAt o (.created o key)

def createManualOperation (id : UUID) (target : Backup.Target) (key : RequestKey) :
    RequestM Response := do
  match ← lockBackupRequest key with
  | (lookedUpAt, some original) => replayBackup key lookedUpAt original
  | (lookedUpAt, none) =>
    let l ← onBackup (Backup.lineage target)
    let p ← onBackup (Backup.lockPlan l.planID)
    if p.status ≠ .active then throw (.backup .planStateInvalid)
    else
      let now ← onBackup Backup.clock
      insertManual (Backup.manualRow id l p now) key lookedUpAt

def cancelBackupOperation (id : UUID) (now : Stamp) (key : RequestKey) : RequestM Response := do
  match ← lockBackupRequest key with
  | (lookedUpAt, some original) => replayBackup key lookedUpAt original
  | (lookedUpAt, none) =>
    let o ← onBackup (Backup.lockOperation id)
    if o.status.final then throw (.backup .operationTerminal)
    else if o.status = .cancelRequested then
      finishBackup key lookedUpAt o (.canceled o now key)
    else
      write (·.onBackup (·.cancelRow id now))
      finishBackup key lookedUpAt (o.cancel now) (.canceled o now key)

/-! ## Storage requests -/

/-- The scope, the key and the body of `EnqueueStorageOperation`. -/
structure StorageKey where
  scope : Bytes
  key : Bytes
  request : Bytes
  deriving DecidableEq

def storageIdentity (key : StorageKey) : Identity := ⟨.storage, key.scope, key.key⟩

def Database.saveRecord (db : Database) (key : StorageKey) (id : UUID) (now : Stamp) : Database :=
  let record : Record := ⟨key.request, id, now + requestLifetime⟩
  { db with records := db.records.upsert (key.scope, key.key) record fun _ => record }

/-- The query of `EnqueueStorageOperation` and its reading; no id when there is no live record. -/
def lockStorageRequest (key : StorageKey) : RequestM (Stamp × Option UUID) := do
  if key.scope.length ≠ 32 ∨ key.key.length ≠ 32 ∨ key.request.length ≠ 32 then
    throw (.store .idempotencyReused)
  else
    claim (.backup (.advisory (key.key.take 8)))
    let now ← onStore Store.clock
    match (← view).records.row (key.scope, key.key) with
    | none => return (now, none)
    | some record =>
      if record.expiresAt ≤ now then return (now, none)
      else if record.request ≠ key.request then throw (.store .idempotencyReused)
      else return (now, some record.resourceID)

/-- A request that finds its record gets the operation as it is now. -/
def replayStorage (key : StorageKey) (lookedUpAt : Stamp) (original : UUID) :
    RequestM Response := do
  match (← view).store.operation? original with
  | none => throw (.store .notFound)
  | some o =>
    write (·.note ⟨storageIdentity key, key.request, .replayed lookedUpAt (.storage o.id)⟩)
    commit
    return .storage o.id

/-- The inserts of `EnqueueStorageOperation`; the record expires by the time of the operation. -/
def insertStorage (o : Store.Operation) (now : Stamp) (key : StorageKey) (lookedUpAt : Stamp) :
    RequestM Response := do
  let _ ← onStore (Store.enqueue o now none)
  claim (.record key.scope key.key)
  write (·.saveRecord key o.id now)
  write (·.note ⟨storageIdentity key, key.request, .effect lookedUpAt (.storage o.id) now⟩)
  commit
  return .storage o.id

def enqueueStorage (id : UUID) (repository : Option UUID) (credentialID : UUID) (key : StorageKey)
    (lookedUpAt : Stamp) : RequestM Response := do
  let c ← onStore (Store.lockCredential credentialID)
  onStore (Store.ensureNoBackupAdmission c.id)
  if c.disabled then throw (.store .credentialDisabled)
  else if (← view).store.operationBusy c.id then
    throw (.store (if repository.isSome then .repositoryBusy else .credentialTestBusy))
  else
    let now ← onStore Store.clock
    let type := if repository.isSome then .repositoryInitialize else .credentialTest
    insertStorage ⟨id, type, .queued, c.id, repository, c.secretRevision, 1, none, ""⟩ now key
      lookedUpAt

def enqueueStorageOperation (id : UUID) (repository : Option UUID) (credentialID : UUID)
    (key : StorageKey) : RequestM Response := do
  match ← lockStorageRequest key with
  | (lookedUpAt, some original) => replayStorage key lookedUpAt original
  | (lookedUpAt, none) =>
    let credentialID ← onStore (Store.storageOperationCredential repository credentialID)
    enqueueStorage id repository credentialID key lookedUpAt

/-! ## Concurrent calls -/

def noteRefusal (e : Entry) : RequestM Unit := do
  write (·.note e)
  commit

/-- A request and the answer to its caller. -/
def answer (identity : Identity) (body : Bytes) (x : RequestM Response) : RequestProgram Unit := do
  match ← transaction x with
  | .ok _ => return ()
  | .error e =>
    let _ ← transaction (noteRefusal ⟨identity, body, .refused e⟩)
    return ()

inductive Call where
  | create (id : UUID) (target : Backup.Target) (key : RequestKey)
  | cancel (id : UUID) (now : Stamp) (key : RequestKey)
  | storage (id : UUID) (repository : Option UUID) (credentialID : UUID) (key : StorageKey)
  | backup (c : Backup.Call)
  | store (c : Store.Call)

def Call.program (site : Store.Site) : Call → RequestProgram Unit
  | .create id target key =>
    answer (backupIdentity key) key.body (createManualOperation id target key)
  | .cancel id now key => answer (backupIdentity key) key.body (cancelBackupOperation id now key)
  | .storage id repository credentialID key =>
    answer (storageIdentity key) key.request
      (enqueueStorageOperation id repository credentialID key)
  | .backup c => backupPart.program c.program
  | .store c => storePart.program (c.program site)

/-- The requests with a key are calls of their own. -/
def Call.Arrives (site : Store.Site) : Call → Prop
  | .backup (.create ..) | .backup (.cancel ..) => False
  | .store (.enqueueStorage ..) => False
  | .store c => c.Trusts site
  | _ => True

def arrivals (site : Store.Site) (p : RequestProgram Unit) : Prop :=
  ∃ c : Call, c.Arrives site ∧ p = c.program site

abbrev server (site : Store.Site) :
    System (Tx.State schema) ℕ (Tx.Op schema) (Tx.Reply schema) :=
  Tx.system (M := schema) (arrivals site)

end RestFleet.Requests
