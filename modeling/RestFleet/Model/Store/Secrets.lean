import RestFleet.Model.Envelope
import RestFleet.Model.Store.Admissions

/-! # Secrets of storage credentials

Sealing and opening as in `server/storage.go`, and the writers of a credential's secret in
`storage.go` and `backup_material.go`. -/

namespace RestFleet.Store

open Tx (view write lock claim commit)

/-! ## Sealing -/

/-- What the control plane asks of `rclone`: to read and to compare configurations. -/
structure Rclone where
  Config : Type
  parseConfig : Bytes → Text → Option Config
  bytes : Config → Bytes
  storageProvider : Config → Text
  sameTarget : Config → Config → Bool
  sameExceptToken : Config → Config → Bool

/-- What a control plane is set up with, and the pending wires that it may be shown. -/
structure Site where
  cipher : Cipher
  masterKey : Bytes
  rclone : Rclone
  trusted : PendingWire → Prop

structure Draw where
  id : UUID
  random : SealRandom

def envelopeAlgorithm : String := "AES-256-GCM+AES-256-GCM"

def storageAADText (id : UUID) (revision : ℕ) (secretID : UUID) : Text :=
  "restfleet:storage-rclone:v1:".toList ++ (id.text ++ ':' :: (Nat.toDigits 10 revision ++
    ':' :: (secretID.text ++ ":master:v1".toList)))

def storageAAD (c : Credential) (secretID : UUID) : Bytes :=
  Text.bytes (storageAADText c.id c.secretRevision secretID)

def Site.sealStorageConfig (site : Site) (c : Credential) (config : site.rclone.Config)
    (draw : Draw) : Option SecretEnvelope :=
  (sealEnvelope site.cipher site.masterKey (site.rclone.bytes config) (storageAAD c draw.id)
      draw.random).map fun e => {
    id := draw.id
    kind := "RCLONE_CONFIG"
    algorithm := envelopeAlgorithm
    keyID := "master:v1"
    ciphertext := e.ciphertext
    nonce := e.nonce
    wrappedDataKey := e.wrappedDataKey
    wrapNonce := e.wrapNonce
    aad := e.aad }

def Site.openStorageSecret (site : Site) (c : Credential) (e : SecretEnvelope) : Option Bytes :=
  if e.id ≠ c.secretRef ∨ e.kind ≠ "RCLONE_CONFIG" ∨ e.keyID ≠ "master:v1" ∨
      e.algorithm ≠ envelopeAlgorithm ∨ e.aad ≠ storageAAD c e.id ∨ e.nonce.length ≠ 12 ∨
      e.wrapNonce.length ≠ 12 then none
  else openEnvelope site.cipher site.masterKey
    ⟨e.ciphertext, e.nonce, e.wrappedDataKey, e.wrapNonce, e.aad⟩

def Site.storedConfig (site : Site) (c : Credential) (e : SecretEnvelope) :
    Option site.rclone.Config :=
  match site.openStorageSecret c e with
  | none => none
  | some raw => (site.rclone.parseConfig raw c.remoteName).filter fun config =>
      site.rclone.storageProvider config = c.provider

/-! ## Rows -/

def Database.secret? (db : Database) (id : UUID) : Option SecretEnvelope :=
  db.secrets.find? (·.id = id)

def Database.addSecret (db : Database) (e : SecretEnvelope) : Database :=
  { db with secrets := db.secrets ++ [e] }

def Database.addRevision (db : Database) (v : CredentialRevision) : Database :=
  { db with revisions := db.revisions ++ [v] }

def Credential.refreshed (x : Credential) (ref : UUID) : Credential :=
  { x with secretRef := ref, secretRevision := x.secretRevision + 1, revision := x.revision + 1 }

/-- `update storage_credentials set secret_ref, secret_revision=secret_revision+1,
revision=revision+1`. -/
def Database.setSecretRef (db : Database) (id ref : UUID) : Database :=
  { db with credentials := db.credentials.map fun x => if x.id = id then x.refreshed ref else x }

def Credential.save (c x : Credential) : Credential :=
  { x with status := c.status, secretRef := c.secretRef, secretRevision := c.secretRevision
           revision := x.revision + 1 }

def Database.saveCredential (db : Database) (c : Credential) (expectedRevision : ℕ) : Database :=
  { db with credentials := if expectedRevision = 0 then db.credentials ++ [{ c with revision := 1 }]
      else db.credentials.map fun x => if x.id = c.id then c.save x else x }

def insertSecret (e : SecretEnvelope) : StoreM Unit := do
  claim (.secret e.id)
  if (← view).secrets.any (·.id = e.id) then throw .database
  else write (·.addSecret e)

def insertRevision (v : CredentialRevision) : StoreM Unit := do
  if (← view).revisions.any (fun x => (x.credentialID = v.credentialID ∧ x.revision = v.revision) ∨
      x.secretRef = v.secretRef) then throw .database
  else write (·.addRevision v)

/-- The statements by which every refresh stores the next secret of a locked credential. -/
def storeRefreshed (c : Credential) (next : SecretEnvelope) : StoreM Unit := do
  insertSecret next
  insertRevision ⟨c.id, c.secretRevision + 1, next.id⟩
  write (·.setSecretRef c.id next.id)

/-! ## `SaveStorageCredential` -/

/-- New material waits until the data plane is cleaned up; disabling does not. -/
def ensureReplaceable (id : UUID) (material : Bool) : StoreM Unit :=
  if material then ensureNoBackupAdmission id else return ()

def ensureExpectedRevision (id : UUID) (expectedRevision : ℕ) (material : Bool) : StoreM Unit := do
  if expectedRevision = 0 then return ()
  else
    let current ← lockCredential id
    ensureReplaceable id material
    if current.revision ≠ expectedRevision then throw .revisionConflict else return ()

def writeCredential (c : Credential) (expectedRevision : ℕ) : StoreM Unit := do
  if expectedRevision = 0 then
    claim (.credential c.id)
    if (← view).credentials.any (·.id = c.id) then throw .database
    else write (·.saveCredential c expectedRevision)
  else write (·.saveCredential c expectedRevision)

def writeMaterial (c : Credential) (expectedRevision : ℕ) (secret : Option SecretEnvelope) :
    StoreM Unit :=
  match secret with
  | none => writeCredential c expectedRevision
  | some e => do
    insertSecret e
    writeCredential c expectedRevision
    insertRevision ⟨c.id, c.secretRevision, c.secretRef⟩

def saveStorageCredential (c : Credential) (expectedRevision : ℕ) (secret : Option SecretEnvelope)
    (audit : AuditEvent) : StoreM Credential := do
  ensureExpectedRevision c.id expectedRevision secret.isSome
  writeMaterial c expectedRevision secret
  appendAudit audit
  write (·.note (.saved c expectedRevision secret audit))
  commit
  return { c with revision := expectedRevision + 1 }

def storageCredential (id : UUID) : StoreM Credential := do
  match (← view).credential? id with
  | none => throw .notFound
  | some c => return c

def storageCredentialSecret (id : UUID) : StoreM SecretEnvelope := do
  let db ← view
  if db.revisions.any (·.secretRef = id) then
    match db.secret? id with
    | none => throw .notFound
    | some e => return e
  else throw .notFound

/-! ## Material of an admission -/

def backupAdmissionMaterial (id owner : UUID) (hash : Text) :
    StoreM (Credential × SecretEnvelope) := do
  match ← lockBackupAdmission id owner hash with
  | none => reject .backupAdmission
  | some a =>
    let c ← storageCredential a.storageCredentialID
    let db ← view
    if !db.revisions.any (· = ⟨c.id, c.secretRevision, c.secretRef⟩) then throw .notFound
    else match db.secret? c.secretRef with
    | none => throw .notFound
    | some e =>
      ensureLiveBackupAdmission id owner
      commit
      return (c, e)

def refreshBackupAdmission (id owner : UUID) (hash : Text) (expected : ℕ) (next : SecretEnvelope) :
    StoreM Credential := do
  match ← lockBackupAdmission id owner hash with
  | none => reject .backupAdmission
  | some a =>
    if !((← view).originsOf id).isEmpty then throw .gatewayPending
    else
      let c ← storageCredential a.storageCredentialID
      if expected < 1 ∨ c.secretRevision ≠ expected then throw .revisionConflict
      else if next.kind ≠ "RCLONE_CONFIG" ∨ ¬ next.id.isV7 then throw .storageUnavailable
      else
        storeRefreshed c next
        ensureLiveBackupAdmission id owner
        write (·.note (.refreshed id c next))
        commit
        return c.refreshed next.id

end RestFleet.Store
