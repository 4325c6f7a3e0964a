import RestFleet.Model.Store.Workers

/-! # Callers that seal secrets

`server/storage.go`, `WithBackupMaterial` and `ProcessCredentialJob`: each reads a credential,
seals the next secret for what it read, and only then starts the transaction that stores it. -/

namespace RestFleet.Store

open Tx (transaction)

def onSuccess {α : Type} (p : StoreProgram (Except StoreError α)) (k : α → StoreProgram Unit) :
    StoreProgram Unit := do
  match ← p with
  | .error _ => return ()
  | .ok a => k a

def call {α : Type} (body : StoreM α) : StoreProgram Unit :=
  onSuccess (transaction body) fun _ => return ()

def Credential.next (c : Credential) : Credential :=
  { c with secretRevision := c.secretRevision + 1 }

variable (site : Site)

/-! ## Administration -/

def saveStorageConfig (c : Credential) (revision : ℕ) (config : site.rclone.Config) (draw : Draw)
    (audit : AuditEvent) : StoreProgram Unit :=
  match site.sealStorageConfig c config draw with
  | none => return ()
  | some e => call (saveStorageCredential { c with secretRef := e.id } revision (some e) audit)

def createStorageCredential (id : UUID) (remote : Text) (raw : Bytes) (draw : Draw)
    (audit : AuditEvent) : StoreProgram Unit :=
  match site.rclone.parseConfig raw remote with
  | none => return ()
  | some config => saveStorageConfig site
      ⟨id, site.rclone.storageProvider config, remote, .untested, 0, 1, 1⟩ 0 config draw audit

def replaceStorageCredential (id : UUID) (revision : ℕ) (raw : Bytes) (draw : Draw)
    (access audit : AuditEvent) : StoreProgram Unit :=
  onSuccess (transaction (storageCredential id)) fun c =>
    if revision ≠ c.revision ∨ c.disabled then return ()
    else match site.rclone.parseConfig raw c.remoteName with
    | none => return ()
    | some next =>
      onSuccess (transaction (recordAudit access)) fun _ =>
        onSuccess (transaction (storageCredentialSecret c.secretRef)) fun envelope =>
          match site.storedConfig c envelope with
          | none => return ()
          | some previous =>
            if site.rclone.sameTarget previous next then
              saveStorageConfig site { c.next with status := .untested } revision next draw audit
            else return ()

def disableStorageCredential (id : UUID) (revision : ℕ) (audit : AuditEvent) :
    StoreProgram Unit :=
  onSuccess (transaction (storageCredential id)) fun c =>
    if revision ≠ c.revision then return ()
    else call (saveStorageCredential { c with status := .disabled } revision none audit)

/-! ## Token refreshes -/

/-- What `persist` gets: the refreshed configuration, and what sealing it draws. -/
structure Refresh where
  raw : Bytes
  draw : Draw

def sealRefresh (c : Credential) (previous : site.rclone.Config) (refresh : Refresh) :
    Option (site.rclone.Config × SecretEnvelope) :=
  match site.rclone.parseConfig refresh.raw c.remoteName with
  | none => none
  | some next =>
    if site.rclone.sameExceptToken previous next then
      (site.sealStorageConfig c.next next refresh.draw).map fun e => (next, e)
    else none

/-- The calls of `persist` one after the other: a stored secret is what the next one starts from,
a failed one changes nothing. -/
def persistAll (store : ℕ → SecretEnvelope → StoreM Credential) (c : Credential)
    (previous : site.rclone.Config) : List Refresh → StoreProgram Unit
  | [] => return ()
  | refresh :: rest =>
    match sealRefresh site c previous refresh with
    | none => persistAll store c previous rest
    | some (next, e) => do
      match ← transaction (store c.secretRevision e) with
      | .error _ => persistAll store c previous rest
      | .ok saved => persistAll store saved next rest

def withBackupMaterial (id owner : UUID) (hash : Text) (refreshes : List Refresh) :
    StoreProgram Unit :=
  onSuccess (transaction (backupAdmissionMaterial id owner hash)) fun (c, envelope) =>
    match site.storedConfig c envelope with
    | none => return ()
    | some previous => persistAll site (refreshBackupAdmission id owner hash) c previous refreshes

/-- `ProcessCredentialJob` up to the completion, which is a call of its own. -/
def processCredentialJob (owner : UUID) (refreshes : List Refresh) : StoreProgram Unit :=
  onSuccess (transaction (claimCredentialJob owner)) fun c =>
    if repositoryUnavailable c || c.job.readBinding.isSome || !credentialUnchanged c then return ()
    else onSuccess (transaction (renewCredentialJob c.job.id owner)) fun _ =>
      onSuccess (transaction (storageCredentialSecret c.credential.secretRef)) fun envelope =>
        match site.storedConfig c.credential envelope with
        | none => return ()
        | some previous => persistAll site (refreshCredentialJob c.job.id owner) c.credential
            previous refreshes

end RestFleet.Store
