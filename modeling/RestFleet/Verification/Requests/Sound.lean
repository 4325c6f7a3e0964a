import RestFleet.Shared.Schedule
import RestFleet.Verification.Requests.Journal
import RestFleet.Verification.Snapshots.Sound

/-! # Every call keeps the records those of the last effects -/

namespace RestFleet.Requests

open Backup (RequestKey requestLifetime)

variable {site : Store.Site} {first : Identity → Option Memory} {t : ℕ} {α : Type}

abbrev Spec (site : Store.Site) (first : Identity → Option Memory) (t : ℕ)
    (A : Tx.State schema → Prop) (x : RequestM α) (Q : α → Tx.State schema → Prop) : Prop :=
  Tx.Body (arrivals site) (discipline first) t A x Q

/-- A transaction that holds the lock of an identity, with what its lookup found. -/
abbrev Looked (t : ℕ) (i : Identity) (body : Bytes) (now : Stamp) (response : Option Response)
    (F : (Database → Database) → Prop) (s : Tx.State schema) : Prop :=
  Tx.Holding (N := schema) t [i.lock] F (fun db => Found body now response (db.memory i)) s

abbrev Unwritten (f : Database → Database) : Prop := Tx.Leaves (N := schema) Database.book f

section Pieces

variable {keys : List Key} {P : Database → Prop} {F : (Database → Database) → Prop}

theorem onBackup_spec (x : Backup.BackupM α) (hP : Tx.Lasts (discipline first) t keys P)
    (hF : ∀ f g, F f → Unwritten g → F (g ∘ f)) :
    Spec site first t (Tx.Holding (N := schema) t keys F P) (onBackup x) fun _ =>
      Tx.Holding (N := schema) t keys F P :=
  Tx.Part.action_body hP onBackup_leaves hF x

theorem onStore_spec (x : Store.StoreM α) (hP : Tx.Lasts (discipline first) t keys P)
    (hF : ∀ f g, F f → Unwritten g → F (g ∘ f)) :
    Spec site first t (Tx.Holding (N := schema) t keys F P) (onStore x) fun _ =>
      Tx.Holding (N := schema) t keys F P :=
  Tx.Part.action_body hP onStore_leaves hF x

end Pieces

variable {i : Identity} {body : Bytes} {now : Stamp} {response : Option Response}

theorem lasts_found :
    Tx.Lasts (discipline first) t [i.lock] fun db => Found body now response (db.memory i) :=
  lasts_memory

theorem unwritten_comp (f g : Database → Database) (hf : Unwritten f) (hg : Unwritten g) :
    Unwritten (g ∘ f) := Tx.Leaves.comp hg hf

/-! ### Lookups -/

/-- What the record says at the moment of the query lasts until the lock is given up. -/
theorem found_return {a : Stamp × Option α} {g : α → Response} {m : Option Memory}
    (hm : Found body a.1 (a.2.map g) m) :
    Spec site first t (Tx.Holding (N := schema) t [i.lock] Unwritten fun db => db.memory i = m)
      (pure a) fun found => Looked t i body found.1 (found.2.map g) Unwritten := by
  refine Tx.Body.pure (Tx.Holding.stable (lasts_memory (P := (· = m)))) ?_
  rintro s - ⟨f, hf, hs⟩
  refine ⟨f, hf, hs.mono (fun _ hk => hk) fun h => ?_⟩
  rw [h]
  exact hm

theorem look_spec {k : Database → RequestM α} {Q : α → Tx.State schema → Prop}
    (hk : ∀ v, Spec site first t (Tx.Holding (N := schema) t [i.lock] Unwritten fun db =>
      db.memory i = v.memory i) (k v) Q) :
    Spec site first t (Tx.Holding (N := schema) t [i.lock] Unwritten fun _ => True)
      (Tx.view >>= k) Q :=
  Tx.Body.pending_look Tx.lasts_const (fun _ db hf _ _ => (memory_of_book (hf db) i).symm) hk

theorem lockBackupRequest_spec (key : RequestKey) :
    Spec site first t (Tx.Pending (N := schema) t Unwritten fun _ => True) (lockBackupRequest key)
      fun found => Looked t (backupIdentity key) key.body found.1 (found.2.map .backup)
        Unwritten := by
  unfold lockBackupRequest
  dsimp only
  split
  · exact Tx.Body.throw
  · refine Tx.Body.pending_take Tx.lasts_const ?_
    refine Tx.Body.bind (onBackup_spec Backup.clock Tx.lasts_const unwritten_comp) fun now => ?_
    refine look_spec (i := backupIdentity key) fun v => ?_
    have hmemory : v.memory (backupIdentity key) = (v.requests.row (key.scope, key.key)).map
        fun r => ⟨r.body, .backup r.response, r.expiresAt⟩ := rfl
    rw [hmemory]
    cases v.requests.row (key.scope, key.key) with
    | none => exact found_return fun _ hr => nomatch hr
    | some request =>
        dsimp only
        split
        · rename_i hexpired
          refine found_return fun r hr => ?_
          cases hr
          exact hexpired
        · rename_i hlive
          split
          · exact Tx.Body.throw
          · rename_i hbody
            exact found_return ⟨_, rfl, not_le.mp hlive, not_not.mp hbody, rfl⟩

theorem lockStorageRequest_spec (key : StorageKey) :
    Spec site first t (Tx.Pending (N := schema) t Unwritten fun _ => True) (lockStorageRequest key)
      fun found => Looked t (storageIdentity key) key.request found.1 (found.2.map .storage)
        Unwritten := by
  unfold lockStorageRequest
  split
  · exact Tx.Body.throw
  · refine Tx.Body.pending_take Tx.lasts_const ?_
    refine Tx.Body.bind (onStore_spec Store.clock Tx.lasts_const unwritten_comp) fun now => ?_
    refine look_spec (i := storageIdentity key) fun v => ?_
    have hmemory : v.memory (storageIdentity key) = (v.records.row (key.scope, key.key)).map
        fun r => ⟨r.request, .storage r.resourceID, r.expiresAt⟩ := rfl
    rw [hmemory]
    cases v.records.row (key.scope, key.key) with
    | none => exact found_return fun _ hr => nomatch hr
    | some record =>
        dsimp only
        split
        · rename_i hexpired
          refine found_return fun r hr => ?_
          cases hr
          exact hexpired
        · rename_i hlive
          split
          · exact Tx.Body.throw
          · rename_i hbody
            exact found_return ⟨_, rfl, not_le.mp hlive, not_not.mp hbody, rfl⟩

/-! ### Ends of requests -/

/-- The last statements of a request: its entry is noted and all is committed. -/
theorem note_spec {e : Entry} {a : α} {F : (Database → Database) → Prop} (hi : e.identity = i)
    (hF : ∀ f, F f → Saved e f)
    (hfits : ∀ before, Found body now response (recalled i (first i) before) → e.Fits first before) :
    Spec site first t (Looked t i body now response F)
      (do Tx.write (fun db : Database => db.note e); Tx.commit; pure a) fun _ _ => True := by
  refine Tx.Body.pending_write (N := schema) lasts_found (fun f hf => (hF f hf).note) ?_
  refine Tx.Body.pending_commit lasts_found ?_
    (Tx.Body.return Tx.lasts_const fun _ _ _ => trivial)
  intro f db hf hs hfound
  rw [hs.memory i] at hfound
  refine hf.commits hs (hfits db.trail hfound) fun _ => ?_
  rw [hi]
  exact List.mem_singleton_self _

/-- A write that puts the record of an entry, and no other, in its place. -/
theorem Saved.of_write {e : Entry} {f g : Database → Database} {m : Memory} (hf : Unwritten f)
    (he : e.memory = some m) (htrail : ∀ db, (g db).trail = db.trail)
    (hself : ∀ db, (g db).memory e.identity = some m)
    (hne : ∀ db j, e.identity ≠ j → (g db).memory j = db.memory j) : Saved e (g ∘ f) := by
  intro db
  refine Prod.ext (funext fun j => ?_) ((htrail (f db)).trans (Prod.mk.inj (hf db)).2)
  change (g (f db)).memory j = e.update j (db.memory j)
  by_cases hj : e.identity = j
  · subst hj
    rw [hself, Entry.update, if_pos rfl, he, Option.some_or]
  · rw [hne _ _ hj, update_of_ne hj, memory_of_book (hf db)]

theorem saved_saveRequest {f : Database → Database} (hf : Unwritten f) (key : RequestKey)
    (o : Backup.Operation) (lookedUpAt savedAt : Stamp) :
    Saved ⟨backupIdentity key, key.body, .effect lookedUpAt (.backup o) savedAt⟩
      ((fun db => db.saveRequest key o savedAt) ∘ f) := by
  refine Saved.of_write hf rfl (fun _ => rfl)
    (fun _ => congrArg (Option.map _) Table.row_upsert_const) fun db j hj => ?_
  obtain ⟨kind, scope, k⟩ := j
  cases kind with
  | storage => rfl
  | backup =>
      have hne : (scope, k) ≠ (key.scope, key.key) := by
        rintro ⟨⟩
        exact hj rfl
      exact congrArg (Option.map _) (Table.row_upsert_ne hne)

theorem saved_saveRecord {f : Database → Database} (hf : Unwritten f) (key : StorageKey)
    (id : UUID) (lookedUpAt savedAt : Stamp) :
    Saved ⟨storageIdentity key, key.request, .effect lookedUpAt (.storage id) savedAt⟩
      ((fun db => db.saveRecord key id savedAt) ∘ f) := by
  refine Saved.of_write hf rfl (fun _ => rfl)
    (fun _ => congrArg (Option.map _) Table.row_upsert_const) fun db j hj => ?_
  obtain ⟨kind, scope, k⟩ := j
  cases kind with
  | backup => rfl
  | storage =>
      have hne : (scope, k) ≠ (key.scope, key.key) := by
        rintro ⟨⟩
        exact hj rfl
      exact congrArg (Option.map _) (Table.row_upsert_ne hne)

/-! ### Backup requests -/

theorem replayBackup_spec (key : RequestKey) (o : Backup.Operation) :
    Spec site first t (Looked t (backupIdentity key) key.body now (some (.backup o)) Unwritten)
      (replayBackup key now o) fun _ _ => True :=
  note_spec rfl (fun _ hf => Saved.of_leaves hf rfl) fun _ h => h

theorem finishBackup_spec (key : RequestKey) (o : Backup.Operation)
    (entry : Stamp → Backup.Entry) :
    Spec site first t (Looked t (backupIdentity key) key.body now none Unwritten)
      (finishBackup key now o entry) fun _ _ => True := by
  unfold finishBackup saveBackupRequest
  simp only [bind_assoc, pure_bind]
  refine Tx.Body.bind (onBackup_spec Backup.clock lasts_found unwritten_comp) fun savedAt => ?_
  refine Tx.Body.pending_claim lasts_found ?_
  refine Tx.Body.pending_write lasts_found (fun f hf => saved_saveRequest hf key o now savedAt) ?_
  refine Tx.Body.pending_write lasts_found (fun f hf => hf.leaves (onBackup_leaves _)) ?_
  exact note_spec rfl (fun _ hf => hf) fun _ h => h

theorem insertManual_spec (o : Backup.Operation) (key : RequestKey) :
    Spec site first t (Looked t (backupIdentity key) key.body now none Unwritten)
      (insertManual o key now) fun _ _ => True := by
  unfold insertManual
  refine Tx.Body.pending_claim lasts_found ?_
  refine Tx.Body.pending_view (S := fun _ => True) lasts_found (fun _ _ _ _ _ => trivial)
    fun v _ => ?_
  split
  · exact Tx.Body.throw
  · refine Tx.Body.pending_write lasts_found (fun f hf => unwritten_comp f _ hf (onBackup_leaves _)) ?_
    exact finishBackup_spec key o _

/-- The two ways on from a lookup. -/
theorem lookup_spec {key : RequestKey} {k : Stamp → RequestM Response}
    (hk : ∀ now, Spec site first t (Looked t (backupIdentity key) key.body now none Unwritten)
      (k now) fun _ _ => True) :
    Spec site first t (Tx.Pending (N := schema) t Unwritten fun _ => True)
      (do match ← lockBackupRequest key with
          | (lookedUpAt, some original) => replayBackup key lookedUpAt original
          | (lookedUpAt, none) => k lookedUpAt) fun _ _ => True := by
  refine Tx.Body.bind (lockBackupRequest_spec key) ?_
  rintro ⟨now, found⟩
  cases found with
  | some o => exact replayBackup_spec key o
  | none => exact hk now

theorem createManualOperation_spec (id : UUID) (target : Backup.Target) (key : RequestKey) :
    Spec site first t (Tx.Pending (N := schema) t Unwritten fun _ => True)
      (createManualOperation id target key) fun _ _ => True := by
  refine lookup_spec fun now => ?_
  refine Tx.Body.bind (onBackup_spec _ lasts_found unwritten_comp) fun l => ?_
  refine Tx.Body.bind (onBackup_spec _ lasts_found unwritten_comp) fun p => ?_
  split
  · exact Tx.Body.throw
  · refine Tx.Body.bind (onBackup_spec _ lasts_found unwritten_comp) fun _ => ?_
    exact insertManual_spec _ key

theorem cancelBackupOperation_spec (id : UUID) (requestedAt : Stamp) (key : RequestKey) :
    Spec site first t (Tx.Pending (N := schema) t Unwritten fun _ => True)
      (cancelBackupOperation id requestedAt key) fun _ _ => True := by
  refine lookup_spec fun now => ?_
  refine Tx.Body.bind (onBackup_spec _ lasts_found unwritten_comp) fun o => ?_
  split
  · exact Tx.Body.throw
  · split
    · exact finishBackup_spec key o _
    · refine Tx.Body.pending_write lasts_found
        (fun f hf => unwritten_comp f _ hf (onBackup_leaves _)) ?_
      exact finishBackup_spec key _ _

/-! ### Storage requests -/

theorem replayStorage_spec (key : StorageKey) (original : UUID) :
    Spec site first t
      (Looked t (storageIdentity key) key.request now (some (.storage original)) Unwritten)
      (replayStorage key now original) fun _ _ => True := by
  unfold replayStorage
  refine Tx.Body.pending_view (S := fun _ => True) lasts_found (fun _ _ _ _ _ => trivial)
    fun v _ => ?_
  split
  · exact Tx.Body.throw
  · rename_i o hfind
    have hid : o.id = original := by simpa using List.find?_some hfind
    subst hid
    exact note_spec rfl (fun _ hf => Saved.of_leaves hf rfl) fun _ h => h

theorem insertStorage_spec (o : Store.Operation) (createdAt : Stamp) (key : StorageKey) :
    Spec site first t (Looked t (storageIdentity key) key.request now none Unwritten)
      (insertStorage o createdAt key now) fun _ _ => True := by
  unfold insertStorage
  refine Tx.Body.bind (onStore_spec _ lasts_found unwritten_comp) fun _ => ?_
  refine Tx.Body.pending_claim lasts_found ?_
  refine Tx.Body.pending_write lasts_found
    (fun f hf => saved_saveRecord hf key o.id now createdAt) ?_
  exact note_spec rfl (fun _ hf => hf) fun _ h => h

theorem enqueueStorage_spec (id : UUID) (repository : Option UUID) (credentialID : UUID)
    (key : StorageKey) :
    Spec site first t (Looked t (storageIdentity key) key.request now none Unwritten)
      (enqueueStorage id repository credentialID key now) fun _ _ => True := by
  unfold enqueueStorage
  refine Tx.Body.bind (onStore_spec _ lasts_found unwritten_comp) fun c => ?_
  refine Tx.Body.bind (onStore_spec _ lasts_found unwritten_comp) fun _ => ?_
  split
  · exact Tx.Body.throw
  · refine Tx.Body.pending_view (S := fun _ => True) lasts_found (fun _ _ _ _ _ => trivial)
      fun v _ => ?_
    split
    · exact Tx.Body.throw
    · refine Tx.Body.bind (onStore_spec _ lasts_found unwritten_comp) fun createdAt => ?_
      exact insertStorage_spec _ createdAt key

theorem enqueueStorageOperation_spec (id : UUID) (repository : Option UUID) (credentialID : UUID)
    (key : StorageKey) :
    Spec site first t (Tx.Pending (N := schema) t Unwritten fun _ => True)
      (enqueueStorageOperation id repository credentialID key) fun _ _ => True := by
  refine Tx.Body.bind (lockStorageRequest_spec key) ?_
  rintro ⟨now, found⟩
  cases found with
  | some original => exact replayStorage_spec key original
  | none =>
      refine Tx.Body.bind (onStore_spec _ lasts_found unwritten_comp) fun c => ?_
      exact enqueueStorage_spec id repository c key

/-! ### Calls -/

abbrev Safely (site : Store.Site) (first : Identity → Option Memory) (t : ℕ)
    (p : RequestProgram Unit) : Prop :=
  Tx.Safely (arrivals site) (discipline first) t (fun _ => True) p

theorem noteRefusal_spec {e : Entry} {error : RequestError} (he : e.outcome = .refused error) :
    Spec site first t (Tx.In (M := schema) t [] id fun _ => True) (noteRefusal e) fun _ _ =>
      True := by
  have hmemory : e.memory = none := by rw [Entry.memory, he]
  refine Tx.Body.pending_intro (F := Unwritten) Tx.leaves_id ?_
  refine Tx.Body.pending_write Tx.lasts_const (fun f hf => (Saved.of_leaves hf hmemory).note)
    (Tx.Body.last ?_)
  refine Tx.Body.pending_commit Tx.lasts_const ?_
    (Tx.Body.return Tx.lasts_const fun _ _ _ => trivial)
  intro f db hf hs _
  refine hf.commits hs ?_ fun h => absurd hmemory h
  rw [Entry.Fits, he]
  trivial

/-- A request is answered, whatever its transaction does. -/
theorem answer_safely {body : Bytes} {x : RequestM Response}
    (h : Spec site first t (Tx.Pending (N := schema) t Unwritten fun _ => True) x fun _ _ => True) :
    Safely site first t (answer i body x) := by
  have hx : Tx.Request (arrivals site) (discipline first) t (fun _ => True)
      (ExceptT.mk (Tx.transaction x)) fun _ _ => True :=
    Tx.Request.transaction Tx.persists_const (Tx.Body.pending_intro (F := Unwritten) Tx.leaves_id h)
  refine Tx.Safely.bind hx fun result => ?_
  cases result with
  | ok response => exact Tx.Safely.done
  | error e =>
      have hnote : Tx.Request (arrivals site) (discipline first) t (fun _ => True)
          (ExceptT.mk (Tx.transaction (noteRefusal ⟨i, body, .refused e⟩))) fun _ _ => True :=
        Tx.Request.transaction Tx.persists_const (noteRefusal_spec rfl)
      exact Tx.Safely.bind hnote fun _ => Tx.Safely.done

theorem call_safely (c : Call) : Safely site first t (c.program site) := by
  cases c with
  | create id target key => exact answer_safely (createManualOperation_spec id target key)
  | cancel id requestedAt key => exact answer_safely (cancelBackupOperation_spec id requestedAt key)
  | storage id repository credentialID key =>
      exact answer_safely (enqueueStorageOperation_spec id repository credentialID key)
  | backup c =>
      exact Tx.Part.program_safely discipline_only onBackup_leaves (Snapshots.begins_backup c)
  | store c =>
      exact Tx.Part.program_safely discipline_only onStore_leaves (Snapshots.begins_store site c)

/-- In every run the records are those of the last effects. -/
theorem sound_of_reachable {start : Database} (hs : start.trail = [])
    {c : Config (Tx.State schema) ℕ (Tx.Op schema) (Tx.Reply schema)}
    (hc : (server site).Reachable (Tx.State.initial start) c) :
    Sound start.memory c.state.db := by
  have hsound : (Tx.outline (arrivals site) (discipline start.memory)).Sound :=
    Tx.sound fun t p hp => by
      obtain ⟨call, -, rfl⟩ := hp
      exact call_safely call
  have hstart : (Tx.outline (arrivals site) (discipline start.memory)).inv
      (Tx.State.initial (M := schema) start) :=
    ⟨sound_start hs, Tx.compatible_initial (M := schema) start⟩
  exact (hsound.inv_of_reachable hstart hc).1

end RestFleet.Requests
