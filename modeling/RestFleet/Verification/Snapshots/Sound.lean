import RestFleet.Shared.Schedule
import RestFleet.Verification.Backup.Snapshots
import RestFleet.Verification.Snapshots.Journal

/-! # Every call keeps the table a replay -/

namespace RestFleet.Snapshots

variable {site : Store.Site} {t : ℕ} {α : Type}

abbrev Spec (site : Store.Site) (t : ℕ) (A : Tx.State schema → Prop) (x : SnapshotM α)
    (Q : α → Tx.State schema → Prop) : Prop :=
  Tx.Body (arrivals site) discipline t A x Q

/-- A transaction whose writes satisfy `F`, for a listing that was taken at `since`. -/
abbrev After (t : ℕ) (since : ℕ) (F : (Database → Database) → Prop) (s : Tx.State schema) : Prop :=
  Tx.Pending (N := schema) t F (fun db => since ≤ db.trail.length) s

variable {since : ℕ} {u : Table (UUID × Text) Row → Table (UUID × Text) Row}
  {F : (Database → Database) → Prop}

theorem onBackup_spec (x : Backup.BackupM α) :
    Spec site t (After t since (Wrote u)) (onBackup x) fun _ => After t since (Wrote u) :=
  Tx.Part.action_body (lasts_since since) onBackup_leaves (fun _ _ h hg => h.leaves hg) x

theorem onStore_spec (x : Store.StoreM α) :
    Spec site t (After t since (Wrote u)) (onStore x) fun _ => After t since (Wrote u) :=
  Tx.Part.action_body (lasts_since since) onStore_leaves (fun _ _ h hg => h.leaves hg) x

/-! ### Results -/

theorem indexSnapshot_spec (r : Backup.Result) (p : Backup.Plan) :
    Spec site t (After t 0 (Wrote id)) (indexSnapshot r p) fun _ => After t 0 fun f =>
      Wrote id f ∨ ∃ e, Noted e f ∧ ∀ before, e.Fits before := by
  have hP : Tx.Lasts discipline t [] fun db : Database => 0 ≤ db.trail.length := lasts_since 0
  unfold indexSnapshot
  split
  · refine Tx.Body.pure (Tx.Holding.stable hP) ?_
    rintro s - ⟨f, hf, hs⟩
    exact ⟨f, Or.inl hf, hs⟩
  · rename_i hid
    refine Tx.Body.bind (onBackup_spec Backup.clock) fun now => ?_
    refine Tx.Body.pending_claim hP ?_
    refine Tx.Body.pending_write hP (fun f hf => hf.rows _) (Tx.Body.last ?_)
    have hnoted : ∀ f, Wrote ((recordRow · r p now) ∘ id) f →
        Noted (.recorded r p now) ((fun db => db.note (.recorded r p now)) ∘ f) :=
      fun f hf => Wrote.note (e := .recorded r p now) hf
    refine Tx.Body.pending_write hP hnoted ?_
    refine Tx.Body.pure (Tx.Holding.stable hP) ?_
    rintro s - ⟨f, hf, hs⟩
    exact ⟨f, Or.inr ⟨_, hf, fun _ => hid⟩, hs⟩

theorem recordResult_spec (r : Backup.Result) (p : Backup.Plan) :
    Spec site t (After t 0 (Wrote id)) (recordResult r p) fun _ _ => True := by
  have hP : Tx.Lasts discipline t [] fun db : Database => 0 ≤ db.trail.length := lasts_since 0
  unfold recordResult
  refine Tx.Body.pending_write hP (fun f hf => hf.leaves (onBackup_leaves _)) ?_
  refine Tx.Body.pending_write hP (fun f hf => hf.leaves (onBackup_leaves _)) ?_
  refine Tx.Body.pending_lock hP fun _ => ?_
  refine Tx.Body.pending_write hP (fun f hf => hf.leaves (onBackup_leaves _)) ?_
  refine Tx.Body.bind (indexSnapshot_spec r p) fun _ => Tx.Body.last ?_
  refine Tx.Body.pending_commit hP ?_ (Tx.Body.return Tx.lasts_const fun _ _ _ => trivial)
  rintro f db (hf | ⟨e, hf, he⟩) hs -
  · exact hf.commits hs
  · exact hf.commits hs (he db.trail)

theorem upsertOperationResult_spec (r : Backup.Result) :
    Spec site t (After t 0 (Wrote id)) (upsertOperationResult r) fun _ _ => True := by
  have hP : Tx.Lasts discipline t [] fun db : Database => 0 ≤ db.trail.length := lasts_since 0
  unfold upsertOperationResult
  refine Tx.Body.pending_view (S := fun _ => True) hP (fun _ _ _ _ _ => trivial) fun v _ => ?_
  split
  · exact Tx.Body.throw
  · refine Tx.Body.bind (onBackup_spec _) fun _ => ?_
    refine Tx.Body.pending_claim hP ?_
    refine Tx.Body.pending_view (S := fun _ => True) hP (fun _ _ _ _ _ => trivial) fun v _ => ?_
    split
    · exact recordResult_spec r _
    · refine Tx.Body.bind (onBackup_spec _) fun _ => Tx.Body.last ?_
      exact Tx.Body.pending_commit hP (fun f db hf hs _ => hf.commits hs)
        (Tx.Body.return Tx.lasts_const fun _ _ _ => trivial)

/-! ### Index jobs -/

theorem putRows_cons (repositoryID : UUID) (x : Text × Row) (rows : List (Text × Row)) :
    putRows repositoryID (x :: rows) =
      putRows repositoryID rows ∘ fun t => putRow t (repositoryID, x.1) x.2 := rfl

theorem markRows_cons (repositoryID : UUID) (now : Stamp) (id : Text) (ids : List Text) :
    markRows repositoryID now (id :: ids) =
      markRows repositoryID now ids ∘ fun t => markRow t (repositoryID, id) now := rfl

theorem indexEntry_spec (operationID : UUID) (r : Store.Repository) (now : Stamp) (e : IndexEntry) :
    Spec site t (After t since (Wrote u)) (indexEntry operationID r now e) fun x s =>
      x.2.missingAt = none ∧ After t since (Wrote ((fun t => putRow t (r.id, x.1) x.2) ∘ u)) s := by
  have hP : Tx.Lasts discipline t [] fun db : Database => since ≤ db.trail.length :=
    lasts_since since
  unfold indexEntry
  split
  · exact Tx.Body.throw
  · refine Tx.Body.pending_view (S := fun _ => True) hP (fun _ _ _ _ _ => trivial) fun v _ => ?_
    dsimp only
    split
    · exact Tx.Body.throw
    · refine Tx.Body.pending_claim hP ?_
      refine Tx.Body.pending_write hP (fun f hf => hf.rows _) ?_
      exact Tx.Body.pure (Tx.Holding.stable hP) fun _ _ h => ⟨rfl, h⟩

theorem indexEntries_spec (operationID : UUID) (r : Store.Repository) (now : Stamp)
    (entries : List IndexEntry) :
    Spec site t (After t since (Wrote u)) (indexEntries operationID r now entries) fun rows s =>
      (∀ x ∈ rows, x.2.missingAt = none) ∧ After t since (Wrote (putRows r.id rows ∘ u)) s := by
  induction entries generalizing u with
  | nil =>
      exact Tx.Body.pure (Tx.Holding.stable (lasts_since since)) fun _ _ h =>
        ⟨by simp, h⟩
  | cons e rest ih =>
      unfold indexEntries
      refine Tx.Body.bind (indexEntry_spec operationID r now e) fun x => ?_
      refine Tx.Body.of_pre fun hx => Tx.Body.bind ih fun rows => ?_
      refine Tx.Body.of_pre fun hrows => ?_
      refine Tx.Body.pure (Tx.Holding.stable (lasts_since since)) fun _ _ h => ⟨?_, ?_⟩
      · intro y hy
        rcases List.mem_cons.mp hy with rfl | hy
        · exact hx
        · exact hrows y hy
      · rw [putRows_cons]
        exact h

theorem markMissing_spec (repositoryID : UUID) (now : Stamp) (ids : List Text) :
    Spec site t (After t since (Wrote u)) (markMissing repositoryID now ids) fun _ =>
      After t since (Wrote (markRows repositoryID now ids ∘ u)) := by
  have hP : Tx.Lasts discipline t [] fun db : Database => since ≤ db.trail.length :=
    lasts_since since
  induction ids generalizing u with
  | nil => exact Tx.Body.pure (Tx.Holding.stable hP) fun _ _ h => h
  | cons id rest ih =>
      unfold markMissing
      refine Tx.Body.pending_lock hP fun _ => ?_
      refine Tx.Body.pending_write hP (fun f hf => hf.rows _) ?_
      rw [markRows_cons]
      exact ih

theorem not_mem_of_unseen {db : Database} {repositoryID : UUID} {seen : List Text} {id : Text}
    (h : id ∈ db.unseen repositoryID seen) : id ∉ seen := by
  obtain ⟨k, hk, rfl⟩ := List.mem_map.mp h
  have hkey := (List.mem_filter.mp hk).2
  simp only [Bool.and_eq_true, Bool.not_eq_true', List.contains_eq_mem,
    decide_eq_false_iff_not] at hkey
  exact hkey.1.2

theorem indexResult_spec (operationID : UUID) (r : Store.Repository) (now : Stamp)
    (entries : List IndexEntry) :
    Spec site t (After t since (Wrote id)) (indexResult operationID r now since entries) fun e s =>
      (∀ before, since ≤ before.length → e.Fits before) ∧ After t since (Wrote e.apply) s := by
  have hP : Tx.Lasts discipline t [] fun db : Database => since ≤ db.trail.length :=
    lasts_since since
  unfold indexResult
  split
  · exact Tx.Body.throw
  · refine Tx.Body.bind (indexEntries_spec operationID r now entries) fun rows => ?_
    refine Tx.Body.of_pre fun hrows => ?_
    refine Tx.Body.pending_view (S := fun _ => True) hP (fun _ _ _ _ _ => trivial) fun v _ => ?_
    refine Tx.Body.bind (markMissing_spec r.id now _) fun _ => ?_
    refine Tx.Body.pure (Tx.Holding.stable hP) fun s _ h => ⟨fun before hb => ?_, h⟩
    exact ⟨hb, hrows, fun id hid => not_mem_of_unseen hid⟩

def Prepared (since : ℕ) : Option Entry → (Database → Database) → Prop
  | none, f => Wrote id f
  | some e, f => Wrote e.apply f ∧ ∀ before, since ≤ before.length → e.Fits before

theorem Prepared.leaves {entry : Option Entry} {f g : Database → Database}
    (h : Prepared since entry f) (hg : Tx.Leaves (N := schema) Database.table g) :
    Prepared since entry (g ∘ f) := by
  cases entry with
  | none => exact Wrote.leaves h hg
  | some e => exact ⟨h.1.leaves hg, h.2⟩

def Ready (since : ℕ) (e : Entry) (f : Database → Database) : Prop :=
  Noted e f ∧ ∀ before, since ≤ before.length → e.Fits before

theorem Prepared.noted {e : Entry} {f : Database → Database} (h : Prepared since (some e) f) :
    Ready since e ((fun db => db.note e) ∘ f) :=
  ⟨h.1.note, h.2⟩

theorem prepared_spec (entry : Option Entry) (x : Store.StoreM α) :
    Spec site t (After t since (Prepared since entry)) (onStore x) fun _ =>
      After t since (Prepared since entry) :=
  Tx.Part.action_body (lasts_since since) onStore_leaves (fun _ _ h hg => h.leaves hg) x

theorem indexWhenDone_spec (code : String) (operationID : UUID) (r : Store.Repository) (now : Stamp)
    (entries : List IndexEntry) :
    Spec site t (After t since (Wrote id)) (indexWhenDone code operationID r now since entries)
      fun entry => After t since (Prepared since entry) := by
  have hP : Tx.Lasts discipline t [] fun db : Database => since ≤ db.trail.length :=
    lasts_since since
  unfold indexWhenDone
  split
  · refine Tx.Body.bind (indexResult_spec operationID r now entries) fun e => ?_
    refine Tx.Body.of_pre fun hfits => Tx.Body.pure (Tx.Holding.stable hP) ?_
    rintro s - ⟨f, hf, hs⟩
    exact ⟨f, ⟨hf, hfits⟩, hs⟩
  · exact Tx.Body.pure (Tx.Holding.stable hP) fun _ _ h => h

theorem noteEntry_commit_spec (entry : Option Entry) :
    Spec site t (After t since (Prepared since entry)) (do noteEntry entry; Tx.commit) fun _ _ =>
      True := by
  have hP : Tx.Lasts discipline t [] fun db : Database => since ≤ db.trail.length :=
    lasts_since since
  have hdone : Spec site t (Tx.In (M := schema) t [] id fun _ => True) (pure ()) fun _ _ => True :=
    Tx.Body.return Tx.lasts_const fun _ _ _ => trivial
  cases entry with
  | none => exact Tx.Body.last (Tx.Body.pending_commit hP (fun _ _ hf hs _ => Wrote.commits hf hs) hdone)
  | some e =>
      refine Tx.Body.pending_write hP (fun f hf => hf.noted) (Tx.Body.last ?_)
      exact Tx.Body.pending_commit hP (fun _ db hf hs hlen => hf.1.commits hs (hf.2 _ hlen)) hdone

theorem finishSnapshotIndexJob_spec (jobID owner : UUID) (code : String)
    (entries : List IndexEntry) :
    Spec site t (After t since (Wrote id)) (finishSnapshotIndexJob jobID owner code since entries)
      fun _ _ => True := by
  unfold finishSnapshotIndexJob
  split
  · exact Tx.Body.throw
  · refine Tx.Body.bind (onStore_spec _) fun c => ?_
    split
    · exact Tx.Body.throw
    · split
      · exact Tx.Body.throw
      · refine Tx.Body.bind (onStore_spec _) fun now => ?_
        refine Tx.Body.bind (onStore_spec _) fun code => ?_
        refine Tx.Body.bind (indexWhenDone_spec code _ _ now entries) fun entry => ?_
        refine Tx.Body.bind (prepared_spec entry _) fun f => ?_
        refine Tx.Body.bind (prepared_spec entry _) fun _ => ?_
        refine Tx.Body.bind (prepared_spec entry _) fun _ => ?_
        exact noteEntry_commit_spec entry

/-! ### Calls -/

theorem begins_backup (c : Backup.Call) : Tx.Begins c.program := by
  cases c with
  | progress p =>
      change Tx.Begins (Backup.handleProgress p)
      unfold Backup.handleProgress Backup.recordOperationProgress
      split
      · exact Or.inl ⟨_, rfl⟩
      · split
        · exact Or.inl ⟨_, rfl⟩
        · exact Or.inr ⟨_, rfl⟩
  | result r =>
      change Tx.Begins (Backup.handleResult r)
      unfold Backup.handleResult Backup.recordOperationResult
      split
      · exact Or.inl ⟨_, rfl⟩
      · split
        · exact Or.inl ⟨_, rfl⟩
        · exact Or.inr ⟨_, rfl⟩
  | _ => exact Or.inr ⟨_, rfl⟩

theorem begins_store (site : Store.Site) (c : Store.Call) : Tx.Begins (c.program site) := by
  cases c with
  | replay runtime wire draw =>
      change Tx.Begins (Store.replayGatewayPending site runtime wire draw)
      unfold Store.replayGatewayPending
      split
      · exact Or.inl ⟨_, rfl⟩
      · split
        · exact Or.inl ⟨_, rfl⟩
        · exact Or.inr ⟨_, rfl⟩
  | create id remote raw draw event =>
      change Tx.Begins (Store.createStorageCredential site id remote raw draw event)
      unfold Store.createStorageCredential Store.saveStorageConfig
      split
      · exact Or.inl ⟨_, rfl⟩
      · split
        · exact Or.inl ⟨_, rfl⟩
        · exact Or.inr ⟨_, rfl⟩
  | _ => exact Or.inr ⟨_, rfl⟩

abbrev Safely (site : Store.Site) (t : ℕ) (p : SnapshotProgram Unit) : Prop :=
  Tx.Safely (arrivals site) discipline t (fun _ => True) p

theorem run_safely {P : Database → Prop} {body : SnapshotM α} (hP : Tx.Lasts discipline t [] P)
    (h : Spec site t (Tx.In (M := schema) t [] id P) body fun _ _ => True) :
    Tx.Safely (arrivals site) discipline t P (run body) :=
  Outline.Triple.bind (Tx.Body.transaction (M := schema) (P := P) (R := fun _ _ => True) hP
    (fun _ => Tx.lasts_const) h) fun _ _ _ _ _ _ => trivial

theorem handleResult_safely (r : Backup.Result) : Safely site t (handleResult r) := by
  unfold handleResult
  split
  · exact Tx.Safely.done
  · split
    · exact Tx.Safely.done
    · refine run_safely Tx.lasts_const fun s hs => upsertOperationResult_spec r s ⟨id, wrote_id, ?_⟩
      exact hs.mono (fun _ hk => hk) fun _ => Nat.zero_le _

theorem takeListing_spec (jobID : UUID) :
    Spec site t (Tx.In (M := schema) t [] id fun _ => True) (takeListing jobID) fun found s =>
      found.1 ≤ s.db.trail.length := by
  unfold takeListing
  refine Tx.Body.view (R := fun v db => v.trail.length ≤ db.trail.length) Tx.lasts_const
    (fun db _ _ => Nat.le_refl _) fun v => ?_
  refine Tx.Body.choose (lasts_since v.trail.length) fun entries => ?_
  exact Tx.Body.pure (Tx.stable_in (lasts_since v.trail.length)) fun _ _ hs => hs.fact

theorem processIndexJob_safely (jobID owner : UUID) (code : String) :
    Safely site t (processIndexJob jobID owner code) := by
  refine Outline.Triple.bind (Tx.Body.transaction (M := schema) (P := fun _ => True)
    (R := fun found db => found.1 ≤ db.trail.length) Tx.lasts_const (fun found => lasts_since found.1)
    (takeListing_spec jobID)) fun result => ?_
  cases result with
  | error e => exact fun _ _ _ _ _ => trivial
  | ok found =>
      refine Outline.Triple.conseq (run_safely (P := fun db => found.1 ≤ db.trail.length)
        (lasts_since found.1) fun s hs => ?_) (fun s h => h found rfl) fun _ _ _ h => h
      exact finishSnapshotIndexJob_spec jobID owner code found.2 s ⟨id, wrote_id, hs⟩

theorem call_safely (c : Call) : Safely site t (c.program site) := by
  cases c with
  | result r => exact handleResult_safely r
  | index jobID owner code => exact processIndexJob_safely jobID owner code
  | backup c => exact Tx.Part.program_safely discipline_only onBackup_leaves (begins_backup c)
  | store c => exact Tx.Part.program_safely discipline_only onStore_leaves (begins_store site c)

/-- In every run the table is the replay of its trail. -/
theorem sound_of_reachable {start : Database} (hs : start.Fresh)
    {c : Config (Tx.State schema) ℕ (Tx.Op schema) (Tx.Reply schema)}
    (hc : (server site).Reachable (Tx.State.initial start) c) : Sound c.state.db := by
  have hsound : (Tx.outline (arrivals site) discipline).Sound := Tx.sound fun t p hp => by
    obtain ⟨call, -, rfl⟩ := hp
    exact call_safely call
  have hstart : (Tx.outline (arrivals site) discipline).inv (Tx.State.initial (M := schema) start) :=
    ⟨hs.sound, Tx.compatible_initial (M := schema) start⟩
  exact (hsound.inv_of_reachable hstart hc).1

/-! ### Runs that compute -/

open Backup (sampleID)

def sampleRepository : Store.Repository :=
  ⟨sampleID 4, sampleID 2, sampleID 16, sampleID 10, sampleID 17, sampleID 18, false, true⟩

def sampleAnswer (now : Stamp) : (q : Store.Choice) → Store.Answer q
  | .clock => now
  | .newV7 => sampleID 0
  | .agentRepository _ => none
  | .agentDelivery _ => none
  | .credentialRepositories _ => []
  | .jobRepository _ _ => some (sampleRepository, true)
  | .provisioning _ => false
  | .readBindingHolds _ _ => true
  | .idempotency _ _ => none
  | .nextJob => none

/-- A call arrives on a connection, or goes on for a number of statements, with the time and the
listing that it gets. -/
inductive Move where
  | call (t : ℕ) (c : Call)
  | go (t n : ℕ) (now : Stamp) (listing : List Restic.IndexedSnapshot)

def Move.turn (site : Store.Site) : Move → Tx.Turn schema
  | .call t c => .spawn t (c.program site)
  | .go t n now listing =>
    .run t (fun
      | .backup .clock => now
      | .backup (.skipLocked _) => false
      | .store q => sampleAnswer now q
      | .listing _ => listing) n

def Move.Arrives (site : Store.Site) : Move → Prop
  | .call _ c => c.Arrives site
  | .go .. => True

instance : DecidableRel schema.conflicts := fun _ _ => inferInstanceAs (Decidable False)

def play (site : Store.Site) (start : Database) (moves : List Move) : Option (Tx.Machine schema) :=
  (Tx.Machine.start (M := schema) start).schedule (moves.map (Move.turn site))

theorem reachable_of_play {start : Database} {moves : List Move} {m : Tx.Machine schema}
    (ha : ∀ move ∈ moves, move.Arrives site) (h : play site start moves = some m) :
    (server site).Reachable (Tx.State.initial start) ⟨m.state, m.threads⟩ := by
  refine Tx.schedule_reachable ?_ h
  intro turn hturn
  obtain ⟨move, hmove, rfl⟩ := List.mem_map.mp hturn
  cases move with
  | call t c => exact ⟨c, ha _ hmove, rfl⟩
  | go t n now listing => trivial

def sampleSite : Store.Site where
  cipher := ⟨fun _ _ plaintext _ => plaintext, fun _ _ ciphertext _ => some ciphertext,
    fun _ _ _ _ => rfl⟩
  masterKey := []
  rclone := ⟨Unit, fun _ _ => none, fun _ => [], fun _ => [], fun _ _ => false, fun _ _ => false⟩
  trusted := fun _ => False

def sampleHash : Text := List.replicate 64 'a'

def sampleStore : Store.Database where
  admissions := [⟨sampleID 11, sampleID 19, sampleID 3, sampleID 2, sampleID 4, sampleID 16,
    sampleID 10, sampleID 20, sampleID 17, sampleID 18, sampleHash, 0, 1000, none⟩]
  decisions := [⟨sampleID 11, 1, sampleID 21, sampleID 12, 0, 0, some 1000, false⟩]
  origins := [⟨sampleID 11, sampleID 12, [], 0, 0, none⟩]
  records := []
  audits := []
  credentials := [⟨sampleID 10, [], [], .healthy, sampleID 22, 1, 1⟩]
  revisions := []
  secrets := []
  operations := [⟨sampleID 13, .snapshotIndex, .running, sampleID 10, some (sampleID 4), 1, 1, none,
    ""⟩]
  events := []
  jobs := [⟨sampleID 14, sampleID 13, .leased, 0, some (sampleID 15), some 1000, 1, 3,
    some ⟨sampleID 4, sampleID 13, sampleID 11, sampleID 12, sampleHash⟩⟩]
  leases := [⟨sampleID 4, sampleID 13, sampleID 15, true, 1000⟩]
  trail := []

def sampleStart : Database := ⟨Backup.sampleStart, sampleStore, Table.empty, []⟩

theorem sampleStart_fresh : sampleStart.Fresh := ⟨rfl, rfl⟩

def sampleSnapshot (digit : Char) (tags : List Text) : Restic.IndexedSnapshot :=
  ⟨List.replicate 64 digit, List.replicate 64 '0', 5, tags, [], [], 0, 0⟩

def planTags : List Text :=
  ["restfleet:managed".toList, "restfleet:plan:".toList ++ (sampleID 1).text]

end RestFleet.Snapshots
