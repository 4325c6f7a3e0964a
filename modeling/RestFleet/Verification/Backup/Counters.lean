import RestFleet.Verification.Backup.Results

/-! # Counters of running operations -/

namespace RestFleet.Backup

variable {start db : Database} {e : Entry} {op : UUID} {o o' : Operation} {p : Progress}
  {k : UUID × ℕ} {c : Config (Tx.State schema) ℕ (Tx.Op schema) (Tx.Reply schema)}

def Operation.counters (o : Operation) : ℤ × ℤ × ℤ × ℤ :=
  (o.filesDone, o.totalFiles, o.bytesDone, o.totalBytes)

def ProgressEvent.counters (e : ProgressEvent) : ℤ × ℤ × ℤ × ℤ :=
  (e.filesDone, e.totalFiles, e.bytesDone, e.totalBytes)

/-! ## Rows -/

/-- The entries that write the counters of an operation. -/
def Entry.measures (op : UUID) : Entry → Prop
  | .progressed p => p.operationID = op
  | .resulted r _ => r.operationID = op
  | _ => False

theorem rowRule_counters :
    RowRule (fun o o' : Operation => o'.counters = o.counters) fun _ => True :=
  ⟨fun _ => rfl, fun _ _ _ h h' => h'.trans h, fun _ _ _ _ => trivial⟩

theorem respects_counters (h : ¬ e.measures op) :
    e.Respects op (fun o o' => o'.counters = o.counters) fun _ => True := by
  cases e with
  | progressed p => exact fun hid => absurd hid h
  | resulted r p => exact fun hid => absurd hid h
  | created o key savedAt => exact fun _ => trivial
  | canceled found now key savedAt =>
      intro _ _ o
      unfold Operation.cancel
      split_ifs <;> rfl
  | claimed stream i now retryBefore => exact fun _ _ => rfl
  | accepted i now =>
      intro _ o
      unfold Operation.accept
      split <;> rfl
  | rejected i now =>
      intro _ o
      unfold Operation.reject
      split <;> rfl
  | closed cutoff now ids =>
      intro _ o
      unfold Operation.closeUnstarted
      split <;> rfl
  | reconciled bootCutoff now runs ids =>
      intro _ o a
      unfold Operation.reconcile
      split <;> rfl
  | _ => trivial

theorem row_unmeasured (hok : RowsOk db) (hg : e.Guard db) (h : ¬ e.measures op)
    (ho : db.operations.row op = some o) :
    ∃ o', (e.commit db).operations.row op = some o' ∧ o'.counters = o.counters ∧ o.Next o' := by
  obtain ⟨o', ho', hnext⟩ := hok.evolves hg op o ho
  have hstep := commit_rowStep rowRule_counters hg (respects_counters h)
  rw [ho, ho'] at hstep
  refine ⟨o', ho', ?_, hnext⟩
  cases hstep with
  | keep => rfl
  | change hs => exact hs

theorem not_measures (hg : e.Guard db) (ho : db.operations.row op = some o)
    (hf : o.finishedAt.isSome) : ¬ e.measures op := by
  intro hm
  have haffects : ∃ r : Report, r.operationID = op ∧ db.affects r := by
    cases e with
    | progressed p => exact ⟨p.toReport, hm, hg⟩
    | resulted r p => exact ⟨r.toReport, hm, hg.1⟩
    | _ => exact hm.elim
  obtain ⟨r, rfl, ha⟩ := haffects
  simp only [Database.affects, ho, Option.all_some] at ha
  have hopen := Operation.finishedAt_of_updatable ha
  rw [Option.isNone_iff_eq_none.mp hopen] at hf
  cases hf

theorem Operation.Next.open (h : o.Next o') (hf : o'.finishedAt = none) : o.finishedAt = none := by
  by_contra hne
  have hsame : o'.finishedAt = o.finishedAt :=
    congrArg (·.2.1) (h.outcome (Option.isSome_iff_ne_none.mpr hne))
  exact hne (hsame ▸ hf)

theorem counters_progress : (o.progress p).counters = o.counters := by
  unfold Operation.progress
  split <;> rfl

theorem finishedAt_count : (o.count p).finishedAt = o.finishedAt := by
  unfold Operation.count
  split <;> rfl

/-! ## Events -/

theorem foldl_max_le {l : List (UUID × ℕ)} {m n : ℕ} :
    l.foldl (fun n k => max n k.2) m ≤ n ↔ m ≤ n ∧ ∀ k ∈ l, k.2 ≤ n := by
  induction l generalizing m with
  | nil => simp
  | cons k rest ih => simp [ih, and_assoc]

theorem maxSequence_le {n : ℕ} :
    db.maxSequence op ≤ n ↔ ∀ k ∈ db.events.keys, k.1 = op → k.2 ≤ n := by
  simp [Database.maxSequence, foldl_max_le]

/-- The event with the highest sequence of its operation. -/
def Database.Newest (db : Database) (k : UUID × ℕ) : Prop :=
  k ∈ db.events.keys ∧ ∀ k' ∈ db.events.keys, k'.1 = k.1 → k'.2 ≤ k.2

/-- The key of the event that a report stores. -/
def Progress.key (p : Progress) : UUID × ℕ := (p.operationID, p.sequence)

/-- The events are the first reports of their sequence numbers, and the counters of an unfinished
row are those of its newest event. -/
structure EventsOk (db : Database) : Prop where
  nodup : db.events.keys.Nodup
  stored : ∀ k ∈ db.events.keys,
    ∃ p, .progressed p ∈ db.trail ∧ p.key = k ∧ db.events.row k = some p.event
  received : ∀ p, .progressed p ∈ db.trail → p.key ∈ db.events.keys
  reported : ∀ k ∈ db.events.keys, ∃ o, db.operations.row k.1 = some o
  counted : ∀ k, db.Newest k → ∀ o, db.operations.row k.1 = some o → o.finishedAt = none →
    (db.events.row k).map (·.counters) = some o.counters

/-- A row that is still open was open with the same counters. -/
def KeepsOpen (db db' : Database) (op : UUID) : Prop :=
  ∀ o o', db.operations.row op = some o → db'.operations.row op = some o' → o'.finishedAt = none →
    o.finishedAt = none ∧ o'.counters = o.counters

theorem keepsOpen_unmeasured (hok : RowsOk db) (hg : e.Guard db) (h : ¬ e.measures op) :
    KeepsOpen db (e.commit db) op := by
  intro o o' ho ho' hf
  obtain ⟨o₁, ho₁, hcount, hnext⟩ := row_unmeasured hok hg h ho
  obtain rfl := Option.some.inj (ho₁.symm.trans ho')
  exact ⟨hnext.open hf, hcount⟩

namespace EventsOk

theorem kept (h : EventsOk db) (hok : RowsOk db) (hg : e.Guard db)
    (hevents : (e.commit db).events = db.events)
    (hp : ∀ p, e = .progressed p → p.key ∈ db.events.keys)
    (hrows : ∀ op, KeepsOpen db (e.commit db) op) : EventsOk (e.commit db) where
  nodup := hevents ▸ h.nodup
  stored := by
    rw [hevents]
    intro k hk
    obtain ⟨p, hmem, hkey, hrow⟩ := h.stored k hk
    exact ⟨p, by simp [hmem], hkey, hrow⟩
  received := by
    intro p hmem
    rw [commit_trail, List.mem_append, List.mem_singleton] at hmem
    exact hevents ▸ hmem.elim (h.received p) fun he => hp p he.symm
  reported := by
    rw [hevents]
    intro k hk
    obtain ⟨o, ho⟩ := h.reported k hk
    exact (hok.evolves hg k.1 o ho).imp fun _ => And.left
  counted := by
    intro k hk o' ho' hf
    rw [Database.Newest, hevents] at hk
    obtain ⟨o, ho⟩ := h.reported k hk.1
    obtain ⟨hopen, hcount⟩ := hrows k.1 o o' ho ho' hf
    rw [hevents, hcount]
    exact h.counted k hk o ho hopen

/-! ### Progress -/

theorem row_upsertProgress (db : Database) (p : Progress) :
    ∃ o, (db.upsertProgress p).operations.row p.operationID = some o ∧
      ∀ o₀, db.operations.row p.operationID = some o₀ → o = o₀.progress p := by
  cases hrow : db.operations.row p.operationID with
  | none => exact ⟨p.newRow, Table.row_upsert_none hrow, fun _ h => by cases h⟩
  | some o₀ => exact ⟨o₀.progress p, Table.row_upsert_some hrow, fun _ h => by cases h; rfl⟩

theorem keepsOpen_progress {db' : Database} (hok : RowsOk db)
    (hfrom : ∀ o₀, db.operations.row p.operationID = some o₀ → o = o₀.progress p)
    (hrow : db'.operations.row p.operationID = some o) : KeepsOpen db db' p.operationID := by
  intro o₀ o' ho₀ ho' hf
  obtain rfl := Option.some.inj (hrow.symm.trans ho')
  obtain rfl := hfrom o₀ ho₀
  exact ⟨(o₀.progress_step p (hok _ _ ho₀).1).1.open hf, counters_progress⟩

theorem progress_repeated (h : EventsOk db) (hok : RowsOk db) (hg : (Entry.progressed p).Guard db)
    (hknown : (db.events.row p.key).isSome) : EventsOk ((Entry.progressed p).commit db) := by
  have hcommit : (Entry.progressed p).commit db = (db.upsertProgress p).note (.progressed p) :=
    congrArg (Database.note · _) (progress_known hknown)
  refine h.kept hok hg (by rw [hcommit]; rfl) (fun q hq => ?_) fun op => ?_
  · cases hq
    exact db.events.listed _ hknown
  · by_cases hop : p.operationID = op
    · subst hop
      obtain ⟨o, ho, hfrom⟩ := row_upsertProgress db p
      exact keepsOpen_progress hok hfrom (by rw [hcommit]; exact ho)
    · exact keepsOpen_unmeasured hok hg hop

theorem events_progressed (hnew : ¬ (db.events.row p.key).isSome) :
    ((Entry.progressed p).commit db).events = db.events.insert p.key p.event := by
  change (db.applyProgress p).events = _
  rw [progress_new hnew]
  unfold Database.updateCounters
  split <;> rfl

theorem row_progressed (hnew : ¬ (db.events.row p.key).isSome)
    (ho : (db.upsertProgress p).operations.row p.operationID = some o) :
    ((Entry.progressed p).commit db).operations.row p.operationID =
      some (if p.sequence = ((Entry.progressed p).commit db).maxSequence p.operationID then o.count p
        else o) := by
  have hmax : ((Entry.progressed p).commit db).maxSequence p.operationID =
      ((db.upsertProgress p).insertEvent p).maxSequence p.operationID := by
    rw [Database.maxSequence, events_progressed hnew]
    rfl
  rw [hmax]
  change (db.applyProgress p).operations.row p.operationID = _
  rw [progress_new hnew, Database.updateCounters]
  split
  · exact Table.row_modify_self.trans (congrArg (Option.map _) ho)
  · exact ho

theorem progress_first (h : EventsOk db) (hok : RowsOk db) (hg : (Entry.progressed p).Guard db)
    (hnew : ¬ (db.events.row p.key).isSome) : EventsOk ((Entry.progressed p).commit db) := by
  have hevents := events_progressed hnew
  have hkeys : ((Entry.progressed p).commit db).events.keys = db.events.keys ++ [p.key] :=
    congrArg Table.keys hevents
  have hkey : p.key ∉ db.events.keys := fun hmem => by
    obtain ⟨_, -, -, hrow⟩ := h.stored _ hmem
    exact hnew (hrow ▸ rfl)
  obtain ⟨o₁, ho₁, hfrom⟩ := row_upsertProgress db p
  have hrow₁ := row_progressed hnew ho₁
  refine ⟨?_, ?_, ?_, ?_, ?_⟩
  case refine_1 =>
    rw [hkeys, ← List.concat_eq_append]
    exact h.nodup.concat hkey
  case refine_2 =>
    rw [hkeys, hevents, commit_trail]
    refine List.forall_mem_append.mpr ⟨fun k hk => ?_, List.forall_mem_singleton.mpr ?_⟩
    · obtain ⟨q, hmem, hq, hrow⟩ := h.stored k hk
      refine ⟨q, List.mem_append_left _ hmem, hq, ?_⟩
      rw [Table.row_insert_ne (ne_of_mem_of_not_mem hk hkey), hrow]
    · exact ⟨p, by simp, rfl, Table.row_insert_self⟩
  case refine_3 =>
    intro q hmem
    rw [commit_trail, List.mem_append, List.mem_singleton] at hmem
    rw [hkeys, List.mem_append, List.mem_singleton]
    exact hmem.imp (h.received q) fun hq => by cases hq; rfl
  case refine_4 =>
    rw [hkeys]
    refine List.forall_mem_append.mpr ⟨fun k hk => ?_, List.forall_mem_singleton.mpr ⟨_, hrow₁⟩⟩
    obtain ⟨o, ho⟩ := h.reported k hk
    exact (hok.evolves hg k.1 o ho).imp fun _ => And.left
  case refine_5 =>
    intro k hk o' ho' hf
    by_cases hself : k = p.key
    · -- the report is the newest one, so the row has its counters
      subst hself
      have hmax : p.sequence = ((Entry.progressed p).commit db).maxSequence p.operationID :=
        le_antisymm (maxSequence_le.mp le_rfl _ hk.1 rfl) (maxSequence_le.mpr hk.2)
      rw [if_pos hmax] at hrow₁
      obtain rfl := Option.some.inj (hrow₁.symm.trans ho')
      rw [finishedAt_count] at hf
      rw [hevents, Table.row_insert_self, Operation.count, hf]
      rfl
    · -- an older event stays the newest one, and the row keeps its counters
      obtain ⟨hmem, hnewest⟩ := hk
      rw [hkeys] at hmem hnewest
      have hold : k ∈ db.events.keys :=
        (List.mem_append.mp hmem).resolve_right fun hk => hself (List.mem_singleton.mp hk)
      obtain ⟨o, ho⟩ := h.reported k hold
      have hkeep : KeepsOpen db ((Entry.progressed p).commit db) k.1 := by
        by_cases hop : p.operationID = k.1
        · have hlt : p.sequence ≠ ((Entry.progressed p).commit db).maxSequence p.operationID := by
            intro hmax
            have hle := maxSequence_le.mp hmax.ge k (hkeys ▸ hmem) hop.symm
            have hge := hnewest p.key (List.mem_append_right _ List.mem_cons_self) hop
            exact hself (Prod.ext hop.symm (le_antisymm hle hge))
          rw [if_neg hlt] at hrow₁
          exact hop ▸ keepsOpen_progress hok hfrom hrow₁
        · exact keepsOpen_unmeasured hok hg hop
      obtain ⟨hopen, hcount⟩ := hkeep o o' ho ho' hf
      rw [hevents, Table.row_insert_ne hself, hcount]
      exact h.counted k ⟨hold, fun k' hk' => hnewest k' (List.mem_append_left _ hk')⟩ o ho hopen

/-! ### Every entry -/

theorem finished_resulted {r : Result} {plan : Plan} (hg : (Entry.resulted r plan).Guard db)
    (ho : ((Entry.resulted r plan).commit db).operations.row r.operationID = some o) :
    o.finishedAt.isSome := by
  have hup : ∃ o₁, (db.upsertResult r).operations.row r.operationID = some o₁ ∧
      o₁.finishedAt.isSome := by
    cases hrow : db.operations.row r.operationID with
    | none => exact ⟨r.newRow, Table.row_upsert_none hrow, rfl⟩
    | some o₀ =>
        have ha := hg.1
        simp only [Database.affects, hrow, Option.all_some] at ha
        exact ⟨o₀.finish r, Table.row_upsert_some hrow, by simp [Operation.finish, ha]⟩
  obtain ⟨o₁, ho₁, hf⟩ := hup
  rw [operations_resulted, Database.storeSummary] at ho
  split at ho
  · exact Option.some.inj (ho₁.symm.trans ho) ▸ hf
  · have hsum := Table.row_modify_self.symm.trans ho
    rw [ho₁] at hsum
    exact Option.some.inj hsum ▸ hf

theorem commit (h : EventsOk db) (hok : RowsOk db) (hg : e.Guard db) : EventsOk (e.commit db) := by
  by_cases hp : ∃ p, e = .progressed p
  · obtain ⟨p, rfl⟩ := hp
    by_cases hknown : (db.events.row p.key).isSome
    · exact h.progress_repeated hok hg hknown
    · exact h.progress_first hok hg hknown
  · have hne := not_exists.mp hp
    refine h.kept hok hg (events_kept hne) (fun p hep => absurd hep (hne p)) fun op => ?_
    by_cases hm : e.measures op
    · cases e with
      | progressed p => exact absurd rfl (hne p)
      | resulted r plan =>
          obtain rfl : r.operationID = op := hm
          intro o o' _ ho' hf
          have hfin := finished_resulted hg ho'
          rw [hf] at hfin
          cases hfin
      | _ => exact hm.elim
    · exact keepsOpen_unmeasured hok hg hm

end EventsOk

/-! ## Runs -/

theorem eventsOk_of_reaches (hs : start.Fresh) (hevents : start.events = Table.empty)
    (h : (journal start).Reaches db) : EventsOk db := by
  have hstart : EventsOk start :=
    ⟨by simp [hevents, Table.empty], by simp [hevents, Table.empty], by simp [hs.trail],
      by simp [hevents, Table.empty], by simp [hs.operations]⟩
  exact (keeps_of_reaches (P := fun db => RowsOk db ∧ EventsOk db) h
    (fun _ _ hg hdb => ⟨hdb.1.commit hg, hdb.2.commit hdb.1 hg⟩) ⟨rowsOk_of_fresh hs, hstart⟩).2

theorem counters_finished {db' : Database} {allowed : Entry → Prop} (hok : RowsOk db)
    (h : (journal start).Extends allowed db db') (ho : db.operations.row op = some o)
    (hf : o.finishedAt.isSome) :
    ∃ o', db'.operations.row op = some o' ∧ o'.counters = o.counters := by
  have hkeeps : RowsOk db' ∧ ∃ o', db'.operations.row op = some o' ∧
      o'.finishedAt.isSome ∧ o'.counters = o.counters := by
    refine keeps_of_extends (P := fun db => RowsOk db ∧ ∃ o', db.operations.row op = some o' ∧
      o'.finishedAt.isSome ∧ o'.counters = o.counters) h (fun e db hg hdb => ?_) ⟨hok, o, ho, hf, rfl⟩
    obtain ⟨hok, o₁, ho₁, hf₁, hcount₁⟩ := hdb
    obtain ⟨o₂, ho₂, hcount₂, hnext⟩ := row_unmeasured hok hg (not_measures hg ho₁ hf₁) ho₁
    have hsame : o₂.finishedAt = o₁.finishedAt := congrArg (·.2.1) (hnext.outcome hf₁)
    exact ⟨hok.commit hg, o₂, ho₂, hsame ▸ hf₁, hcount₂.trans hcount₁⟩
  exact hkeeps.2.imp fun _ h => ⟨h.1, h.2.2⟩

/-- The progress reports that the server has taken, in the order of their commits. -/
def Database.received (db : Database) : List Progress :=
  db.trail.filterMap fun
    | .progressed p => some p
    | _ => none

theorem mem_received : p ∈ db.received ↔ .progressed p ∈ db.trail := by
  rw [Database.received, List.mem_filterMap]
  refine ⟨?_, fun h => ⟨_, h, rfl⟩⟩
  rintro ⟨e, he, hp⟩
  cases e with
  | progressed q => exact Option.some.inj hp ▸ he
  | _ => cases hp

/-- Whatever order the reports of an operation arrive in, and however often: while it is unfinished
its counters are those of the report with the highest sequence, no sequence is stored twice, and
nothing changes the counters of a finished operation. -/
theorem progress_counters (hs : start.Fresh) (hevents : start.events = Table.empty)
    (hc : server.Reachable (Tx.State.initial start) c)
    (hcontent : ∀ p ∈ c.state.db.received, ∀ q ∈ c.state.db.received,
      p.key = q.key → p.event.counters = q.event.counters) :
    (∀ p ∈ c.state.db.received,
      (∀ q ∈ c.state.db.received, q.operationID = p.operationID → q.sequence ≤ p.sequence) →
      ∀ o, c.state.db.operations.row p.operationID = some o → o.finishedAt = none →
        o.counters = p.event.counters) ∧
    c.state.db.events.keys.Nodup ∧
    ∀ c' op o, server.Run c c' → c.state.db.operations.row op = some o → o.finishedAt.isSome →
      ∃ o', c'.state.db.operations.row op = some o' ∧ o'.counters = o.counters := by
  have hreach := reaches_of_reachable hs hc
  have hok := eventsOk_of_reaches hs hevents hreach
  refine ⟨fun p hp hmax o ho hf => ?_, hok.nodup, fun c' op o hrun => ?_⟩
  · have hnewest : c.state.db.Newest p.key := by
      refine ⟨hok.received p (mem_received.mp hp), fun k hk hop => ?_⟩
      obtain ⟨q, hq, rfl, -⟩ := hok.stored k hk
      exact hmax q (mem_received.mpr hq) hop
    obtain ⟨q, hq, hkey, hrow⟩ := hok.stored _ hnewest.1
    have hcount := hok.counted _ hnewest o ho hf
    rw [hrow] at hcount
    exact (Option.some.inj hcount).symm.trans (hcontent q (mem_received.mpr hq) p hp hkey)
  · exact counters_finished (rowsOk_of_reaches (rowsOk_of_fresh hs) hreach)
      (extends_of_run hs hc hrun)

def sampleNewer : Progress := { sampleProgress with sequence := 2, filesDone := 7 }

/-- A report that arrives after a newer one, and twice. -/
theorem progress_counters_late :
    ∃ c, server.Reachable (Tx.State.initial sampleStart) c ∧ ∃ o,
      c.state.db.operations.row (sampleID 5) = some o ∧ o.counters = (7, 0, 0, 0) := by
  let calls : List (Call × Stamp) :=
    [(.progress sampleNewer, 20), (.progress sampleProgress, 30), (.progress sampleProgress, 40)]
  obtain ⟨c, hc, hdb⟩ := serve_reachable calls sampleStart
  have hreceived : (serve calls sampleStart).received =
      [sampleNewer, sampleProgress, sampleProgress] := by decide +kernel
  have hrow : ((serve calls sampleStart).operations.row (sampleID 5)).any
      (·.finishedAt.isNone) := by decide +kernel
  rw [← hdb] at hreceived hrow
  obtain ⟨o, ho, hf⟩ := (Option.any_eq_true _ _).mp hrow
  have hcounters := progress_counters sampleStart_fresh rfl hc (by rw [hreceived]; decide)
  exact ⟨c, hc, o, ho, hcounters.1 sampleNewer (by rw [hreceived]; decide)
    (by rw [hreceived]; decide) o ho (Option.isNone_iff_eq_none.mp hf)⟩

end RestFleet.Backup
