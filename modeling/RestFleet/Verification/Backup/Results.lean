import Mathlib.Data.List.Induction
import RestFleet.Verification.Backup.Snapshots

/-! # Results that arrive one after the other

What the server stores when it handles a list of results for one plan, in terms of the list. -/

namespace RestFleet.Backup

variable {db : Database} {r : Result} {t : ℕ} {answers : Tx.Answers schema}

/-! ## Statements of a transaction that runs alone -/

section Statements

variable {α : Type} {s : Tx.Alone schema}

theorem exec_view (f : Database → BackupM α) :
    Tx.exec answers t (Tx.view >>= f) s = Tx.exec answers t (f s.seen) s := rfl

@[simp] theorem exec_write (g : Database → Database) (f : Unit → BackupM α) :
    Tx.exec answers t (Tx.write g >>= f) s = Tx.exec answers t (f ()) ⟨s.db, g s.seen⟩ := rfl

@[simp] theorem exec_lock (k : Key) (f : Bool → BackupM α) :
    Tx.exec answers t (Tx.lock k >>= f) s = Tx.exec answers t (f (present k s.seen)) s := rfl

@[simp] theorem exec_claim (k : Key) (f : Unit → BackupM α) :
    Tx.exec answers t (Tx.claim k >>= f) s = Tx.exec answers t (f ()) s := rfl

theorem exec_clock (f : Stamp → BackupM α) :
    Tx.exec answers t (clock >>= f) s = Tx.exec answers t (f (answers .clock)) s := rfl

@[simp] theorem exec_commit :
    Tx.exec answers t (Tx.commit : BackupM Unit) s = (.ok (), ⟨s.seen, s.seen⟩) := rfl

end Statements

/-! ## One result -/

def Database.accepts (db : Database) (r : Report) : Bool :=
  match db.operations.row r.operationID with
  | none => db.linksValid r
  | some o => o.matchesReport r

theorem exec_lockReportedOperation {r : Report} (h : db.accepts r) (old : Database) :
    Tx.exec answers t (lockReportedOperation r) ⟨old, db⟩ = (.ok (), ⟨old, db⟩) := by
  unfold lockReportedOperation
  unfold Database.accepts at h
  cases hrow : db.operations.row r.operationID with
  | none =>
      simp only [hrow] at h
      simp only [exec_lock, present, hrow, Option.isSome_none, Bool.false_eq_true, if_false]
      rw [exec_view, if_pos h]
      rfl
  | some o =>
      simp only [hrow] at h
      simp only [exec_lock, present, hrow, Option.isSome_some, if_true]
      rw [exec_view]
      simp only [hrow, h, if_true]
      rfl

theorem exec_indexSnapshot (p : Plan) (old : Database) :
    Tx.exec answers t (indexSnapshot r p) ⟨old, db⟩ =
      (.ok (), ⟨old, if r.snapshotID = [] then db else db.upsertSnapshot r p⟩) := by
  unfold indexSnapshot
  split <;> rfl

theorem exec_resulted {p : Plan} (hb : db.boundPlan? r.toReport = some p)
    (hc : db.accepts r.toReport) (ha : db.affects r.toReport) :
    Tx.exec answers t (upsertOperationResult r) ⟨db, db⟩ =
      (.ok (), ⟨(Entry.resulted r p).commit db, (Entry.resulted r p).commit db⟩) := by
  unfold upsertOperationResult
  rw [exec_view]
  simp only [hb]
  rw [Tx.exec_bind, exec_lockReportedOperation hc]
  simp only [exec_claim]
  rw [exec_view, if_pos ha]
  simp only [recordResult, exec_write, exec_lock]
  rw [Tx.exec_bind, exec_indexSnapshot]
  simp only [exec_write, exec_commit]
  rfl

theorem exec_repeated {p : Plan} {o : Operation} (hb : db.boundPlan? r.toReport = some p)
    (hc : db.accepts r.toReport) (ho : db.operations.row r.operationID = some o)
    (ha : db.affects r.toReport = false) :
    Tx.exec answers t (upsertOperationResult r) ⟨db, db⟩ =
      (.ok (), ⟨(Entry.repeated r o).commit db, (Entry.repeated r o).commit db⟩) := by
  unfold upsertOperationResult
  rw [exec_view]
  simp only [hb]
  rw [Tx.exec_bind, exec_lockReportedOperation hc]
  simp only [exec_claim]
  rw [exec_view, if_neg (by simp [ha])]
  unfold repeatResult
  rw [Tx.exec_bind, exec_lockReportedOperation hc]
  simp only
  rw [exec_view]
  simp only [ho, exec_write, exec_commit]
  rfl

theorem solo_handleResult {db' : Database} (hl : reportedOperationLinks r.toReport)
    (hc : r.check = .ok ())
    (h : Tx.exec answers t (upsertOperationResult r) ⟨db, db⟩ = (.ok (), ⟨db', db'⟩)) :
    (Tx.solo answers t (handleResult r) ⟨db, db⟩).2.db = db'.note (.acknowledged r) := by
  unfold handleResult recordOperationResult
  simp only [hl, Bool.not_true, Bool.false_eq_true, if_false, hc]
  rw [Tx.solo_bind, Tx.solo_transaction, h]
  rfl

/-! ## The plan after some results -/

def newer (best : Option Result) (r : Result) : Option Result :=
  match best with
  | none => some r
  | some c => if c.finishedAt < r.finishedAt then some r else some c

def latest (d : List Result) : Option Result := d.foldl newer none

variable {d d' : List Result} {m : Result}

theorem latest_snoc_none (h : latest d = none) (r : Result) : latest (d ++ [r]) = some r := by
  rw [latest, List.foldl_append, ← latest, h]
  rfl

theorem latest_snoc_some {c : Result} (h : latest d = some c) (r : Result) :
    latest (d ++ [r]) = if c.finishedAt < r.finishedAt then some r else some c := by
  rw [latest, List.foldl_append, ← latest, h]
  rfl

theorem latest_spec (d : List Result) :
    d = [] ∧ latest d = none ∨
      ∃ m, latest d = some m ∧ m ∈ d ∧ ∀ r ∈ d, r.finishedAt ≤ m.finishedAt := by
  induction d using List.reverseRecOn with
  | nil => exact Or.inl ⟨rfl, rfl⟩
  | append_singleton d r ih =>
      refine Or.inr ?_
      rcases ih with ⟨rfl, hnone⟩ | ⟨c, hc, hmem, hmax⟩
      · exact ⟨r, latest_snoc_none hnone r, by simp, by simp⟩
      · rw [latest_snoc_some hc]
        split
        · rename_i hlt
          refine ⟨r, rfl, by simp, fun r' hr' => ?_⟩
          rcases List.mem_append.mp hr' with hr' | hr'
          · exact Int.le_trans (hmax r' hr') (Int.le_of_lt hlt)
          · rw [List.mem_singleton.mp hr']
        · rename_i hlt
          refine ⟨c, rfl, by simp [hmem], fun r' hr' => ?_⟩
          rcases List.mem_append.mp hr' with hr' | hr'
          · exact hmax r' hr'
          · rw [List.mem_singleton.mp hr']
            exact Int.not_lt.mp hlt

theorem latest_mem (h : latest d = some m) : m ∈ d := by
  rcases latest_spec d with ⟨-, hnone⟩ | ⟨m', hm', hmem, -⟩
  · rw [h] at hnone
    cases hnone
  · rw [h] at hm'
    cases hm'
    exact hmem

theorem latest_le (h : latest d = some m) : ∀ r ∈ d, r.finishedAt ≤ m.finishedAt := by
  rcases latest_spec d with ⟨-, hnone⟩ | ⟨m', hm', -, hmax⟩
  · rw [h] at hnone
    cases hnone
  · rw [h] at hm'
    cases hm'
    exact hmax

def successes (d : List Result) : List Result := d.filter (·.status.success)

/-- What the columns of a plan say after the results `d`, stored in this order. -/
structure Tally (plan : Plan) (d : List Result) (p : Plan) : Prop where
  hostID : p.hostID = plan.hostID
  status : p.status = plan.status
  lastResult : p.lastResultAt = (latest d).map (·.finishedAt)
  lastOperation : p.lastOperationID = (latest d).map (·.operationID)
  lastSuccess : p.lastSuccessAt = (latest (successes d)).map (·.finishedAt)
  health : ∀ m h, latest d = some m → m.status.health = some h → p.backupHealth = h
  silent : (∀ r ∈ d, r.status.health = none) → p.backupHealth = plan.backupHealth
  blocked : ∀ m rest, d = m :: rest → m.status.health = none →
    (∀ r ∈ rest, r.finishedAt < m.finishedAt) → p.backupHealth = plan.backupHealth

variable {plan p : Plan}

theorem Tally.nil (hop : plan.lastOperationID = none) (hat : plan.lastResultAt = none)
    (hsucc : plan.lastSuccessAt = none) : Tally plan [] plan where
  hostID := rfl
  status := rfl
  lastResult := hat
  lastOperation := hop
  lastSuccess := hsucc
  health := by simp [latest]
  silent := fun _ => rfl
  blocked := by simp

/-- The newest result so far, unless `r` is newer. -/
theorem Tally.snoc_cases (h : Tally plan d p) (hr : ∀ r' ∈ d, r'.finishedAt ≠ r.finishedAt) :
    (p.later r.finishedAt = false ∧ latest (d ++ [r]) = some r ∧
        greatest p.lastResultAt r.finishedAt = r.finishedAt) ∨
      ∃ c, latest d = some c ∧ r.finishedAt < c.finishedAt ∧ p.later r.finishedAt = true ∧
        latest (d ++ [r]) = some c ∧ greatest p.lastResultAt r.finishedAt = c.finishedAt := by
  cases hl : latest d with
  | none =>
      refine Or.inl ⟨?_, latest_snoc_none hl r, ?_⟩ <;> simp [Plan.later, greatest, h.lastResult, hl]
  | some c =>
      have hat : p.lastResultAt = some c.finishedAt := by simp [h.lastResult, hl]
      rcases Int.lt_or_gt_of_ne (hr c (latest_mem hl)) with hlt | hlt
      · refine Or.inl ⟨?_, ?_, ?_⟩
        · simpa [Plan.later, hat] using Int.le_of_lt hlt
        · rw [latest_snoc_some hl, if_pos hlt]
        · simpa [greatest, hat] using Int.le_of_lt hlt
      · refine Or.inr ⟨c, rfl, hlt, ?_, ?_, ?_⟩
        · simpa [Plan.later, hat] using hlt
        · rw [latest_snoc_some hl, if_neg (Int.not_lt.mpr (Int.le_of_lt hlt))]
        · simpa [greatest, hat] using Int.le_of_lt hlt

theorem Tally.lastSuccess_snoc (h : Tally plan d p) :
    (p.record r).lastSuccessAt = (latest (successes (d ++ [r]))).map (·.finishedAt) := by
  have hs := h.lastSuccess
  have hsnoc : successes (d ++ [r]) = successes d ++ if r.status.success then [r] else [] := by
    simp [successes, List.filter_append, List.filter_cons]
  rw [hsnoc]
  simp only [Plan.record]
  by_cases hsucc : r.status.success
  · simp only [hsucc, if_true]
    cases hl : latest (successes d) with
    | none =>
        rw [hl] at hs
        rw [latest_snoc_none hl, hs]
        rfl
    | some c =>
        rw [hl] at hs
        rw [latest_snoc_some hl, hs]
        simp only [greatest, Option.map_some, Option.elim_some]
        split
        · rename_i hlt
          simp [Int.max_eq_right (Int.le_of_lt hlt)]
        · rename_i hlt
          simp [Int.max_eq_left (Int.not_lt.mp hlt)]
  · simpa [hsucc] using hs

theorem Tally.snoc (h : Tally plan d p) (hactive : plan.status = .active)
    (hr : ∀ r' ∈ d, r'.finishedAt ≠ r.finishedAt) : Tally plan (d ++ [r]) (p.record r) := by
  have hnot : p.status ≠ .paused := by simp [h.status, hactive]
  have hhealth : (p.record r).backupHealth = r.status.health.elim p.backupHealth
      fun h => if p.later r.finishedAt then p.backupHealth else h := by
    simp only [Plan.record, if_neg hnot]
    cases r.status.health <;> rfl
  have hrest : (∀ r' ∈ d ++ [r], r'.status.health = none) →
      (p.record r).backupHealth = plan.backupHealth := by
    intro hnone
    rw [hhealth, hnone r (by simp)]
    exact h.silent fun r' hr' => hnone r' (by simp [hr'])
  rcases h.snoc_cases hr with ⟨hlater, hlatest, hgreat⟩ | ⟨c, hc, hlt, hlater, hlatest, hgreat⟩
  · refine ⟨h.hostID, h.status, ?_, ?_, h.lastSuccess_snoc, ?_, hrest, ?_⟩
    · simp [Plan.record, hgreat, hlatest]
    · simp [Plan.record, hlater, hlatest]
    · intro m hm hmax hstatus
      rw [hlatest] at hmax
      cases hmax
      rw [hhealth, hstatus]
      simp [hlater]
    · intro m rest heq hm hblock
      cases d with
      | nil =>
          have hrm : r = m := by simpa using congrArg List.head? heq
          rw [hhealth, hrm, hm]
          exact h.silent (by simp)
      | cons m' rest' =>
          obtain ⟨rfl, rfl⟩ : m' = m ∧ rest' ++ [r] = rest := by simpa using heq
          have hle := latest_le hlatest m' (by simp)
          exact absurd (hblock r (by simp)) (Int.not_lt.mpr hle)
  · have hsame : (p.record r).backupHealth = p.backupHealth := by
      rw [hhealth]
      cases r.status.health <;> simp [hlater]
    refine ⟨h.hostID, h.status, ?_, ?_, h.lastSuccess_snoc, ?_, hrest, ?_⟩
    · simp [Plan.record, hgreat, hlatest]
    · simp [Plan.record, hlater, hlatest, h.lastOperation, hc]
    · intro m hm hmax hstatus
      rw [hlatest] at hmax
      rw [hsame]
      exact h.health m hm (hc.trans hmax) hstatus
    · intro m rest heq hm hblock
      rw [hsame]
      cases d with
      | nil => simp [latest] at hc
      | cons m' rest' =>
          obtain ⟨rfl, rfl⟩ : m' = m ∧ rest' ++ [r] = rest := by simpa using heq
          exact h.blocked m' rest' rfl hm fun r' hr' => hblock r' (by simp [hr'])

/-! ## The rows after some results -/

/-- Results for an active plan that nothing was reported for, each of which the server accepts:
its row does not exist yet and needs no parent, or it exists and is open. -/
structure Reports (db : Database) (plan : Plan) (results : List Result) : Prop where
  stored : db.plans.row plan.id = some plan
  active : plan.status = .active
  health : plan.backupHealth = .neverRun
  lastOperation : plan.lastOperationID = none
  lastResult : plan.lastResultAt = none
  lastSuccess : plan.lastSuccessAt = none
  unfinished : ∀ op o, db.operations.row op = some o → o.planID = plan.id → o.status.final = false
  planID : ∀ r ∈ results, r.planID = plan.id
  checked : ∀ r ∈ results, r.check = .ok () ∧ reportedOperationLinks r.toReport
  bound : ∀ r ∈ results, (db.boundPlan? r.toReport).isSome
  accepted : ∀ r ∈ results, db.accepts r.toReport ∧ db.affects r.toReport
  operations : (results.map (·.operationID)).Nodup
  times : (results.map (·.finishedAt)).Nodup

structure Stores (o : Operation) (r : Result) : Prop where
  status : o.status = r.status
  finished : o.finishedAt = some r.finishedAt
  planID : o.planID = r.planID
  matching : o.matchesReport r.toReport

/-- The database after the results `d`, stored in this order. -/
structure Processed (start : Database) (plan : Plan) (d : List Result) (db : Database) :
    Prop where
  agents : db.agents = start.agents
  plan : ∃ p, db.plans.row plan.id = some p ∧ Tally plan d p
  stored : ∀ r ∈ d, ∃ o, db.operations.row r.operationID = some o ∧ Stores o r
  others : ∀ op, (∀ r ∈ d, r.operationID ≠ op) →
    db.operations.row op = start.operations.row op

variable {start : Database} {results : List Result}

theorem Reports.processed (h : Reports start plan results) : Processed start plan [] start where
  agents := rfl
  plan := ⟨plan, h.stored, .nil h.lastOperation h.lastResult h.lastSuccess⟩
  stored := by simp
  others := fun _ _ => rfl

theorem Processed.bound (h : Processed start plan d db) (hs : start.plans.row plan.id = some plan)
    {r : Report} (hr : r.planID = plan.id) (hb : (start.boundPlan? r).isSome) :
    ∃ p, db.plans.row plan.id = some p ∧ Tally plan d p ∧ db.boundPlan? r = some p := by
  obtain ⟨p, hp, htally⟩ := h.plan
  refine ⟨p, hp, htally, ?_⟩
  simp only [Database.boundPlan?, hr, hs, hp, h.agents] at hb ⊢
  cases ha : start.agents.row r.agentID with
  | none => simp [ha] at hb
  | some a =>
      have hhost : a.hostID = plan.hostID := by simpa [ha] using hb
      simp only
      rw [if_pos (hhost.trans htally.hostID.symm)]

/-- Parents are finished, so that a result accepted before any other has none. -/
theorem Reports.parentless (h : Reports start plan results) (hr : r ∈ results)
    (hn : start.operations.row r.operationID = none) (db : Database) :
    db.linksValid r.toReport := by
  have hacc := (h.accepted r hr).1
  simp only [Database.accepts, hn] at hacc
  unfold Database.linksValid at hacc ⊢
  cases hp : r.parentOperationID with
  | none => simpa [hp] using hacc
  | some parent =>
      simp only [hp, Bool.and_eq_true, Option.any_eq_true] at hacc
      obtain ⟨-, previous, hrow, hchild⟩ := hacc
      simp only [Operation.allowsChild, Bool.and_eq_true, decide_eq_true_eq] at hchild
      have hplan : previous.planID = plan.id := hchild.1.1.1.1.1.1.2.trans (h.planID r hr)
      have hopen := h.unfinished parent previous hrow hplan
      rw [hchild.1.1.1.1.2] at hopen
      cases hopen

theorem newRow_stores (hr : 0 ≤ r.attempt) : Stores r.newRow r where
  status := rfl
  finished := rfl
  planID := rfl
  matching := by
    have hatt : r.attempt = 0 ∨ max r.attempt 1 = r.attempt := by omega
    rcases hatt with h | h <;>
      simp [Operation.matchesReport, Result.newRow, Report.newRow, Report.rowAttempt, h]

theorem finish_stores {o : Operation} (hm : o.matchesReport r.toReport)
    (hu : o.updatable r.toReport) : Stores (o.finish r) r := by
  unfold Operation.finish
  rw [if_pos hu]
  have hplan : o.planID = r.planID := planID_of_updatable hu
  exact ⟨rfl, rfl, hplan, hm⟩

theorem summarize_stores {o : Operation} (h : Stores o r) (s : Summary) :
    Stores (o.summarize s) r :=
  ⟨h.status, h.finished, h.planID, h.matching⟩

theorem operations_resulted (p : Plan) :
    ((Entry.resulted r p).commit db).operations =
      ((db.upsertResult r).storeSummary r).operations := by
  change (db.applyResult r p).operations = _
  unfold Database.applyResult
  simp only
  split <;> rfl

theorem row_storeSummary {o : Operation} (ho : db.operations.row r.operationID = some o)
    (h : Stores o r) :
    ∃ o', (db.storeSummary r).operations.row r.operationID = some o' ∧ Stores o' r := by
  unfold Database.storeSummary
  split
  · exact ⟨o, ho, h⟩
  · rename_i s hs
    refine ⟨o.summarize s, ?_, summarize_stores h s⟩
    rw [Table.row_modify_self, ho]
    rfl

theorem row_resulted (hc : db.accepts r.toReport) (ha : db.affects r.toReport)
    (hr : 0 ≤ r.attempt) (p : Plan) :
    ∃ o, ((Entry.resulted r p).commit db).operations.row r.operationID = some o ∧
      Stores o r := by
  rw [operations_resulted]
  cases hrow : db.operations.row r.operationID with
  | none => exact row_storeSummary (Table.row_upsert_none hrow) (newRow_stores hr)
  | some o =>
      simp only [Database.accepts, Database.affects, hrow, Option.all_some] at hc ha
      exact row_storeSummary (Table.row_upsert_some hrow) (finish_stores hc ha)

theorem row_resulted_ne {op : UUID} (h : r.operationID ≠ op) (p : Plan) :
    ((Entry.resulted r p).commit db).operations.row op = db.operations.row op := by
  have hup : (db.upsertResult r).operations.row op = db.operations.row op :=
    Table.row_upsert_ne h.symm
  rw [operations_resulted]
  unfold Database.storeSummary
  split
  · exact hup
  · exact (Table.row_modify_ne h.symm).trans hup

/-- A result that is stored once more keeps everything. -/
theorem Processed.again (h : Processed start plan d db) (hs : Reports start plan results)
    (hr : r ∈ results) (hd : r ∈ d) :
    Processed start plan d (Tx.solo answers t (handleResult r) ⟨db, db⟩).2.db := by
  obtain ⟨o, ho, hstores⟩ := h.stored r hd
  obtain ⟨p, -, -, hbound⟩ := h.bound hs.stored (hs.planID r hr) (hs.bound r hr)
  have hacc : db.accepts r.toReport := by
    simpa [Database.accepts, ho] using hstores.matching
  have haff : db.affects r.toReport = false := by
    simp [Database.affects, ho, Operation.updatable, hstores.finished]
  obtain ⟨hcheck, hlinks⟩ := hs.checked r hr
  rw [solo_handleResult hlinks hcheck (exec_repeated hbound hacc ho haff)]
  exact ⟨h.agents, h.plan, h.stored, h.others⟩

theorem Processed.next (h : Processed start plan d db) (hs : Reports start plan results)
    (hr : r ∈ results) (hd : r ∉ d) (hsub : ∀ r' ∈ d, r' ∈ results) :
    Processed start plan (d ++ [r]) (Tx.solo answers t (handleResult r) ⟨db, db⟩).2.db := by
  obtain ⟨p, hp, htally, hbound⟩ := h.bound hs.stored (hs.planID r hr) (hs.bound r hr)
  have hop : ∀ r' ∈ d, r'.operationID ≠ r.operationID := fun r' hr' heq =>
    hd (List.inj_on_of_nodup_map hs.operations (hsub r' hr') hr heq ▸ hr')
  have htime : ∀ r' ∈ d, r'.finishedAt ≠ r.finishedAt := fun r' hr' heq =>
    hd (List.inj_on_of_nodup_map hs.times (hsub r' hr') hr heq ▸ hr')
  have hrow := h.others r.operationID hop
  have haff : db.affects r.toReport := by
    rw [Database.affects, hrow]
    exact (hs.accepted r hr).2
  have hacc : db.accepts r.toReport := by
    have hstart := (hs.accepted r hr).1
    rw [Database.accepts, hrow]
    cases hx : start.operations.row r.operationID with
    | none => exact hs.parentless hr hx db
    | some o => simpa [Database.accepts, hx] using hstart
  obtain ⟨hcheck, hlinks⟩ := hs.checked r hr
  rw [solo_handleResult hlinks hcheck (exec_resulted hbound hacc haff)]
  constructor
  case agents =>
    change ((Entry.resulted r p).commit db).agents = _
    rw [commit_agents]
    exact h.agents
  case plan =>
    refine ⟨p.record r, ?_, htally.snoc hs.active htime⟩
    change ((Entry.resulted r p).commit db).plans.row plan.id = _
    rw [commit_plans]
    change (db.plans.modify r.planID _).row plan.id = _
    rw [← hs.planID r hr, Table.row_modify_self, hs.planID r hr, hp]
    rfl
  case stored =>
    intro r' hr'
    rcases List.mem_append.mp hr' with hr' | hr'
    · obtain ⟨o, ho, hstores⟩ := h.stored r' hr'
      exact ⟨o, (row_resulted_ne (hop r' hr').symm p).trans ho, hstores⟩
    · rw [List.mem_singleton.mp hr']
      exact row_resulted hacc haff (attempt_of_links hlinks) p
  case others =>
    intro op hop'
    have hne : r.operationID ≠ op := hop' r (by simp)
    exact (row_resulted_ne hne p).trans (h.others op fun r' hr' => hop' r' (by simp [hr']))

/-! ## Lists of results -/

def Database.process (db : Database) (l : List Result) : Database :=
  serve (l.map fun r => (.result r, 0)) db

/-- The results in the order in which they are stored. -/
def keep (d : List Result) (r : Result) : List Result := if r ∈ d then d else d ++ [r]

theorem Processed.serial (hs : Reports start plan results) (l : List Result)
    (hl : ∀ r ∈ l, r ∈ results) {d : List Result} (hsub : ∀ r ∈ d, r ∈ results)
    (h : Processed start plan d db) (t : ℕ) :
    Processed start plan (l.foldl keep d)
      (Tx.serial t (l.map fun r => (Call.result r).atTime 0) db) := by
  induction l generalizing d db t with
  | nil => exact h
  | cons r rest ih =>
      have hr : r ∈ results := hl r List.mem_cons_self
      have hrest : ∀ r' ∈ rest, r' ∈ results := fun r' hr' => hl r' (List.mem_cons_of_mem r hr')
      rw [List.foldl_cons]
      unfold keep
      by_cases hd : r ∈ d
      · rw [if_pos hd]
        exact ih hrest hsub (h.again hs hr hd) (t + 1)
      · rw [if_neg hd]
        refine ih hrest (fun r' hr' => ?_) (h.next hs hr hd hsub) (t + 1)
        rcases List.mem_append.mp hr' with hr' | hr'
        · exact hsub r' hr'
        · rw [List.mem_singleton.mp hr']
          exact hr

theorem Reports.process (hs : Reports start plan results) (l : List Result)
    (hl : ∀ r ∈ l, r ∈ results) :
    Processed start plan (l.foldl keep []) (start.process l) := by
  have h := Processed.serial hs l hl (by simp) hs.processed 0
  unfold Database.process serve
  rw [List.map_map]
  exact h

end RestFleet.Backup
