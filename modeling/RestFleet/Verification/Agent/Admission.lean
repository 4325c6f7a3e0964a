import RestFleet.Verification.Agent.Calls

/-! # Which reports the server takes -/

namespace RestFleet.Backup

variable {db : Database} {answers : Tx.Answers schema} {t : ℕ}

theorem exec_lockReportedOperation_refused {r : Report} (h : db.accepts r = false)
    (old : Database) :
    Tx.exec answers t (lockReportedOperation r) ⟨old, db⟩ =
      (.error .planBindingInvalid, ⟨old, db⟩) := by
  unfold lockReportedOperation
  unfold Database.accepts at h
  cases hrow : db.operations.row r.operationID with
  | none =>
      simp only [hrow] at h
      simp only [exec_lock, present, hrow, Option.isSome_none, Bool.false_eq_true, if_false]
      rw [exec_view, if_neg (by simp [h])]
      rfl
  | some o =>
      simp only [hrow] at h
      simp only [exec_lock, present, hrow, Option.isSome_some, if_true]
      rw [exec_view]
      simp only [hrow, h, Bool.false_eq_true, if_false]
      rfl

theorem row_of_not_affects {r : Report} (h : db.affects r = false) :
    ∃ o, db.operations.row r.operationID = some o := by
  unfold Database.affects at h
  cases hrow : db.operations.row r.operationID with
  | none => simp [hrow] at h
  | some o => exact ⟨o, rfl⟩

theorem exec_progress_accepted {p : Progress} (hb : (db.boundPlan? p.toReport).isSome)
    (hc : db.accepts p.toReport) :
    (Tx.exec answers t (upsertOperationProgress p) ⟨db, db⟩).1 = .ok () := by
  unfold upsertOperationProgress
  rw [exec_view, if_neg (by simp [Option.isSome_iff_ne_none.mp hb]), Tx.exec_bind,
    exec_lockReportedOperation hc]
  simp only [exec_claim]
  rw [exec_view]
  cases ha : db.affects p.toReport with
  | false =>
      rw [if_pos (by simp), Tx.exec_bind, exec_lockReportedOperation hc]
      rfl
  | true =>
      rw [if_neg (by simp)]
      simp only [exec_write, exec_claim]
      rw [exec_view]
      split <;> rfl

theorem exec_result_accepted {r : Result} (hb : (db.boundPlan? r.toReport).isSome)
    (hc : db.accepts r.toReport) :
    (Tx.exec answers t (upsertOperationResult r) ⟨db, db⟩).1 = .ok () := by
  obtain ⟨p, hp⟩ := Option.isSome_iff_exists.mp hb
  cases ha : db.affects r.toReport with
  | true => rw [exec_resulted hp hc ha]
  | false =>
      obtain ⟨o, ho⟩ := row_of_not_affects ha
      rw [exec_repeated hp hc ho ha]

theorem exec_progress_refused {p : Progress} (hb : (db.boundPlan? p.toReport).isSome)
    (hc : db.accepts p.toReport = false) :
    Tx.exec answers t (upsertOperationProgress p) ⟨db, db⟩ =
      (.error .planBindingInvalid, ⟨db, db⟩) := by
  unfold upsertOperationProgress
  rw [exec_view, if_neg (by simp [Option.isSome_iff_ne_none.mp hb]), Tx.exec_bind,
    exec_lockReportedOperation_refused hc]

theorem exec_result_refused {r : Result} (hb : (db.boundPlan? r.toReport).isSome)
    (hc : db.accepts r.toReport = false) :
    Tx.exec answers t (upsertOperationResult r) ⟨db, db⟩ =
      (.error .planBindingInvalid, ⟨db, db⟩) := by
  obtain ⟨p, hp⟩ := Option.isSome_iff_exists.mp hb
  unfold upsertOperationResult
  rw [exec_view]
  simp only [hp]
  rw [Tx.exec_bind, exec_lockReportedOperation_refused hc]

theorem handle_progress_refused {p : Progress} (hb : (db.boundPlan? p.toReport).isSome)
    (hc : db.accepts p.toReport = false) (now : Stamp) : db.handle (.progress p) now = db := by
  unfold Database.handle
  change (Tx.solo _ 0 (handleProgress p) _).2.db = db
  unfold handleProgress recordOperationProgress
  split
  · rfl
  · rw [Tx.solo_bind]
    cases p.check with
    | error e => rfl
    | ok _ =>
        simp only
        rw [Tx.solo_transaction, exec_progress_refused hb hc]
        rfl

theorem handle_result_refused {r : Result} (hb : (db.boundPlan? r.toReport).isSome)
    (hc : db.accepts r.toReport = false) (now : Stamp) : db.handle (.result r) now = db := by
  unfold Database.handle
  change (Tx.solo _ 0 (handleResult r) _).2.db = db
  unfold handleResult recordOperationResult
  split
  · rfl
  · rw [Tx.solo_bind]
    cases r.check with
    | error e => rfl
    | ok _ =>
        simp only
        rw [Tx.solo_transaction, exec_result_refused hb hc]
        rfl

theorem records_progress {p : Progress} (hk : p.check = .ok ())
    (hb : (db.boundPlan? p.toReport).isSome) :
    db.records (recordOperationProgress p) = db.accepts p.toReport := by
  unfold Database.records recordOperationProgress
  simp only [hk]
  rw [Tx.solo_transaction]
  cases hc : db.accepts p.toReport with
  | true => rw [exec_progress_accepted hb hc]
  | false => rw [exec_progress_refused hb hc]

theorem records_result {r : Result} (hk : r.check = .ok ())
    (hb : (db.boundPlan? r.toReport).isSome) :
    db.records (recordOperationResult r) = db.accepts r.toReport := by
  unfold Database.records recordOperationResult
  simp only [hk]
  rw [Tx.solo_transaction]
  cases hc : db.accepts r.toReport with
  | true => rw [exec_result_accepted hb hc]
  | false => rw [exec_result_refused hb hc]

theorem finished_of_accepted {r : Result} (hl : reportedOperationLinks r.toReport)
    (hk : r.check = .ok ()) (hb : (db.boundPlan? r.toReport).isSome)
    (hc : db.accepts r.toReport) (now : Stamp) :
    ∃ o, (db.handle (.result r) now).operations.row r.operationID = some o ∧
      o.finishedAt.isSome := by
  obtain ⟨p, hp⟩ := Option.isSome_iff_exists.mp hb
  have hatt : 0 ≤ r.attempt := attempt_of_links hl
  cases ha : db.affects r.toReport with
  | true =>
      have hdb : db.handle (.result r) now = ((Entry.resulted r p).commit db).note (.acknowledged r) :=
        solo_handleResult hl hk (exec_resulted hp hc ha)
      obtain ⟨o, ho, hstores⟩ := row_resulted hc ha hatt p
      rw [hdb]
      exact ⟨o, ho, by simp [hstores.finished]⟩
  | false =>
      obtain ⟨o, ho⟩ := row_of_not_affects ha
      have hdb : db.handle (.result r) now = ((Entry.repeated r o).commit db).note (.acknowledged r) :=
        solo_handleResult hl hk (exec_repeated hp hc ho ha)
      have hmatch : o.matchesReport r.toReport := by simpa [Database.accepts, ho] using hc
      rw [hdb]
      exact ⟨o, ho, finished_of_matching hatt ho hmatch (by simp [ha])⟩

end RestFleet.Backup

namespace RestFleet.Agent

open Backup (Database)

def Message.report? : Message → Option Backup.Report
  | .progress p => some p.toReport
  | .result r => some r.toReport
  | .accepted _ | .rejected _ => none

/-- The checks that a message passes or fails whatever the server has stored. -/
def Message.checked : Message → Prop
  | .progress p => p.check = .ok ()
  | .result r => r.check = .ok ()
  | .accepted _ | .rejected _ => True

theorem admits_eq {db : Database} {m : Message} {r : Backup.Report} (hr : m.report? = some r)
    (hk : m.checked) (hl : Backup.reportedOperationLinks r)
    (hb : (db.boundPlan? r).isSome) : admits db m = db.accepts r := by
  cases m with
  | progress p =>
      cases hr
      rw [admits, hl, Bool.true_and]
      exact Backup.records_progress hk hb
  | result p =>
      cases hr
      rw [admits, hl, Bool.true_and]
      exact Backup.records_result hk hb
  | accepted id => cases hr
  | rejected id => cases hr

end RestFleet.Agent
