import RestFleet.Verification.Backup.Results

/-! # Which operations a user may retry

`OperationTerminal` was written for storage operations and does not list the two final statuses of a
slot that never ran. -/

namespace RestFleet.Backup

variable {start db : Database} {op : UUID} {o : Operation} {key : RequestKey}
  {answers : Tx.Answers schema} {t : ℕ}
  {c : Config (Tx.State schema) ℕ (Tx.Op schema) (Tx.Reply schema)}

/-- A request that `lockBackupRequest` lets pass as new: its hashes are set, and no live record has
its key. -/
structure Unanswered (db : Database) (answers : Tx.Answers schema) (key : RequestKey) : Prop where
  hashed : ¬(key.scope = List.replicate 32 0 ∨ key.key = List.replicate 32 0 ∨
    key.body = List.replicate 32 0)
  expired : ∀ r, db.requests.row (key.scope, key.key) = some r → r.expiresAt ≤ answers .clock

theorem exec_lockBackupRequest (h : Unanswered db answers key) :
    Tx.exec answers t (lockBackupRequest key) ⟨db, db⟩ = (.ok none, ⟨db, db⟩) := by
  unfold lockBackupRequest
  rw [if_neg h.hashed, exec_claim, exec_clock, exec_view]
  cases hrow : db.requests.row (key.scope, key.key) with
  | none => rfl
  | some request =>
      change Tx.exec answers t (if request.expiresAt ≤ answers .clock then _ else _) ⟨db, db⟩ = _
      rw [if_pos (h.expired request hrow)]
      rfl

def Database.runs (db : Database) (planID : UUID) : Prop :=
  ∃ p, db.plans.row planID = some p ∧ p.status = .active ∧ p.archived = false

theorem exec_lockPlan {planID : UUID} {p : Plan} (hp : db.plans.row planID = some p)
    (harchived : p.archived = false) :
    Tx.exec answers t (lockPlan planID) ⟨db, db⟩ = (.ok p, ⟨db, db⟩) := by
  unfold lockPlan
  simp only [exec_lock, present, hp, Option.isSome_some, if_true]
  rw [exec_view]
  simp only [hp, harchived, Bool.false_eq_true, if_false]
  rfl

/-- A new row is refused only for its identifier. -/
theorem exec_insertManual :
    (Tx.exec answers t (insertManual o key) ⟨db, db⟩).1 =
      if (db.operations.row o.id).isSome then .error .alreadyExists else .ok o := by
  unfold insertManual
  simp only [exec_claim]
  rw [exec_view]
  split <;> rfl

/-- What the parent's status decides. -/
theorem exec_createManualOperation_retry (h : Unanswered db answers key)
    (ho : db.operations.row op = some o) (hplan : db.runs o.planID) (hattempt : o.attempt < 10000)
    (new : UUID) :
    (Tx.exec answers t (createManualOperation new (.retry op) key) ⟨db, db⟩).1 =
        .error .operationNotTerminal ↔ o.status.operationTerminal = false := by
  obtain ⟨p, hp, hactive, harchived⟩ := hplan
  unfold createManualOperation
  rw [Tx.exec_bind, exec_lockBackupRequest h]
  simp only
  rw [Tx.exec_bind]
  simp only [lineage]
  rw [exec_view]
  simp only [ho]
  cases hterminal : o.status.operationTerminal with
  | false => simp
  | true =>
      simp only [Bool.not_true, Bool.false_eq_true, if_false, if_neg (Int.not_le.mpr hattempt),
        Tx.exec_pure]
      rw [Tx.exec_bind, exec_lockPlan hp harchived]
      simp only [hactive, ne_eq, not_true_eq_false, if_false]
      change (Tx.exec answers t (insertManual _ key) ⟨db, db⟩).1 = _ ↔ _
      rw [exec_insertManual]
      split <;> simp

theorem operationTerminal_eq (s : Status) :
    s.operationTerminal = (s.final && s ≠ .missed && s ≠ .concurrencySkipped) := by
  cases s <;> rfl

/-- A retry is refused as not terminal exactly while its parent is unfinished, if and only if the
parent is neither a missed nor a skipped slot. -/
theorem retry_refusal_iff (hs : start.Fresh) (hc : server.Reachable (Tx.State.initial start) c)
    (ho : c.state.db.operations.row op = some o) (hplan : c.state.db.runs o.planID)
    (hattempt : o.attempt < 10000) (hkey : Unanswered c.state.db answers key) (new : UUID) :
    ((Tx.exec answers t (createManualOperation new (.retry op) key) ⟨c.state.db, c.state.db⟩).1 =
        .error .operationNotTerminal ↔ o.finishedAt = none) ↔
      o.status ≠ .missed ∧ o.status ≠ .concurrencySkipped := by
  have hok : o.Ok :=
    (rowsOk_of_reaches (rowsOk_of_fresh hs) (reaches_of_reachable hs hc) op o ho).1
  have hfinished : o.finishedAt = none ↔ o.status.final = false := by
    rw [← hok, Option.isSome_eq_false_iff, Option.isNone_iff_eq_none]
  rw [exec_createManualOperation_retry hkey ho hplan hattempt, hfinished, operationTerminal_eq]
  cases o.status <;> decide

def sampleMissed : Result :=
  { sampleResult with status := .missed, errorCode := .misfireGraceExceeded, snapshotID := [] }

def sampleAnswers : Tx.Answers schema
  | .clock => 50
  | .skipLocked _ => false

/-- The row of a result, ready for a retry. -/
theorem sample_retry {r : Result}
    (h : ((serve [(.result r, 40)] sampleStart).operations.row (sampleID 5)).any
      (fun o => o.status = r.status && o.finishedAt = some 40 && o.planID = sampleID 1 &&
        o.attempt = 1))
    (hplan : ((serve [(.result r, 40)] sampleStart).plans.row (sampleID 1)).any
      fun p => p.status = .active && !p.archived)
    (hkey : ((serve [(.result r, 40)] sampleStart).requests.row ([1], [1])).isNone) :
    ∃ c, server.Reachable (Tx.State.initial sampleStart) c ∧
      ∃ o, c.state.db.operations.row (sampleID 5) = some o ∧ o.status = r.status ∧
        o.finishedAt = some 40 ∧ c.state.db.runs o.planID ∧ o.attempt < 10000 ∧
        Unanswered c.state.db sampleAnswers (sampleKey 1) := by
  obtain ⟨c, hc, hdb⟩ := serve_reachable [(.result r, 40)] sampleStart
  rw [← hdb] at h hplan hkey
  obtain ⟨o, ho, hfacts⟩ := (Option.any_eq_true _ _).mp h
  obtain ⟨p, hp, hactive⟩ := (Option.any_eq_true _ _).mp hplan
  simp only [Bool.and_eq_true, decide_eq_true_eq, Bool.not_eq_true'] at hfacts hactive
  obtain ⟨⟨⟨hstatus, hfinished⟩, hplanID⟩, hattempt⟩ := hfacts
  refine ⟨c, hc, o, ho, hstatus, hfinished, ⟨p, hplanID ▸ hp, hactive⟩, by omega, ?_, ?_⟩
  · decide
  · intro request hrow
    have hnone : c.state.db.requests.row ([1], [1]) = none := Option.isNone_iff_eq_none.mp hkey
    rw [show ((sampleKey 1).scope, (sampleKey 1).key) = ([1], [1]) from rfl, hnone] at hrow
    cases hrow

/-- A missed slot is finished, but its retry is refused as not terminal. -/
theorem missed_parent_refused :
    ∃ c, server.Reachable (Tx.State.initial sampleStart) c ∧
      ∃ o, c.state.db.operations.row (sampleID 5) = some o ∧ o.status = .missed ∧
        o.finishedAt ≠ none ∧ c.state.db.runs o.planID ∧ o.attempt < 10000 ∧
        (Tx.exec sampleAnswers 0 (createManualOperation (sampleID 6) (.retry (sampleID 5)) (sampleKey 1))
          ⟨c.state.db, c.state.db⟩).1 = .error .operationNotTerminal := by
  obtain ⟨c, hc, o, ho, hstatus, hfinished, hplan, hattempt, hkey⟩ := sample_retry (r := sampleMissed)
    (by decide +kernel) (by decide +kernel) (by decide +kernel)
  refine ⟨c, hc, o, ho, hstatus, by simp [hfinished], hplan, hattempt, ?_⟩
  rw [exec_createManualOperation_retry hkey ho hplan hattempt, hstatus]
  rfl

theorem retry_refusal_iff_succeeded :
    ∃ c, server.Reachable (Tx.State.initial sampleStart) c ∧
      ∃ o, c.state.db.operations.row (sampleID 5) = some o ∧ o.status = .succeeded ∧
        ((Tx.exec sampleAnswers 0
            (createManualOperation (sampleID 6) (.retry (sampleID 5)) (sampleKey 1))
            ⟨c.state.db, c.state.db⟩).1 = .error .operationNotTerminal ↔ o.finishedAt = none) := by
  obtain ⟨c, hc, o, ho, hstatus, -, hplan, hattempt, hkey⟩ := sample_retry (r := sampleResult)
    (by decide +kernel) (by decide +kernel) (by decide +kernel)
  refine ⟨c, hc, o, ho, hstatus, ?_⟩
  rw [retry_refusal_iff sampleStart_fresh hc ho hplan hattempt hkey, hstatus]
  decide

end RestFleet.Backup
