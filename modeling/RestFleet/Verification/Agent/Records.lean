import RestFleet.Verification.Agent.Admission

/-! # Reports, rows and records

What the Agent reports about an operation never changes, apart from how far it got. -/

namespace RestFleet.Backup

variable {op : UUID} {o o' previous : Operation} {r : Report}

structure Report.WellFormed (r : Report) : Prop where
  identified : r.identified
  links : reportedOperationLinks r
  planRevision : 1 ≤ r.planRevision
  scheduledAt : r.scheduledAt ≠ 0

/-- The links of an operation that the server has stored. -/
def Operation.LinksOk (o : Operation) : Prop :=
  match o.parentOperationID, o.rootOperationID with
  | none, none => o.attempt = 1
  | some p, some q => validOperationID p ∧ validOperationID q ∧ 2 ≤ o.attempt ∧ o.attempt ≤ 10000
  | _, _ => False

structure RowOk (op : UUID) (o : Operation) : Prop where
  id : o.id = op
  valid : validOperationID op
  links : o.LinksOk

theorem rowOk_identity : OfIdentity RowOk := by
  intro op o o' hid h
  simp only [Operation.identity, Prod.mk.injEq] at hid
  obtain ⟨hid, -, -, -, hp, hq, ha⟩ := hid
  refine ⟨hid.trans h.id, h.valid, ?_⟩
  have hl := h.links
  unfold Operation.LinksOk at hl ⊢
  rw [hp, hq, ha]
  exact hl

def Operation.FromReport (o : Operation) (r : Report) : Prop :=
  o.identity = (r.operationID, r.agentID, r.planID, r.planRevision, r.parentOperationID,
    r.rootOperationID, r.rowAttempt)

theorem links_none (h : reportedOperationLinks r) (hp : r.parentOperationID = none) :
    r.rootOperationID = none ∧ 0 ≤ r.attempt ∧ r.attempt ≤ 1 := by
  simp only [reportedOperationLinks, hp, Bool.and_eq_true, decide_eq_true_eq] at h
  cases hq : r.rootOperationID with
  | none =>
      simp only [hq, decide_eq_true_eq] at h
      exact ⟨rfl, h.1.1, h.2⟩
  | some q => simp [hq] at h

theorem links_some (h : reportedOperationLinks r) {p : UUID} (hp : r.parentOperationID = some p) :
    ∃ q, r.rootOperationID = some q ∧ validOperationID p ∧ validOperationID q ∧ 2 ≤ r.attempt ∧
      r.attempt ≤ 10000 := by
  simp only [reportedOperationLinks, hp, Bool.and_eq_true, decide_eq_true_eq] at h
  cases hq : r.rootOperationID with
  | none => simp [hq] at h
  | some q =>
      simp only [hq, Bool.and_eq_true, decide_eq_true_eq] at h
      exact ⟨q, rfl, h.2.1.1, h.2.1.2, h.2.2, h.1.2⟩

theorem parent_none (h : reportedOperationLinks r) (ha : r.attempt = 0) :
    r.parentOperationID = none := by
  cases hp : r.parentOperationID with
  | none => rfl
  | some p =>
      obtain ⟨q, -, -, -, h2, -⟩ := links_some h hp
      omega

theorem rowAttempt_eq (h : reportedOperationLinks r) (ha : r.attempt ≠ 0) :
    r.rowAttempt = r.attempt := by
  have := attempt_of_links h
  unfold Report.rowAttempt
  omega

theorem Operation.FromReport.linksOk (h : o.FromReport r) (hl : reportedOperationLinks r) :
    o.LinksOk := by
  simp only [Operation.FromReport, Operation.identity, Prod.mk.injEq] at h
  obtain ⟨-, -, -, -, hp, hq, ha⟩ := h
  unfold Operation.LinksOk
  rw [hp, hq, ha]
  cases hparent : r.parentOperationID with
  | none =>
      obtain ⟨hroot, h0, h1⟩ := links_none hl hparent
      rw [hroot]
      change max r.attempt 1 = 1
      omega
  | some p =>
      obtain ⟨q, hroot, hvp, hvq, h2, hle⟩ := links_some hl hparent
      rw [hroot, rowAttempt_eq hl (by omega)]
      exact ⟨hvp, hvq, h2, hle⟩

theorem Operation.FromReport.matches (h : o.FromReport r) (hl : reportedOperationLinks r) :
    o.matchesReport r := by
  simp only [Operation.FromReport, Operation.identity, Prod.mk.injEq] at h
  obtain ⟨-, hagent, hplan, hrev, hp, hq, ha⟩ := h
  simp only [Operation.matchesReport, hagent, hplan, hrev, hp, hq, ha]
  by_cases h0 : r.attempt = 0
  · simp [h0]
  · simp [rowAttempt_eq hl h0]

theorem Progress.fromReport (p : Progress) : p.newRow.FromReport p.toReport := rfl

theorem Result.fromReport (r : Result) : r.newRow.FromReport r.toReport := rfl

theorem rowOk_report (h : o.FromReport r) (hid : r.identified) (hl : reportedOperationLinks r) :
    RowOk r.operationID o := by
  simp only [Report.identified, Bool.and_eq_true] at hid
  exact ⟨congrArg (·.1) h, hid.1.1, h.linksOk hl⟩

theorem identified_of_progress {p : Progress} (h : p.check = .ok ()) : p.toReport.identified := by
  unfold Progress.check at h
  split at h
  · cases h
  · rename_i hid
    simpa using hid

theorem identified_of_result {r : Result} (h : r.check = .ok ()) : r.toReport.identified := by
  unfold Result.check at h
  split at h
  · cases h
  · rename_i hid
    simpa using hid

theorem matchesReport_identity (hid : o'.identity = o.identity) :
    o'.matchesReport r = o.matchesReport r := by
  simp only [Operation.identity, Prod.mk.injEq] at hid
  obtain ⟨-, hagent, hplan, hrev, hp, hq, ha⟩ := hid
  simp only [Operation.matchesReport, hagent, hplan, hrev, hp, hq, ha]

/-! ## Manual operations -/

theorem LinksOk.attempt (h : previous.LinksOk) : 1 ≤ previous.attempt := by
  unfold Operation.LinksOk at h
  split at h
  · omega
  · omega
  · exact h.elim

theorem LinksOk.root (h : previous.LinksOk) {q : UUID} (hq : previous.rootOperationID = some q) :
    validOperationID q := by
  unfold Operation.LinksOk at h
  rw [hq] at h
  split at h
  · simp_all
  · rename_i hroot
    cases hroot
    exact h.2.1
  · exact h.elim

theorem Target.Gives.mono {N N' : UUID → Operation → Prop} {target : Target} {l : Lineage}
    (h : target.Gives N l) (hN : ∀ op o, N op o → N' op o) : target.Gives N' l := by
  cases target with
  | plan id => exact h
  | retry id =>
      obtain ⟨previous, hp, hrest⟩ := h
      exact ⟨previous, hN id previous hp, hrest⟩

theorem manualRow_ok {target : Target} {l : Lineage} {p : Plan} {now : Stamp}
    (hop : validOperationID op) (hl : target.Gives RowOk l) :
    RowOk op (manualRow op l p now) := by
  refine ⟨rfl, hop, ?_⟩
  cases target with
  | plan id =>
      cases hl
      rfl
  | retry id =>
      obtain ⟨previous, hok, hlt, rfl⟩ := hl
      have h1 := LinksOk.attempt hok.links
      refine ⟨hok.valid, ?_, by simp only [manualRow]; omega, by simp only [manualRow]; omega⟩
      cases hq : previous.rootOperationID with
      | none =>
          rw [Option.getD_none, hok.id]
          exact hok.valid
      | some q => exact LinksOk.root hok.links hq

end RestFleet.Backup

namespace RestFleet.Agent

open Backup (Stamp)

variable {r : OperationRecord} {agentID : UUID}

/-- What a record has been filled in with. -/
structure OperationRecord.Filled (r : OperationRecord) : Prop where
  status : r.status = .running ∨ r.status.final
  finishedAt : r.status.final → r.finishedAt ≠ 0
  counters : 0 ≤ r.filesDone ∧ 0 ≤ r.totalFiles ∧ 0 ≤ r.bytesDone ∧ 0 ≤ r.totalBytes
  errorCode : r.errorCode.valid
  exitCode : -1 ≤ r.exitCode ∧ r.exitCode ≤ 255
  parsed : parsed r.filesNew r.dataAdded r.snapshotID r.summary

theorem filled_of_blank (hs : r.status = .running ∨ r.status.final)
    (hf : r.status.final → r.finishedAt ≠ 0) (hc : r.errorCode.valid)
    (hb : (r.exitCode, r.filesDone, r.totalFiles, r.bytesDone, r.totalBytes, r.filesNew,
      r.dataAdded, r.snapshotID, r.summary) = (0, 0, 0, 0, 0, 0, 0, [], none)) : r.Filled := by
  simp only [Prod.mk.injEq] at hb
  obtain ⟨hexit, hfd, htf, hbd, htb, hnew, hadded, hsnap, hsum⟩ := hb
  refine ⟨hs, hf, ?_, hc, ?_, ?_⟩
  · simp [hfd, htf, hbd, htb]
  · simp [hexit]
  · simp [Agent.parsed, hnew, hadded, hsnap, hsum]

theorem slotRecord_filled (p : PlanSchedule) (id : UUID) (scheduled : Stamp) {now : Stamp}
    (hnow : 0 < now) (slot : State.Slot) : (State.slotRecord p id scheduled now slot).Filled := by
  have hne : now ≠ 0 := Int.ne_of_gt hnow
  cases slot with
  | missed => exact filled_of_blank (Or.inr rfl) (fun _ => hne) rfl rfl
  | skipped => exact filled_of_blank (Or.inr rfl) (fun _ => hne) rfl rfl
  | run => exact filled_of_blank (Or.inl rfl) nofun rfl rfl

theorem finish_filled {o : OperationOutcome} (ho : o.valid) {now : Stamp} (hnow : 0 < now) :
    (r.finish o now).Filled := by
  simp only [OperationOutcome.valid, Bool.and_eq_true, decide_eq_true_eq] at ho
  obtain ⟨⟨⟨⟨⟨⟨⟨⟨hs, hc⟩, hlo⟩, hhi⟩, hfd⟩, htf⟩, hbd⟩, htb⟩, hparsed⟩ := ho
  refine ⟨Or.inr ?_, fun _ => Int.ne_of_gt hnow, ⟨hfd, htf, hbd, htb⟩, hc, ⟨hlo, hhi⟩, hparsed⟩
  simp only [List.mem_cons, List.not_mem_nil, or_false] at hs
  rcases hs with h | h | h | h <;> rw [OperationRecord.finish, h] <;> rfl

theorem closeRetry_filled (h : r.Filled) {code : Backup.ErrorCode} (hc : code.valid) {now : Stamp}
    (hnow : 0 < now) : (State.closeRetry r code now).Filled :=
  ⟨Or.inr rfl, fun _ => Int.ne_of_gt hnow, h.counters, hc, h.exitCode, h.parsed⟩

theorem apply_filled (h : r.Filled) {c : State.Counters} (hc : c.valid) : (c.apply r).Filled := by
  unfold State.Counters.apply
  split
  · exact h
  · simp only [State.Counters.valid, Agent.parsed, Bool.and_eq_true, decide_eq_true_eq] at hc
    obtain ⟨⟨⟨⟨hfd, htf⟩, hbd⟩, htb⟩, ⟨⟨hnew, hadded⟩, hsnap⟩, hsum⟩ := hc
    refine ⟨h.status, h.finishedAt, ⟨hfd, htf, hbd, htb⟩, h.errorCode, h.exitCode, ?_⟩
    have hold := h.parsed
    simp only [Agent.parsed, Bool.and_eq_true, decide_eq_true_eq] at hold ⊢
    refine ⟨⟨⟨hnew, hadded⟩, ?_⟩, hsum⟩
    split
    · exact hold.1.2
    · exact hsnap

theorem recover_filled (h : r.Filled) {now : Stamp} (hnow : 0 < now) :
    (State.recover now r).Filled := by
  unfold State.recover
  split
  · exact ⟨Or.inr rfl, fun _ => Int.ne_of_gt hnow, h.counters, rfl, h.exitCode, h.parsed⟩
  · exact h

theorem result_check (hw : (r.report agentID).WellFormed) (hf : r.Filled)
    (hfinal : r.status.final) : (r.result agentID).check = .ok () := by
  have hp := hf.parsed
  simp only [Agent.parsed, Bool.and_eq_true, decide_eq_true_eq, Bool.or_eq_true] at hp
  obtain ⟨⟨⟨hnew, hadded⟩, hsnap⟩, hsum⟩ := hp
  have hrev := hw.planRevision
  have hsched := hw.scheduledAt
  have hexit := hf.exitCode
  have hfin := hf.finishedAt hfinal
  have hid : (r.result agentID).toReport.identified = true := hw.identified
  have hstatus : (r.result agentID).status.final = true := hfinal
  unfold Backup.Result.check
  rw [if_neg (by simp [hid]), if_neg, if_neg, if_neg, if_neg (by simp [hstatus])]
  · cases hs : r.summary with
    | none => simp [OperationRecord.result, hs]
    | some s =>
        simp only [hs, Option.all_some, Bool.and_eq_true, decide_eq_true_eq] at hsum
        simp [OperationRecord.result, hs, hsum]
  · rintro ⟨hne, hv⟩
    rcases hsnap with h | h
    · exact hne h
    · exact hv h
  · rintro (h | h | h | h | h | h | h | h)
    · exact absurd h (Int.not_lt.mpr hrev)
    · exact hsched h
    · exact hfin h
    · exact absurd h (Int.not_lt.mpr hnew)
    · exact absurd h (Int.not_lt.mpr hadded)
    · exact absurd h (Int.not_lt.mpr hexit.1)
    · exact absurd h (Int.not_lt.mpr hexit.2)
    · exact h hf.errorCode

theorem progress_check (hw : (r.report agentID).WellFormed) (hf : r.Filled) {now : Stamp}
    {sequence : ℕ} (hnow : now ≠ 0) (hpos : 0 < sequence) (hlt : sequence < 2 ^ 63) :
    (r.progress agentID now sequence).check = .ok () := by
  have hid : (r.progress agentID now sequence).toReport.identified = true := hw.identified
  unfold Backup.Progress.check
  rw [if_neg (by simp [hid]), if_neg]
  rintro (h | h | h | h | h | h | h | h | h | h)
  · exact absurd h (Int.not_lt.mpr hw.planRevision)
  · exact absurd h (Nat.ne_of_gt hpos)
  · exact absurd h (Nat.not_le.mpr hlt)
  · exact h rfl
  · exact hw.scheduledAt h
  · exact hnow h
  · exact absurd h (Int.not_lt.mpr hf.counters.1)
  · exact absurd h (Int.not_lt.mpr hf.counters.2.1)
  · exact absurd h (Int.not_lt.mpr hf.counters.2.2.1)
  · exact absurd h (Int.not_lt.mpr hf.counters.2.2.2)

end RestFleet.Agent
