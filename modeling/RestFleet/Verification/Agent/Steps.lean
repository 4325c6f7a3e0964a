import RestFleet.Verification.Agent.Invariant

/-! # Every event keeps the invariant -/

namespace RestFleet.Agent.World

open Backup (Stamp Database Call Report Operation RowOk)

variable {start : Database} {w w' : World} {a : State} {ms : List Message}

theorem act_nil (w : World) (a : State) : w.act (a, []) = { w with agent := a } := by
  rw [World.act, List.append_nil]

/-! ## Changes of the Agent -/

theorem grows_act (h : ∀ id r, w.about id = some r → a.about w.agentID id = some r) :
    Grows w (w.act (a, ms)) where
  agentID := rfl
  about := h
  rows := .refl _
  bound _ _ hb := hb
  plain _ _ _ hp := hp

/-- The Agent changes records that it has, and sends. -/
theorem Inv.rewrite (h : Inv start w) (g : UUID → OperationRecord → OperationRecord)
    (hrow : ∀ id, a.records.row id = (w.agent.records.row id).map (g id))
    (hg : ∀ id r, w.agent.records.row id = some r →
      (g id r).report w.agentID = r.report w.agentID ∧ (g id r).Filled ∧
        ((g id r).uploaded → w.Finished id))
    (hplans : ∀ p ∈ a.plans, w.PlanOk p) (hworkers : ∀ x ∈ a.workers, w.WorkerOk x)
    (hsent : ∀ m ∈ ms, ∀ r, m.report? = some r → w.SentOk m r) : Inv start (w.act (a, ms)) := by
  have hgrows : Grows w (w.act (a, ms)) := by
    refine grows_act fun id rep hrep => ?_
    obtain ⟨r, hr, rfl⟩ := Option.map_eq_some_iff.mp hrep
    rw [State.about, hrow, hr, Option.map_some, Option.map_some, (hg id r hr).1]
  refine ⟨h.agentID, h.served, h.rows, fun p hp => hgrows.planOk (hplans p hp), fun id r' hr' => ?_,
    fun x hx => hgrows.workerOk (hworkers x hx), h.acks, h.jobs, fun m hm r hr => ?_⟩
  · replace hr' : (w.agent.records.row id).map (g id) = some r' := (hrow id).symm.trans hr'
    obtain ⟨r, hr, rfl⟩ := Option.map_eq_some_iff.mp hr'
    obtain ⟨hrep, hfilled, hup⟩ := hg id r hr
    have hold := h.records id r hr
    have hkey : (g id r).id = r.id := congrArg (·.operationID) hrep
    refine ⟨hkey.trans hold.key, hfilled, hup, ?_⟩
    change (w.act (a, ms)).Known ((g id r).report w.agentID)
    rw [hrep]
    exact ⟨hold.known.wellFormed, hold.known.bound, hold.known.matched,
      hgrows.origin hold.known.origin⟩
  · rcases List.mem_append.mp hm with hold | hnew
    · exact hgrows.sentOk (h.sent m hold r hr)
    · exact hgrows.sentOk (hsent m hnew r hr)

theorem row_putOperation (s : State) (r : OperationRecord) (id : UUID) :
    (s.putOperation r).records.row id = if id = r.id then some r else s.records.row id := by
  by_cases hid : id = r.id
  · subst hid
    rw [if_pos rfl]
    change (s.records.upsert r.id r fun _ => r).row r.id = some r
    cases hrow : s.records.row r.id with
    | none => exact Table.row_upsert_none hrow
    | some x => exact Table.row_upsert_some hrow
  · rw [if_neg hid]
    exact Table.row_upsert_ne hid

theorem about_putOperation (s : State) (r : OperationRecord) (agentID id : UUID) :
    (s.putOperation r).about agentID id =
      if id = r.id then some (r.report agentID) else s.about agentID id := by
  rw [State.about, row_putOperation]
  split <;> rfl

theorem Inv.put (h : Inv start w) {r : OperationRecord} {s : State}
    (hknown : w.Known (r.report w.agentID)) (hfilled : r.Filled) (hup : r.uploaded = false)
    (habout : ∀ rep, w.about r.id = some rep → rep = r.report w.agentID)
    (hrecords : s.records = w.agent.records) (hplans : s.plans = w.agent.plans)
    (hworkers : ∀ x ∈ s.workers, x ∈ w.agent.workers ∨ x.record = r ∧
      (∀ q, x.plan.retryPolicy = some q → q.validate) ∧ w.Plain (r.report w.agentID))
    (hsent : ∀ m ∈ ms, ∀ rep, m.report? = some rep →
      rep = r.report w.agentID ∧ m.checked ∧ r.parentOperationID = none) :
    Inv start (w.act (s.putOperation r, ms)) := by
  have hself : (s.putOperation r).about w.agentID r.id = some (r.report w.agentID) := by
    rw [about_putOperation, if_pos rfl]
  have hgrows : Grows w (w.act (s.putOperation r, ms)) := by
    refine grows_act fun id rep hrep => ?_
    by_cases hid : id = r.id
    · subst hid
      rw [hself, habout rep hrep]
    · rw [about_putOperation, if_neg hid, State.about, hrecords]
      exact hrep
  refine ⟨h.agentID, h.served, h.rows, fun p hp => ?_, fun id r' hr' => ?_, fun x hx => ?_, h.acks,
    h.jobs, fun m hm rep hrep => ?_⟩
  · exact hgrows.planOk (h.plans p (hplans ▸ hp))
  · replace hr' : (s.putOperation r).records.row id = some r' := hr'
    rw [row_putOperation, hrecords] at hr'
    split at hr'
    · rename_i hid
      cases hr'
      refine ⟨hid.symm, hfilled, by simp [hup], hknown.wellFormed, hknown.bound, hknown.matched,
        hgrows.origin hknown.origin⟩
    · have hold := h.records id r' hr'
      exact ⟨hold.key, hold.filled, hold.uploaded, hold.known.wellFormed, hold.known.bound,
        hold.known.matched, hgrows.origin hold.known.origin⟩
  · rcases hworkers x hx with hold | ⟨rfl, hpolicy, hplain⟩
    · exact hgrows.workerOk (h.workers x hold)
    · exact ⟨hself, hfilled, hup, hpolicy, hplain⟩
  · rcases List.mem_append.mp hm with hold | hnew
    · exact hgrows.sentOk (h.sent m hold rep hrep)
    · obtain ⟨rfl, hcheck, hparent⟩ := hsent m hnew rep hrep
      refine ⟨hself, hcheck, Or.inr fun p hp => ?_⟩
      have hnone : (r.report w.agentID).parentOperationID = none := hparent
      rw [hnone] at hp
      cases hp

theorem Inv.same (h : Inv start w) (hrecords : a.records = w.agent.records)
    (hplans : ∀ p ∈ a.plans, w.PlanOk p) (hworkers : ∀ x ∈ a.workers, w.WorkerOk x)
    (hsent : ∀ m ∈ ms, ∀ r, m.report? = some r → w.SentOk m r) : Inv start (w.act (a, ms)) := by
  refine h.rewrite (fun _ r => r) (fun id => ?_) (fun id r hr => ?_) hplans hworkers hsent
  · rw [hrecords, Option.map_id']
  · exact ⟨rfl, (h.records id r hr).filled, (h.records id r hr).uploaded⟩

/-! ## Plans and their slots -/

theorem planOk_of_sendable {p : PlanSchedule} (h : w.sendable p) : w.PlanOk p := by
  simp only [sendable, Bool.and_eq_true, decide_eq_true_eq] at h
  obtain ⟨⟨⟨hid, hrev⟩, hpolicy⟩, hhost⟩ := h
  refine ⟨hid, hrev, fun q hq => by simpa [hq] using hpolicy, ?_⟩
  cases hp : w.server.plans.row p.planID with
  | none => simp [hp] at hhost
  | some plan =>
      cases ha : w.server.agents.row w.agentID with
      | none => simp [hp, ha] at hhost
      | some x => exact ⟨plan, x, hp, ha, by simpa [hp, ha] using hhost⟩

/-- What is known of an identifier that is used nowhere. -/
structure Unused (w : World) (id : UUID) : Prop where
  valid : Backup.validOperationID id
  about : w.about id = none
  row : w.server.operations.row id = none
  root : ∀ k r, w.about k = some r → r.rootOperationID ≠ some id

theorem unused_of_fresh {id : UUID} (h : w.fresh id) : w.Unused id := by
  simp only [fresh, Bool.and_eq_true, Option.isNone_iff_eq_none, List.all_eq_true] at h
  obtain ⟨⟨⟨hvalid, hrec⟩, hrow⟩, hroot⟩ := h
  refine ⟨hvalid, about_none (by simp [hrec]), hrow, fun k r hr => ?_⟩
  obtain ⟨x, hx, rfl⟩ := Option.map_eq_some_iff.mp hr
  exact of_decide_eq_true (hroot x (Table.mem_rows.mpr ⟨k, hx⟩))

theorem Unused.plain {r : Report} (h : w.Unused r.operationID) : w.Plain r := by
  intro _ o ho
  rw [h.row] at ho
  cases ho

theorem known_new {r : Report} (h : w.Unused r.operationID) (hw : r.WellFormed)
    (hb : w.server.Bound r.planID r.agentID)
    (ho : r.parentOperationID = none ∨ w.Retries r) : w.Known r := by
  refine ⟨hw, hb, fun o hrow => ?_, ho.imp_right Or.inr⟩
  rw [h.row] at hrow
  cases hrow

theorem slotRecord_report (p : PlanSchedule) (id : UUID) (scheduled now : Stamp)
    (slot : State.Slot) (agentID : UUID) :
    (State.slotRecord p id scheduled now slot).report agentID =
      ⟨id, p.planID, agentID, p.revision, scheduled, none, none, 0⟩ := by
  cases slot <;> rfl

theorem slotRecord_key (p : PlanSchedule) (id : UUID) (scheduled now : Stamp)
    (slot : State.Slot) : (State.slotRecord p id scheduled now slot).id = id := by
  cases slot <;> rfl

theorem Inv.advance (h : Inv start w) {p : PlanSchedule} (hp : p ∈ w.agent.plans) {id : UUID}
    {scheduled now : Stamp} (hscheduled : scheduled ≠ 0) (hnow : 0 < now)
    (hid : w.fresh id ∨ (w.agent.records.row id).isSome) (next : Option Stamp)
    (slot : State.Slot) :
    Inv start { w with agent := w.agent.advancePlan p id scheduled now next slot } := by
  rw [← act_nil]
  unfold State.advancePlan
  simp only
  split
  · exact h.same rfl h.plans h.workers (by simp)
  · rename_i hnone
    have hfresh := unused_of_fresh (hid.resolve_right hnone)
    have hok := h.plans p hp
    have hrep := slotRecord_report p id scheduled now slot w.agentID
    have hkey := slotRecord_key p id scheduled now slot
    have hknown : w.Known ((State.slotRecord p id scheduled now slot).report w.agentID) := by
      rw [hrep]
      refine known_new hfresh ⟨?_, rfl, hok.revision, hscheduled⟩ hok.bound (Or.inl rfl)
      simp [Report.identified, hfresh.valid, hok.planID, h.agentID]
    have hplain : w.Plain ((State.slotRecord p id scheduled now slot).report w.agentID) := by
      rw [hrep]
      exact Unused.plain hfresh
    have hnew : ∀ rep, w.about (State.slotRecord p id scheduled now slot).id = some rep →
        rep = (State.slotRecord p id scheduled now slot).report w.agentID := by
      intro rep hrep
      rw [hkey, hfresh.about] at hrep
      cases hrep
    have hup : (State.slotRecord p id scheduled now slot).uploaded = false := by cases slot <;> rfl
    have hfilled := slotRecord_filled p id scheduled hnow slot
    let moved : State := { w.agent with nextRunAt := Function.update w.agent.nextRunAt p.planID next }
    cases slot with
    | missed =>
        exact h.put (s := moved) hknown hfilled hup hnew rfl rfl (fun x hx => Or.inl hx) (by simp)
    | skipped =>
        exact h.put (s := moved) hknown hfilled hup hnew rfl rfl (fun x hx => Or.inl hx) (by simp)
    | run =>
        let x : Worker :=
          ⟨State.slotRecord p id scheduled now .run, p, State.slotDeadline scheduled now, false⟩
        have hworkers : ∀ y ∈ w.agent.workers ++ [x], y ∈ w.agent.workers ∨ y.record = x.record ∧
            (∀ q, y.plan.retryPolicy = some q → q.validate) ∧ w.Plain (x.record.report w.agentID) := by
          intro y hy
          rcases List.mem_append.mp hy with hold | hlast
          · exact Or.inl hold
          · rw [List.mem_singleton.mp hlast]
            exact Or.inr ⟨rfl, hok.policy, hplain⟩
        exact h.put (s := { moved with workers := w.agent.workers ++ [x] }) hknown hfilled hup hnew
          rfl rfl hworkers (by simp)

/-! ## Workers -/

theorem backoff_nonneg {q : RetryPolicy} (hq : q.validate) (attempt : ℤ) : 0 ≤ q.backoff attempt := by
  simp only [RetryPolicy.validate, Bool.and_eq_true, decide_eq_true_eq] at hq
  have hdouble : ∀ (maximum : ℤ) (n : ℕ) (seconds : ℤ), 0 ≤ seconds →
      0 ≤ RetryPolicy.double maximum n seconds := by
    intro maximum n
    induction n with
    | zero => exact fun _ h => h
    | succ n ih =>
        intro seconds h
        unfold RetryPolicy.double
        split
        · exact ih _ (by omega)
        · exact h
  have hinitial : 0 ≤ (if q.initialBackoffSeconds = 0 then 60 else q.initialBackoffSeconds) := by
    split <;> omega
  have hmaximum : 0 ≤ (if q.maxBackoffSeconds = 0 then 1800 else q.maxBackoffSeconds) := by
    split <;> omega
  exact le_min (hdouble _ _ _ hinitial) hmaximum

/-- The retry of a failed record. -/
structure Retry (r : OperationRecord) (newID : UUID) (next : OperationRecord) : Prop where
  id : next.id = newID
  planID : next.planID = r.planID
  planRevision : next.planRevision = r.planRevision
  scheduledAt : next.scheduledAt ≠ 0
  parent : next.parentOperationID = some r.id
  root : next.rootOperationID = some (r.rootOperationID.getD r.id)
  attempt : next.attempt = (if r.attempt = 0 then 1 else r.attempt) + 1
  le : next.attempt ≤ 10
  filled : next.Filled
  uploaded : next.uploaded = false

theorem retry_spec {s : State} {p : PlanSchedule} {r next : OperationRecord}
    {deadline now : Stamp} {allowRetry : Bool} {newID : UUID} (hnow : 0 < now)
    (hpolicy : ∀ q, p.retryPolicy = some q → q.validate)
    (h : s.retry p r deadline allowRetry now newID = some next) : Retry r newID next := by
  unfold State.retry at h
  split at h
  · cases h
  · split at h
    · cases h
    · rename_i q hq
      simp only at h
      generalize hatt : (if r.attempt = 0 then 1 else r.attempt) = attempt at h
      split at h
      · cases h
      · rename_i hattempts
        split at h
        · cases h
        · split at h
          · cases h
          · have hvalid := hpolicy q hq
            have hback := backoff_nonneg hvalid attempt
            simp only [RetryPolicy.validate, Bool.and_eq_true, decide_eq_true_eq] at hvalid
            have hle : q.attempts ≤ 10 := by
              unfold RetryPolicy.attempts
              split <;> omega
            obtain rfl := Option.some.inj h
            refine ⟨rfl, rfl, rfl, ?_, rfl, rfl, by rw [hatt], ?_,
              filled_of_blank (Or.inl rfl) nofun rfl rfl, rfl⟩
            · refine Int.ne_of_gt (Int.add_pos_of_pos_of_nonneg hnow (Int.mul_nonneg hback ?_))
              decide
            · exact Int.le_trans (Int.add_one_le_of_lt (Int.not_le.mp hattempts)) hle

theorem Retry.follows {r next : OperationRecord} {newID agentID : UUID} (h : Retry r newID next)
    (hr : Backup.reportedOperationLinks (r.report agentID)) (hid : r.id ≠ newID)
    (hroot : r.rootOperationID ≠ some newID) : Follows (next.report agentID) (r.report agentID) := by
  have hatt : 0 ≤ r.attempt := Backup.attempt_of_links hr
  refine ⟨h.planID, h.planRevision, ?_, h.le, h.root, fun heq => hid (heq.trans h.id), fun heq => ?_⟩
  · change next.attempt = max r.attempt 1 + 1
    rw [h.attempt]
    split <;> omega
  · replace heq : next.rootOperationID = some next.id := heq
    rw [h.root, h.id] at heq
    cases hq : r.rootOperationID with
    | none =>
        rw [hq] at heq
        exact hid (Option.some.inj heq)
    | some q =>
        rw [hq] at heq
        exact hroot (hq.trans heq)

theorem Retry.wellFormed {r next : OperationRecord} {newID agentID : UUID} (h : Retry r newID next)
    (hr : (r.report agentID).WellFormed) (hid : Backup.validOperationID newID) :
    (next.report agentID).WellFormed := by
  have hident := hr.identified
  simp only [Report.identified, Bool.and_eq_true] at hident
  have hatt : 0 ≤ r.attempt := Backup.attempt_of_links hr.links
  have hroot : Backup.validOperationID (r.rootOperationID.getD r.id) := by
    cases hp : r.parentOperationID with
    | none =>
        have hnone : r.rootOperationID = none := (Backup.links_none hr.links hp).1
        rw [hnone]
        exact hident.1.1
    | some p =>
        obtain ⟨q, hq, -, hvalid, -⟩ := Backup.links_some hr.links hp
        replace hq : r.rootOperationID = some q := hq
        rw [hq]
        exact hvalid
  have h2 : 2 ≤ next.attempt := by
    rw [h.attempt]
    split <;> omega
  have hle := h.le
  refine ⟨?_, ?_, ?_, h.scheduledAt⟩
  · simp only [Report.identified, OperationRecord.report, h.id, h.planID, Bool.and_eq_true]
    exact ⟨⟨hid, hident.1.2⟩, hident.2⟩
  · have hparent : Backup.validOperationID r.id := hident.1.1
    simp only [Backup.reportedOperationLinks, OperationRecord.report, h.parent, h.root, hparent,
      hroot, Bool.and_eq_true, decide_eq_true_eq, Bool.true_and]
    exact ⟨⟨by omega, by omega⟩, h2⟩
  · have hrev := hr.planRevision
    change 1 ≤ next.planRevision
    rw [h.planRevision]
    exact hrev

/-- The worker of a failed operation stores the retry, and waits. -/
theorem Inv.retried (h : Inv start w) {r next : OperationRecord} {p : PlanSchedule} {newID : UUID}
    (hr : w.about r.id = some (r.report w.agentID)) (hplain : w.Plain (r.report w.agentID))
    (hid : w.Unused newID) (hnext : Retry r newID next)
    (hpolicy : ∀ q, p.retryPolicy = some q → q.validate) (deadline : Stamp) :
    Inv start (w.act (State.putOperation
      { w.agent with workers := w.agent.workers ++ [⟨next, p, deadline, true⟩] } next, [])) := by
  obtain ⟨-, -, hknown⟩ := h.about hr
  have hne : r.id ≠ newID := by
    intro heq
    rw [heq, hid.about] at hr
    cases hr
  have hfollows : Follows (next.report w.agentID) (r.report w.agentID) :=
    hnext.follows hknown.wellFormed.links hne (hid.root _ _ hr)
  have hunused : w.Unused (next.report w.agentID).operationID := by
    change w.Unused next.id
    rw [hnext.id]
    exact hid
  have hbound : w.server.Bound next.planID w.agentID := by
    rw [hnext.planID]
    exact hknown.bound
  have hretries : w.Retries (next.report w.agentID) :=
    ⟨r.id, r.report w.agentID, hnext.parent, hr, hfollows, hplain⟩
  refine h.put (known_new hunused (hnext.wellFormed hknown.wellFormed hid.valid) hbound
    (Or.inr hretries)) hnext.filled hnext.uploaded (fun rep hrep => ?_) rfl rfl (fun y hy => ?_)
    (by simp)
  · rw [hnext.id, hid.about] at hrep
    cases hrep
  · rcases List.mem_append.mp hy with hold | hlast
    · exact Or.inl hold
    · rw [List.mem_singleton.mp hlast]
      exact Or.inr ⟨rfl, hpolicy, Unused.plain hunused⟩

theorem Inv.finishWorker (h : Inv start w) {x : Worker} (hx : x ∈ w.agent.workers)
    {o : OperationOutcome} (ho : o.valid) (allowRetry : Bool) {now : Stamp} (hnow : 0 < now)
    {newID : UUID} (hid : w.fresh newID) :
    Inv start { w with agent := w.agent.finishWorker x o allowRetry now newID } := by
  have hfresh := unused_of_fresh hid
  have hworker := h.workers x hx
  obtain ⟨-, -, hknown⟩ := h.about hworker.about
  -- The outcome leaves what the record reports as it is.
  let ended : State :=
    State.putOperation { w.agent with workers := w.agent.workers.erase x } (x.record.finish o now)
  have hended : Inv start (w.act (ended, [])) := by
    refine h.put hknown (finish_filled ho hnow) hworker.uploaded (fun rep hrep => ?_) rfl rfl
      (fun y hy => Or.inl (List.mem_of_mem_erase hy)) (by simp)
    exact Option.some.inj (hrep.symm.trans hworker.about)
  have habout : ∀ k, (w.act (ended, [])).about k = w.about k := by
    intro k
    refine (about_putOperation _ _ _ k).trans ?_
    split
    · rename_i hk
      rw [hk]
      exact hworker.about.symm
    · rfl
  rw [← act_nil]
  unfold State.finishWorker
  simp only
  cases hretry : w.agent.retry x.plan (x.record.finish o now) x.deadline allowRetry now newID with
  | none => exact hended
  | some next =>
      have hunused : (w.act (ended, [])).Unused newID :=
        ⟨hfresh.valid, (habout _).trans hfresh.about, hfresh.row,
          fun k r hr => hfresh.root k r ((habout k).symm.trans hr)⟩
      have hput := hended.retried (r := x.record.finish o now) ((habout _).trans hworker.about)
        hworker.plain hunused (retry_spec hnow hworker.policy hretry) hworker.policy
        (next.deadline.getD 0)
      rw [act_nil, act_nil] at hput
      rw [act_nil]
      exact hput

theorem Inv.endWait (h : Inv start w) {x : Worker} (hx : x ∈ w.agent.workers) {now : Stamp}
    (hnow : 0 < now) (how : State.Wait) :
    Inv start { w with agent := w.agent.endWait x now how } := by
  have hworker := h.workers x hx
  obtain ⟨-, -, hknown⟩ := h.about hworker.about
  have hsame : ∀ rep, w.about x.record.id = some rep → rep = x.record.report w.agentID :=
    fun rep hrep => Option.some.inj (hrep.symm.trans hworker.about)
  rw [← act_nil]
  cases how with
  | canceled =>
      exact h.put (r := State.closeRetry x.record .canceled now) hknown
        (closeRetry_filled hworker.filled rfl hnow) hworker.uploaded hsame rfl rfl
        (fun y hy => Or.inl (List.mem_of_mem_erase hy)) (by simp)
  | superseded =>
      exact h.put (r := State.closeRetry x.record .configSuperseded now) hknown
        (closeRetry_filled hworker.filled rfl hnow) hworker.uploaded hsame rfl rfl
        (fun y hy => Or.inl (List.mem_of_mem_erase hy)) (by simp)
  | elapsed =>
      refine h.same rfl h.plans (fun y hy => ?_) (by simp)
      rcases List.mem_append.mp hy with hold | hlast
      · exact h.workers y (List.mem_of_mem_erase hold)
      · rw [List.mem_singleton.mp hlast]
        exact ⟨hworker.about, hworker.filled, hworker.uploaded, hworker.policy, hworker.plain⟩

/-! ## Records that change in place -/

theorem Inv.update (h : Inv start w) {id : UUID} {f : OperationRecord → OperationRecord}
    (hf : ∀ r, w.agent.records.row id = some r → (f r).report w.agentID = r.report w.agentID ∧
      (f r).Filled ∧ ((f r).uploaded → w.Finished id)) :
    Inv start { w with agent := w.agent.updateOperation id f } := by
  rw [← act_nil]
  refine h.rewrite (fun k r => if k = id then f r else r) (fun k => ?_) (fun k r hr => ?_) h.plans
    h.workers (by simp)
  · by_cases hk : k = id
    · subst hk
      simp [State.updateOperation]
    · simp only [State.updateOperation, Table.row_modify_ne hk, if_neg hk, Option.map_id']
  · split
    · rename_i hk
      subst hk
      exact hf r hr
    · exact ⟨rfl, (h.records k r hr).filled, (h.records k r hr).uploaded⟩

theorem Inv.persist (h : Inv start w) (id : UUID) {c : State.Counters} (hc : c.valid) :
    Inv start { w with agent := w.agent.updateOperation id c.apply } := by
  refine h.update fun r hr => ⟨?_, apply_filled (h.records id r hr).filled hc, fun hup => ?_⟩
  · unfold State.Counters.apply
    split <;> rfl
  · refine (h.records id r hr).uploaded ?_
    unfold State.Counters.apply at hup
    split at hup <;> exact hup

theorem Inv.acknowledged (h : Inv start w) {id : UUID} (hid : id ∈ w.acks) :
    Inv start { w with agent := w.agent.markOperationUploaded id } := by
  refine h.update fun r hr => ?_
  have hold := h.records id r hr
  split
  · exact ⟨rfl, ⟨hold.filled.status, hold.filled.finishedAt, hold.filled.counters,
      hold.filled.errorCode, hold.filled.exitCode, hold.filled.parsed⟩, fun _ => h.acks id hid⟩
  · exact ⟨rfl, hold.filled, hold.uploaded⟩

theorem Inv.restart (h : Inv start w) {now : Stamp} (hnow : 0 < now) :
    Inv start { w with agent := w.agent.restart now } := by
  rw [← act_nil]
  refine h.rewrite (fun _ => State.recover now) (fun id => rfl) (fun id r hr => ?_) h.plans
    (fun x hx => nomatch hx) (by simp)
  have hold := h.records id r hr
  refine ⟨?_, recover_filled hold.filled hnow, fun hup => ?_⟩
  · unfold State.recover
    split <;> rfl
  · unfold State.recover at hup
    split at hup
    · cases hup
    · exact hold.uploaded hup

/-! ## Reports -/

theorem row_reported (batch : List OperationRecord) (now : Stamp) (s : State) (id : UUID) :
    (batch.foldl (fun s r => s.markOperationReported r.id now) s).records.row id =
      (s.records.row id).map fun r =>
        if id ∈ batch.map (·.id) then { r with lastReportedAt := now } else r := by
  induction batch generalizing s with
  | nil => simp
  | cons b rest ih =>
      rw [List.foldl_cons, ih]
      unfold State.markOperationReported State.updateOperation
      by_cases hid : id = b.id
      · subst hid
        rw [Table.row_modify_self, Option.map_map]
        congr 1
        funext r
        simp
      · rw [Table.row_modify_ne hid]
        simp [hid]

theorem reported_rest (batch : List OperationRecord) (now : Stamp) (s : State) :
    (batch.foldl (fun s r => s.markOperationReported r.id now) s).plans = s.plans ∧
      (batch.foldl (fun s r => s.markOperationReported r.id now) s).workers = s.workers := by
  induction batch generalizing s with
  | nil => exact ⟨rfl, rfl⟩
  | cons b rest ih => exact ih _

theorem Inv.sentOk (h : Inv start w) {id : UUID} {r : OperationRecord} {m : Message}
    (hr : w.agent.records.row id = some r) (hm : m.report? = some (r.report w.agentID))
    (hk : m.checked)
    (hp : w.Stored id ∨ ∀ p, r.parentOperationID = some p → w.Finished p) {rep : Report}
    (hrep : m.report? = some rep) : w.SentOk m rep := by
  rw [hm] at hrep
  obtain rfl := Option.some.inj hrep
  have hkey : (r.report w.agentID).operationID = id := (h.records id r hr).key
  refine ⟨?_, hk, ?_⟩
  · rw [hkey, World.about, State.about, hr]
    rfl
  · rw [hkey]
    exact hp

/-- A record that is not withheld has no parent that the server has not finished. -/
theorem Inv.parent_finished (h : Inv start w) {id : UUID} {r : OperationRecord}
    (hr : w.agent.records.row id = some r) (hw : w.agent.withheld r = false) :
    w.Stored id ∨ ∀ p, r.parentOperationID = some p → w.Finished p := by
  have hold := h.records id r hr
  have hkey : (r.report w.agentID).operationID = id := hold.key
  rcases hold.known.origin with hnone | hstored | ⟨p, prev, hp, hprev, -, -⟩
  · refine Or.inr fun p hp => ?_
    replace hnone : r.parentOperationID = none := hnone
    rw [hnone] at hp
    cases hp
  · rw [hkey] at hstored
    exact Or.inl hstored
  · refine Or.inr fun p' hp' => ?_
    replace hp : r.parentOperationID = some p := hp
    obtain rfl : p' = p := Option.some.inj (hp'.symm.trans hp)
    obtain ⟨x, hx, -⟩ := Option.map_eq_some_iff.mp hprev
    refine (h.records p' x hx).uploaded ?_
    simpa [State.withheld, hp, hx] using hw

theorem message_report? (r : OperationRecord) (agentID : UUID) (now : Stamp) (sequence : ℕ) :
    (r.message agentID now sequence).report? = some (r.report agentID) := by
  unfold OperationRecord.message
  split <;> rfl

theorem Inv.message_checked (h : Inv start w) {id : UUID} {r : OperationRecord}
    (hr : w.agent.records.row id = some r) {now : Stamp} {sequence : ℕ} (hnow : 0 < now)
    (hpos : 0 < sequence) (hlt : sequence < 2 ^ 63) :
    (r.message w.agentID now sequence).checked := by
  have hold := h.records id r hr
  unfold OperationRecord.message
  split
  · rename_i hfinal
    exact result_check hold.known.wellFormed hold.filled hfinal
  · exact progress_check hold.known.wellFormed hold.filled (Int.ne_of_gt hnow) hpos hlt

theorem mem_reportable {s : State} {now interval : Stamp} {r : OperationRecord}
    (h : r ∈ s.reportableOperations now interval) :
    (∃ id, s.records.row id = some r) ∧ s.withheld r = false := by
  have hmem := List.mem_of_mem_take h
  rw [List.mem_insertionSort, List.mem_filter, Table.mem_rows] at hmem
  refine ⟨hmem.1, ?_⟩
  have hdue := hmem.2
  simp only [State.due, Bool.and_eq_true, Bool.not_eq_true'] at hdue
  exact hdue.1

theorem Inv.report (h : Inv start w) {now interval : Stamp} {sequence : ℕ} (hnow : 0 < now)
    (hpos : 0 < sequence) (hlt : sequence < 2 ^ 63) (n : ℕ) :
    Inv start (w.act (w.agent.reportOperations w.agentID now interval sequence n)) := by
  have hrest := reported_rest ((w.agent.reportableOperations now interval).take n) now w.agent
  refine h.rewrite _ (row_reported _ now w.agent) (fun id r hr => ?_) ?_ ?_ (fun m hm rep hrep => ?_)
  · have hold := h.records id r hr
    split
    · exact ⟨rfl, ⟨hold.filled.status, hold.filled.finishedAt, hold.filled.counters,
        hold.filled.errorCode, hold.filled.exitCode, hold.filled.parsed⟩, hold.uploaded⟩
    · exact ⟨rfl, hold.filled, hold.uploaded⟩
  · rw [hrest.1]
    exact h.plans
  · rw [hrest.2]
    exact h.workers
  · obtain ⟨r, hr, rfl⟩ := List.mem_map.mp hm
    obtain ⟨⟨id, hrow⟩, hw⟩ := mem_reportable (List.mem_of_mem_take hr)
    exact h.sentOk hrow (message_report? r w.agentID now sequence)
      (h.message_checked hrow hnow hpos hlt) (h.parent_finished hrow hw) hrep

end RestFleet.Agent.World
