import RestFleet.Verification.Agent.Steps

/-! # Runs

Dispatched jobs, the calls of the server, and the invariant along a run. -/

namespace RestFleet.Agent.World

open Backup (Stamp Database Report Operation RowOk)

variable {start : Database} {w w' : World} {j : Job} {p : PlanSchedule} {now : Stamp}

/-! ## Jobs -/

theorem valid_of_isV7 {id : UUID} (h : id.isV7) : Backup.validOperationID id := by
  simp only [UUID.isV7, Bool.and_eq_true, decide_eq_true_eq] at h
  simp [Backup.validOperationID, h.1, h.2]

/-- What the Agent has checked about a job of a plan that it has. -/
structure Startable (w : World) (p : PlanSchedule) (j : Job) : Prop where
  plan : w.PlanOk p
  job : w.JobOk j
  operationID : j.operationID.isV7
  planID : p.planID = j.planID
  revision : j.planRevision = p.revision

theorem Startable.bound (h : w.Startable p j) : w.server.Bound j.planID w.agentID := by
  rw [← h.planID]
  exact h.plan.bound

theorem Startable.identified (h : w.Startable p j) (hagent : w.agentID.isV7) {scheduled : Stamp}
    {parent root : Option UUID} {attempt : ℤ} :
    (⟨j.operationID, j.planID, w.agentID, j.planRevision, scheduled, parent, root, attempt⟩ :
      Report).identified := by
  have hplan : j.planID.isV7 := by
    rw [← h.planID]
    exact h.plan.planID
  simp [Report.identified, valid_of_isV7 h.operationID, hplan, hagent]

theorem Startable.revision_pos (h : w.Startable p j) : 1 ≤ j.planRevision := by
  rw [h.revision]
  exact h.plan.revision

theorem canceledJob_known (h : w.Startable p j) (hagent : w.agentID.isV7) (hnow : 0 < now) :
    w.Known ((State.canceledJob j now).report w.agentID) := by
  obtain ⟨o, ho, hid⟩ := h.job
  simp only [Operation.identity, Prod.mk.injEq] at hid
  obtain ⟨-, hoagent, hoplan, horev, -⟩ := hid
  have hscheduled : (State.canceledJob j now).scheduledAt ≠ 0 := by
    change (if j.notBefore = 0 then now else j.notBefore) ≠ 0
    split
    · exact Int.ne_of_gt hnow
    · assumption
  refine ⟨⟨h.identified hagent, rfl, h.revision_pos, hscheduled⟩, h.bound, fun o' ho' => ?_,
    Or.inl rfl⟩
  obtain rfl : o = o' := Option.some.inj (ho.symm.trans ho')
  simp [Operation.matchesReport, hoagent, hoplan, horev, OperationRecord.report, State.canceledJob,
    newRecord]

theorem startedJob_known (h : w.Startable p j) (hrow : ∀ o,
      w.server.operations.row j.operationID = some o → RowOk j.operationID o)
    (hagent : w.agentID.isV7) (hbefore : j.notBefore ≠ 0) :
    w.Known ((State.startedJob j now).report w.agentID) ∧ 1 ≤ j.attempt := by
  obtain ⟨o, ho, hid⟩ := h.job
  simp only [Operation.identity, Prod.mk.injEq] at hid
  obtain ⟨-, hoagent, hoplan, horev, hoparent, horoot, hoattempt⟩ := hid
  have hlinks := (hrow o ho).links
  have hone : 1 ≤ o.attempt := Backup.LinksOk.attempt hlinks
  unfold Operation.LinksOk at hlinks
  rw [hoparent, horoot, hoattempt] at hlinks
  have hroot : (if j.parentOperationID.isNone then none else j.rootOperationID) =
      j.rootOperationID := by
    cases hp : j.parentOperationID with
    | some q => rfl
    | none =>
        cases hq : j.rootOperationID with
        | none => rfl
        | some q => simp [hp, hq] at hlinks
  have hreport : (State.startedJob j now).report w.agentID =
      ⟨j.operationID, j.planID, w.agentID, j.planRevision, j.notBefore, j.parentOperationID,
        j.rootOperationID, j.attempt⟩ := by
    simp only [OperationRecord.report, State.startedJob, newRecord, hroot]
  rw [hreport]
  refine ⟨⟨⟨h.identified hagent, ?_, h.revision_pos, hbefore⟩, h.bound, fun o' ho' => ?_,
    Or.inr (Or.inl ?_)⟩, hoattempt ▸ hone⟩
  · unfold Backup.reportedOperationLinks
    cases hp : j.parentOperationID with
    | none =>
        cases hq : j.rootOperationID with
        | none =>
            simp only [hp, hq] at hlinks
            simp [hlinks]
        | some q => simp [hp, hq] at hlinks
    | some q =>
        cases hr : j.rootOperationID with
        | none => simp [hp, hr] at hlinks
        | some q' =>
            simp only [hp, hr] at hlinks
            obtain ⟨hv, hv', h2, hle⟩ := hlinks
            have h0 : 0 ≤ j.attempt := by omega
            simp [hv, hv', h2, hle, h0]
  · obtain rfl : o = o' := Option.some.inj (ho.symm.trans ho')
    simp [Operation.matchesReport, hoagent, hoplan, horev, hoparent, horoot, hoattempt]
  · exact Option.isSome_iff_exists.mpr ⟨o, ho⟩

theorem Inv.startJob (h : Inv start w) (hnow : 0 < now) (hbefore : j.notBefore ≠ 0)
    (hplan : w.PlanOk p) (hjob : w.JobOk j) (hop : j.operationID.isV7) (hid : p.planID = j.planID)
    (hnew : w.about j.operationID = none) (persists : Bool) :
    Inv start (w.act (w.agent.startJob p j w.agentID now persists)) := by
  have hreject : ∀ m ∈ [Message.rejected j.operationID], ∀ r, m.report? = some r →
      w.SentOk m r := by
    rintro m hm r hr
    rw [List.mem_singleton.mp hm] at hr
    cases hr
  unfold State.startJob
  split
  · exact h.same rfl h.plans h.workers hreject
  · rename_i hrefused
    have hrev : j.planRevision = p.revision := by
      by_contra hne
      exact hrefused (Or.inl hne)
    have hstart : w.Startable p j := ⟨hplan, hjob, hop, hid, hrev⟩
    split
    · exact h.same rfl h.plans h.workers (by simp)
    · split
      · simp only
        split
        · exact h.same rfl h.plans h.workers hreject
        · have hknown := canceledJob_known hstart h.agentID hnow
          have hfilled : (State.canceledJob j now).Filled :=
            filled_of_blank (Or.inr rfl) (fun _ => Int.ne_of_gt hnow) rfl rfl
          refine h.put hknown hfilled rfl (fun rep hrep => ?_) rfl rfl (fun x hx => Or.inl hx)
            (fun m hm rep hrep => ?_)
          · exact nomatch hnew.symm.trans hrep
          · rw [List.mem_singleton.mp hm] at hrep ⊢
            obtain rfl := Option.some.inj hrep
            exact ⟨rfl, result_check hknown.wellFormed hfilled rfl, rfl⟩
      · split
        · exact h.same rfl h.plans h.workers (by simp)
        · split
          · exact h.same rfl h.plans h.workers hreject
          · obtain ⟨hknown, hone⟩ : w.Known ((State.startedJob j now).report w.agentID) ∧
                1 ≤ j.attempt :=
              startedJob_known hstart (fun o ho => h.rows _ o ho) h.agentID hbefore
            let x : Worker := ⟨State.startedJob j now, p, j.deadline, false⟩
            have hworkers : ∀ y ∈ w.agent.workers ++ [x], y ∈ w.agent.workers ∨
                y.record = State.startedJob j now ∧
                  (∀ q, y.plan.retryPolicy = some q → q.validate) ∧
                    w.Plain ((State.startedJob j now).report w.agentID) := by
              intro y hy
              rcases List.mem_append.mp hy with hold | hlast
              · exact Or.inl hold
              · rw [List.mem_singleton.mp hlast]
                refine Or.inr ⟨rfl, hplan.policy, fun h0 => ?_⟩
                replace h0 : j.attempt = 0 := h0
                omega
            refine h.put (s := { w.agent with workers := w.agent.workers ++ [x] }) hknown
              (filled_of_blank (Or.inl rfl) nofun rfl rfl) rfl (fun rep hrep => ?_) rfl rfl hworkers
              (fun m hm rep hrep => ?_)
            · exact nomatch hnew.symm.trans hrep
            · rw [List.mem_singleton.mp hm] at hrep
              cases hrep

theorem Inv.dispatched (h : Inv start w) (hj : j ∈ w.jobs) (hnow : 0 < now)
    (hbefore : j.notBefore ≠ 0) (persists : Bool) :
    Inv start (w.act (w.agent.handleJobDispatch j w.agentID now persists)) := by
  unfold State.handleJobDispatch
  split
  · exact h.same rfl h.plans h.workers (by simp)
  · rename_i hvalid
    have hop : j.operationID.isV7 := by
      simp only [State.jobValid, Bool.not_eq_true, Bool.not_eq_false', Bool.and_eq_true] at hvalid
      exact hvalid.1.1
    split
    · rename_i r hr
      refine h.same rfl h.plans h.workers fun m hm rep hrep => ?_
      rw [List.mem_singleton.mp hm] at hrep ⊢
      unfold State.knownJob at hrep ⊢
      split at hrep
      · cases hrep
      · split at hrep
        · rename_i hmatch hfinal
          rw [if_neg hmatch, if_pos hfinal]
          have hold := h.records _ r hr
          obtain ⟨o, ho, -⟩ := h.jobs j hj
          have hk : (Message.result (r.result w.agentID)).checked :=
            result_check hold.known.wellFormed hold.filled hfinal
          exact h.sentOk hr rfl hk (Or.inl (Option.isSome_iff_exists.mpr ⟨o, ho⟩)) hrep
        · cases hrep
    · rename_i hnone
      split
      · refine h.same rfl h.plans h.workers fun m hm rep hrep => ?_
        rw [List.mem_singleton.mp hm] at hrep
        cases hrep
      · rename_i p hfind
        have hmem := List.mem_of_find?_eq_some hfind
        have hid := List.find?_some hfind
        rw [decide_eq_true_eq] at hid
        exact h.startJob hnow hbefore (h.plans p hmem) (h.jobs j hj) hop hid
          (about_none (by simp [hnone])) persists

/-! ## The server -/

theorem Inv.deliver (h : Inv start w) (hs : start.Fresh) {m : Message} (hm : m ∈ w.sent)
    (now : Stamp) : Inv start (w.deliver m now) := by
  refine h.call hs (h.adds_sent hm now) now (fun id hid => ?_) (fun j hj => Or.inl hj)
  cases m with
  | progress p => exact Or.inl hid
  | accepted id => exact Or.inl hid
  | rejected id => exact Or.inl hid
  | result r =>
      simp only at hid
      split at hid
      · rename_i hadmits
        rcases List.mem_cons.mp hid with rfl | hold
        · have hsent := h.sent _ hm _ rfl
          obtain ⟨-, -, hknown⟩ := h.about hsent.about
          have hbound := Backup.isSome_boundPlan hknown.bound
          rw [admits_eq rfl hsent.checked hknown.wellFormed.links hbound] at hadmits
          exact Or.inr (Backup.finished_of_accepted hknown.wellFormed.links hsent.checked hbound
            hadmits now)
        · exact Or.inl hold
      · exact Or.inl hid

theorem Inv.foreign (h : Inv start w) (hs : start.Fresh) {c : Backup.Call} (hc : w.foreign c)
    (now : Stamp) :
    Inv start { w with
      server := w.server.handle c now
      jobs := w.jobs ++ w.newJobs (w.server.handle c now) now } := by
  refine h.call hs (adds_foreign hc) now (fun id hid => Or.inl hid) (fun j hj => ?_)
  rcases List.mem_append.mp hj with hold | hnew
  · exact Or.inl hold
  · unfold newJobs at hnew
    obtain ⟨e, -, he⟩ := List.mem_filterMap.mp hnew
    split at he
    · rename_i id _ _
      obtain ⟨o, ho, rfl⟩ := Option.map_eq_some_iff.mp he
      obtain ⟨hrow, hagent⟩ := Option.filter_eq_some_iff.mp ho
      have hkey := (h.agrees_handle (adds_foreign hc) now id o hrow).1.id
      subst hkey
      refine Or.inr ⟨o, hrow, ?_⟩
      simp only [Operation.identity, jobOf, of_decide_eq_true hagent]
    · cases he

theorem Inv.cancels (h : Inv start w) (ids : List UUID) : Inv start { w with cancels := ids } := by
  have hg : Grows w { w with cancels := ids } :=
    ⟨rfl, fun _ _ hr => hr, .refl _, fun _ _ hb => hb, fun _ _ _ hp => hp⟩
  refine ⟨h.agentID, h.served, h.rows, fun p hp => hg.planOk (h.plans p hp), fun id r hr => ?_,
    fun x hx => hg.workerOk (h.workers x hx), h.acks, h.jobs,
    fun m hm r hr => hg.sentOk (h.sent m hm r hr)⟩
  have hold := h.records id r hr
  exact ⟨hold.key, hold.filled, hold.uploaded, hold.known.wellFormed, hold.known.bound,
    hold.known.matched, hg.origin hold.known.origin⟩

/-! ## Runs -/

theorem Inv.step (h : Inv start w) (hs : start.Fresh) {e : Event} (hstep : w.step e = some w') :
    Inv start w' := by
  cases e with
  | applyDesired plans maxParallel =>
      obtain ⟨hplans, ⟨⟩⟩ := Option.ite_none_right_eq_some.mp hstep
      rw [← act_nil]
      refine h.same rfl (fun p hp => planOk_of_sendable (List.all_eq_true.mp hplans p hp)) h.workers
        (by simp)
  | advance p id scheduled now next slot =>
      obtain ⟨⟨hp, hscheduled, hnow, hid⟩, ⟨⟩⟩ := Option.ite_none_right_eq_some.mp hstep
      exact h.advance hp hscheduled hnow hid next slot
  | persist id c =>
      obtain ⟨⟨hc, -⟩, ⟨⟩⟩ := Option.ite_none_right_eq_some.mp hstep
      exact h.persist id hc
  | finish x o allowRetry now newID =>
      obtain ⟨⟨hx, -, ho, hnow, hid⟩, ⟨⟩⟩ := Option.ite_none_right_eq_some.mp hstep
      exact h.finishWorker hx ho allowRetry hnow hid
  | endWait x now how =>
      obtain ⟨⟨hx, -, hnow⟩, ⟨⟩⟩ := Option.ite_none_right_eq_some.mp hstep
      exact h.endWait hx hnow how
  | dropWorker x =>
      obtain rfl := Option.some.inj hstep
      rw [← act_nil]
      exact h.same rfl h.plans (fun y hy => h.workers y (List.mem_of_mem_erase hy)) (by simp)
  | restart now =>
      obtain ⟨hnow, ⟨⟩⟩ := Option.ite_none_right_eq_some.mp hstep
      exact h.restart hnow
  | report now interval sequence n =>
      obtain ⟨⟨hnow, hpos, hlt⟩, ⟨⟩⟩ := Option.ite_none_right_eq_some.mp hstep
      exact h.report hnow hpos hlt n
  | acknowledged id =>
      obtain ⟨hid, ⟨⟩⟩ := Option.ite_none_right_eq_some.mp hstep
      exact h.acknowledged hid
  | dispatched j now persists =>
      obtain ⟨⟨hj, hnow, hbefore⟩, ⟨⟩⟩ := Option.ite_none_right_eq_some.mp hstep
      exact h.dispatched hj hnow hbefore persists
  | canceled id =>
      obtain ⟨-, ⟨⟩⟩ := Option.ite_none_right_eq_some.mp hstep
      have hsame : (w.agent.cancelOperation id).records = w.agent.records ∧
          (w.agent.cancelOperation id).plans = w.agent.plans ∧
            (w.agent.cancelOperation id).workers = w.agent.workers := by
        unfold State.cancelOperation
        split
        · exact ⟨rfl, rfl, rfl⟩
        · split
          · exact ⟨rfl, rfl, rfl⟩
          · split <;> exact ⟨rfl, rfl, rfl⟩
      rw [← act_nil]
      refine h.same hsame.1 ?_ ?_ (by simp)
      · rw [hsame.2.1]
        exact h.plans
      · rw [hsame.2.2]
        exact h.workers
  | deliver m now =>
      obtain ⟨hm, ⟨⟩⟩ := Option.ite_none_right_eq_some.mp hstep
      exact h.deliver hs hm now
  | cancelPending id =>
      obtain ⟨-, ⟨⟩⟩ := Option.ite_none_right_eq_some.mp hstep
      exact h.cancels _
  | call c now =>
      obtain ⟨hc, ⟨⟩⟩ := Option.ite_none_right_eq_some.mp hstep
      exact h.foreign hs hc now

theorem Inv.run (hs : start.Fresh) {events : List Event} :
    ∀ {w}, Inv start w → w.run events = some w' → Inv start w' := by
  induction events with
  | nil =>
      intro w h hrun
      obtain rfl := Option.some.inj hrun
      exact h
  | cons e rest ih =>
      intro w h hrun
      obtain ⟨w₁, hstep, hrest⟩ := Option.bind_eq_some_iff.mp hrun
      exact ih (h.step hs hstep) hrest

end RestFleet.Agent.World
