import RestFleet.Verification.Agent.Runs

/-! # Reports that the server refuses

Of all that an Agent sends, the server refuses only, and for good, the reports of a retry that it has
not heard of and whose parent it holds as finished in another way. -/

namespace RestFleet.Backup

/-- The operation is unknown, and its parent is finished but did not fail with an error that is
tried again. -/
def Database.disowns (db : Database) (r : Report) : Bool :=
  (db.operations.row r.operationID).isNone &&
    (r.parentOperationID.bind db.operations.row).any fun o =>
      o.finishedAt.isSome && !(o.status = .failed && o.errorCode.retryable)

end RestFleet.Backup

namespace RestFleet.Agent.World

open Backup (Stamp Database Report Operation RowOk RowsAre)

variable {start : Database} {w₀ w w' : World} {events : List Event} {m : Message} {r prev : Report}

/-- The row of an operation and what the Agent reports about it have the same attempt and root. -/
theorem Known.attempt_root (h : w.Known prev) (hplain : w.Plain prev) {o : Operation}
    (ho : w.server.operations.row prev.operationID = some o) (hok : RowOk prev.operationID o) :
    prev.rowAttempt = o.attempt ∧ prev.rootOperationID = o.rootOperationID := by
  have hlinks := h.wellFormed.links
  by_cases h0 : prev.attempt = 0
  · have hparent := hplain h0 o ho
    have hroot := (Backup.links_none hlinks (Backup.parent_none hlinks h0)).1
    have hrow := hok.links
    unfold Operation.LinksOk at hrow
    rw [hparent] at hrow
    cases hq : o.rootOperationID with
    | some q => simp [hq] at hrow
    | none =>
        simp only [hq] at hrow
        rw [hrow, hroot, Report.rowAttempt, h0]
        exact ⟨rfl, rfl⟩
  · have hmatch := h.matched o ho
    simp only [Operation.matchesReport, Bool.and_eq_true, Bool.or_eq_true, decide_eq_true_eq]
      at hmatch
    obtain ⟨⟨hatt, -⟩, hroot⟩ := hmatch.2.resolve_left h0
    exact ⟨(Backup.rowAttempt_eq hlinks h0).trans hatt.symm, hroot.symm⟩

/-- A retry is allowed exactly when the server holds its parent as the Agent does. -/
theorem Inv.allowsChild (h : Inv start w) (hr : w.about r.operationID = some r)
    (hprev : w.about prev.operationID = some prev) (hf : Follows r prev) (hplain : w.Plain prev)
    {o : Operation} (ho : w.server.operations.row prev.operationID = some o) :
    o.allowsChild r = (decide (o.status = .failed) && o.errorCode.retryable) := by
  obtain ⟨-, hagent, -⟩ := h.about hr
  obtain ⟨-, hagent', hknown⟩ := h.about hprev
  have hok := h.rows _ o ho
  obtain ⟨hatt, hroot⟩ := hknown.attempt_root hplain ho hok
  have hmatch := hknown.matched o ho
  simp only [Operation.matchesReport, Bool.and_eq_true, decide_eq_true_eq] at hmatch
  have hoagent : o.agentID = r.agentID := hmatch.1.1.1.trans (hagent'.trans hagent.symm)
  have hoplan : o.planID = r.planID := hmatch.1.1.2.trans hf.planID.symm
  have horev : o.planRevision = r.planRevision := hmatch.1.2.trans hf.planRevision.symm
  have hattempt : r.attempt = o.attempt + 1 := by rw [hf.attempt, hatt]
  have hle : o.attempt + 1 ≤ 10 := hattempt ▸ hf.le
  have horoot : r.rootOperationID = some (o.rootOperationID.getD o.id) := by
    rw [hf.root, hroot, hok.id]
  simp [Operation.allowsChild, hoagent, hoplan, horev, horoot, hattempt, hle]

theorem Inv.accepts (h : Inv start w) (hs : w.SentOk m r) :
    w.server.accepts r = !w.server.disowns r := by
  obtain ⟨-, -, hknown⟩ := h.about hs.about
  unfold Database.accepts Database.disowns
  cases hrow : w.server.operations.row r.operationID with
  | some o =>
      simp only [Option.isNone_some, Bool.false_and, Bool.not_false]
      exact hknown.matched o hrow
  | none =>
      have hnot : ¬ w.Stored r.operationID := by simp [Stored, hrow]
      simp only [Option.isNone_none, Bool.true_and]
      rcases hknown.origin with hnone | hstored | ⟨p, prev, hp, hprev, hf, hplain⟩
      · obtain ⟨hroot, -, hle⟩ := Backup.links_none hknown.wellFormed.links hnone
        simp [Database.linksValid, hnone, hroot, hle]
      · exact absurd hstored hnot
      · obtain ⟨o, ho, hfin⟩ := (hs.parent.resolve_left hnot) p hp
        obtain ⟨rfl, -, -⟩ := h.about hprev
        have hchild := h.allowsChild hs.about hprev hf hplain ho
        have hroot : r.rootOperationID.isSome := by simp [hf.root]
        simp [Database.linksValid, hp, hroot, hf.parent_ne, hf.root_ne, ho, hchild, hfin]

theorem Inv.refused_iff (h : Inv start w) (hm : m ∈ w.sent) (hr : m.report? = some r) :
    admits w.server m = false ↔ w.server.disowns r := by
  have hsent := h.sent m hm r hr
  obtain ⟨-, -, hknown⟩ := h.about hsent.about
  rw [admits_eq hr hsent.checked hknown.wellFormed.links (Backup.isSome_boundPlan hknown.bound),
    h.accepts hsent, Bool.not_eq_false']

/-! ## A refused report stays refused -/

theorem disowns_evolves {db db' : Database} (hev : Backup.Evolves db db')
    (hnone : db'.operations.row r.operationID = none) (hd : db.disowns r) : db'.disowns r := by
  simp only [Database.disowns, Bool.and_eq_true, Option.any_eq_true] at hd ⊢
  obtain ⟨-, o, ho, hfin, hother⟩ := hd
  obtain ⟨p, hp, hrow⟩ := Option.bind_eq_some_iff.mp ho
  obtain ⟨o', ho', hnext⟩ := hev p o hrow
  have hout := hnext.outcome hfin
  have hstatus : o'.status = o.status := congrArg (·.1) hout
  have hfinished : o'.finishedAt = o.finishedAt := congrArg (·.2.1) hout
  have hcode : o'.errorCode = o.errorCode := congrArg (·.2.2.2.1) hout
  refine ⟨by simp [hnone], o', by rw [hp]; exact ho', ?_, ?_⟩
  · rw [hfinished]
    exact hfin
  · rw [hstatus, hcode]
    exact hother

theorem Inv.row_none (h : Inv start w) {c : Backup.Call} {op : UUID}
    (hc : c.Inserts fun k o => RowOk k o ∧ k ≠ op) (hnone : w.server.operations.row op = none)
    (now : Stamp) : (w.server.handle c now).operations.row op = none := by
  have hid : Backup.OfIdentity fun k o => RowOk k o ∧ k ≠ op :=
    fun k o o' hid hk => ⟨Backup.rowOk_identity k o o' hid hk.1, hk.2⟩
  have hrows : RowsAre (fun k o => RowOk k o ∧ k ≠ op) w.server := by
    intro k o ho
    refine ⟨h.rows k o ho, ?_⟩
    rintro rfl
    rw [hnone] at ho
    cases ho
  cases hrow : (w.server.handle c now).operations.row op with
  | none => rfl
  | some o => exact absurd rfl (Backup.rowsAre_handle hid hc hrows now op o hrow).2

theorem Inv.disowns_call (h : Inv start w) (hs : start.Fresh) {c : Backup.Call}
    (hc : c.Inserts fun k o => RowOk k o ∧ k ≠ r.operationID) (hd : w.server.disowns r)
    (now : Stamp) : (w.server.handle c now).disowns r := by
  have hnone : w.server.operations.row r.operationID = none := by
    simp only [Database.disowns, Bool.and_eq_true, Option.isNone_iff_eq_none] at hd
    exact hd.1
  exact disowns_evolves (h.served.evolves hs c now) (h.row_none hc hnone now) hd

theorem Inv.report_eq (h : Inv start w) {m' : Message} {r' : Report} (hm : m ∈ w.sent)
    (hr : m.report? = some r) (hm' : m' ∈ w.sent) (hr' : m'.report? = some r')
    (hop : r'.operationID = r.operationID) : r' = r := by
  have habout := (h.sent m hm r hr).about
  have habout' := (h.sent m' hm' r' hr').about
  rw [hop, habout] at habout'
  exact (Option.some.inj habout').symm

theorem Inv.disowns_deliver (h : Inv start w) (hs : start.Fresh) (hm : m ∈ w.sent)
    (hr : m.report? = some r) (hd : w.server.disowns r) {m' : Message} (hm' : m' ∈ w.sent)
    (now : Stamp) : (w.server.handle (w.callOf now m') now).disowns r := by
  have hrefused : ∀ r', m'.report? = some r' → r'.operationID = r.operationID →
      (w.server.boundPlan? r').isSome ∧ w.server.accepts r' = false := by
    intro r' hr' hop
    obtain rfl := h.report_eq hm hr hm' hr' hop
    have hsent := h.sent m hm _ hr
    obtain ⟨-, -, hknown⟩ := h.about hsent.about
    exact ⟨Backup.isSome_boundPlan hknown.bound, by rw [h.accepts hsent, hd]; rfl⟩
  have hrow : ∀ r', m'.report? = some r' → ∀ o : Operation, o.FromReport r' →
      RowOk r'.operationID o := by
    intro r' hr' o ho
    obtain ⟨-, -, hknown⟩ := h.about (h.sent m' hm' r' hr').about
    exact Backup.rowOk_report ho hknown.wellFormed.identified hknown.wellFormed.links
  cases m' with
  | accepted id => exact h.disowns_call (c := .accept w.agentID id) hs trivial hd now
  | rejected id => exact h.disowns_call (c := .reject w.agentID id now) hs trivial hd now
  | progress p =>
      by_cases hop : p.operationID = r.operationID
      · obtain ⟨hb, hc⟩ := hrefused _ rfl hop
        change (w.server.handle (.progress p) now).disowns r
        rw [Backup.handle_progress_refused hb hc]
        exact hd
      · exact h.disowns_call (c := .progress p) hs (fun _ _ => ⟨hrow _ rfl _ p.fromReport, hop⟩) hd
          now
  | result q =>
      by_cases hop : q.operationID = r.operationID
      · obtain ⟨hb, hc⟩ := hrefused _ rfl hop
        change (w.server.handle (.result q) now).disowns r
        rw [Backup.handle_result_refused hb hc]
        exact hd
      · exact h.disowns_call (c := .result q) hs (fun _ _ => ⟨hrow _ rfl _ q.fromReport, hop⟩) hd
          now

theorem Inv.disowns_foreign (h : Inv start w) (hs : start.Fresh) (hm : m ∈ w.sent)
    (hr : m.report? = some r) (hd : w.server.disowns r) {c : Backup.Call} (hc : w.foreign c)
    (now : Stamp) : (w.server.handle c now).disowns r := by
  refine h.disowns_call hs (inserts_foreign hc fun k o _ hnone => ?_) hd now
  rintro rfl
  rw [(h.sent m hm r hr).about] at hnone
  cases hnone

/-- No message is unsent, and nothing makes the server own what it disowns. -/
theorem Inv.poisoned_step (h : Inv start w) (hs : start.Fresh) {e : Event}
    (hstep : w.step e = some w') (hm : m ∈ w.sent) (hr : m.report? = some r)
    (hd : w.server.disowns r) : m ∈ w'.sent ∧ w'.server.disowns r := by
  cases e with
  | deliver m' now =>
      obtain ⟨hm', ⟨⟩⟩ := Option.ite_none_right_eq_some.mp hstep
      exact ⟨hm, h.disowns_deliver hs hm hr hd hm' now⟩
  | call c now =>
      obtain ⟨hc, ⟨⟩⟩ := Option.ite_none_right_eq_some.mp hstep
      exact ⟨hm, h.disowns_foreign hs hm hr hd hc now⟩
  | report now interval sequence n =>
      obtain ⟨-, ⟨⟩⟩ := Option.ite_none_right_eq_some.mp hstep
      exact ⟨List.mem_append_left _ hm, hd⟩
  | dispatched j now persists =>
      obtain ⟨-, ⟨⟩⟩ := Option.ite_none_right_eq_some.mp hstep
      exact ⟨List.mem_append_left _ hm, hd⟩
  | dropWorker x =>
      obtain rfl := Option.some.inj hstep
      exact ⟨hm, hd⟩
  | _ =>
      obtain ⟨-, ⟨⟩⟩ := Option.ite_none_right_eq_some.mp hstep
      exact ⟨hm, hd⟩

theorem Inv.poisoned_run (hs : start.Fresh) (hr : m.report? = some r) :
    ∀ {w}, Inv start w → w.run events = some w' → m ∈ w.sent → w.server.disowns r →
      m ∈ w'.sent ∧ w'.server.disowns r := by
  induction events with
  | nil =>
      intro w _ hrun hm hd
      obtain rfl := Option.some.inj hrun
      exact ⟨hm, hd⟩
  | cons e rest ih =>
      intro w h hrun hm hd
      obtain ⟨w₁, hstep, hrest⟩ := Option.bind_eq_some_iff.mp hrun
      obtain ⟨hm₁, hd₁⟩ := h.poisoned_step hs hstep hm hr hd
      exact ih (h.step hs hstep) hrest hm₁ hd₁

/-- A report that was refused once is refused whenever it is delivered again. -/
theorem refused_forever (hw : w₀.Initial) (hrun : w₀.run events = some w) (hm : m ∈ w.sent)
    (hr : m.report? = some r) (hno : admits w.server m = false) {later : List Event}
    (hlater : w.run later = some w') : admits w'.server m = false := by
  have h := Inv.run hw.server (inv_initial hw) hrun
  have h' := Inv.run hw.server h hlater
  obtain ⟨hm', hd'⟩ := Inv.poisoned_run hw.server hr h hlater hm ((h.refused_iff hm hr).mp hno)
  exact (h'.refused_iff hm' hr).mpr hd'

/-! ## Which reports are refused -/

/-- In every run, whatever the Agent has sent is taken unless the server disowns it. -/
theorem sent_report_refused_iff (hw : w₀.Initial) (hrun : w₀.run events = some w)
    (hm : m ∈ w.sent) (hr : m.report? = some r) :
    admits w.server m = false ↔ w.server.disowns r :=
  (Inv.run hw.server (inv_initial hw) hrun).refused_iff hm hr

/-! ## A run with a report that is refused for good -/

def sampleSchedule : PlanSchedule := ⟨Backup.sampleID 1, 1, [], some ⟨3, 60, 1800⟩, false⟩

def sampleWorld : World where
  agentID := Backup.sampleID 3
  agent := ⟨Table.empty, [], fun _ => none, 0, [], []⟩
  server := Backup.sampleStart
  sent := []
  acks := []
  jobs := []
  cancels := []

theorem sampleWorld_initial : sampleWorld.Initial :=
  ⟨by decide, rfl, rfl, rfl, Backup.sampleStart_fresh, rfl, rfl, rfl⟩

def sampleSlot : OperationRecord :=
  State.slotRecord sampleSchedule (Backup.sampleID 5) 10 20 .run

def sampleMessage : Message := .progress (sampleSlot.progress (Backup.sampleID 3) 30 1)

def sampleRun : List Event :=
  [.applyDesired [sampleSchedule] 2, .advance sampleSchedule (Backup.sampleID 5) 10 20 none .run,
    .report 30 0 1 1]

/-- The first report is taken. -/
theorem sent_report_refused_iff_taken :
    ∃ w, sampleWorld.run sampleRun = some w ∧ sampleMessage ∈ w.sent ∧
      admits w.server sampleMessage = true := by
  have hrun : (sampleWorld.run sampleRun).any fun w =>
      sampleMessage ∈ w.sent && !w.server.disowns (sampleSlot.report (Backup.sampleID 3)) := by
    decide +kernel
  obtain ⟨w, hw, hfacts⟩ := (Option.any_eq_true _ _).mp hrun
  simp only [Bool.and_eq_true, decide_eq_true_eq, Bool.not_eq_true'] at hfacts
  refine ⟨w, hw, hfacts.1, ?_⟩
  by_contra hno
  have hd : w.server.disowns (sampleSlot.report (Backup.sampleID 3)) = true :=
    (sent_report_refused_iff sampleWorld_initial hw hfacts.1 rfl).mp (Bool.eq_false_iff.mpr hno)
  rw [hfacts.2] at hd
  cases hd

def sampleOutcome : OperationOutcome :=
  ⟨.failed, 1, .repositoryLocked, [], 0, 0, 0, 0, 0, 0, none⟩

def sampleFailure : OperationRecord := sampleSlot.finish sampleOutcome 40

/-- The retry of the failed run, which a restart closes as lost. -/
def sampleRetry : OperationRecord :=
  { newRecord (Backup.sampleID 6) (Backup.sampleID 1) 1 [] (40 + 60 * second) .lost with
    startedAt := 40
    finishedAt := 50
    errorCode := .localOperationRecovered
    parentOperationID := some (Backup.sampleID 5)
    rootOperationID := some (Backup.sampleID 5)
    attempt := 2 }

def samplePoison : Message := .result (sampleRetry.result (Backup.sampleID 3))

/-- The Agent stores the retry of a failed run and restarts before it can upload the failure. The
server closes the run as lost, so that the late failure is acknowledged but not stored. -/
def sampleCrash : List Event :=
  sampleRun ++
    [.deliver sampleMessage 30,
      .finish ⟨sampleSlot, sampleSchedule, State.slotDeadline 10 20, false⟩ sampleOutcome true 40
        (Backup.sampleID 6),
      .restart 50, .call (.connect (Backup.sampleID 3) ['b'] 60) 60, .call (.reconcile 70 80) 80,
      .report 90 0 2 10, .deliver (.result (sampleFailure.result (Backup.sampleID 3))) 90,
      .acknowledged (Backup.sampleID 5), .report 100 0 3 10]

/-- The report of the retry is refused, now and whenever the Agent sends it again, and its record
is never uploaded. -/
theorem sent_report_refused_retry :
    ∃ w₀ events w m, World.Initial w₀ ∧ w₀.run events = some w ∧ m ∈ w.sent ∧
      m.report?.isSome ∧ admits w.server m = false ∧
      (w.agent.records.row (Backup.sampleID 6)).any (fun r =>
        m = .result (r.result w.agentID) && !r.uploaded) ∧
      ∀ later w', w.run later = some w' → admits w'.server m = false := by
  have hrun : (sampleWorld.run sampleCrash).any fun w =>
      samplePoison ∈ w.sent && !admits w.server samplePoison &&
        (w.agent.records.row (Backup.sampleID 6)).any (fun r =>
          samplePoison = .result (r.result w.agentID) && !r.uploaded) := by
    decide +kernel
  obtain ⟨w, hw, hfacts⟩ := (Option.any_eq_true _ _).mp hrun
  simp only [Bool.and_eq_true, decide_eq_true_eq, Bool.not_eq_true'] at hfacts
  obtain ⟨⟨hm, hno⟩, hrecord⟩ := hfacts
  refine ⟨sampleWorld, sampleCrash, w, samplePoison, sampleWorld_initial, hw, hm, rfl, hno, ?_,
    fun later w' hlater => refused_forever sampleWorld_initial hw hm rfl hno hlater⟩
  simpa using hrecord

end RestFleet.Agent.World
