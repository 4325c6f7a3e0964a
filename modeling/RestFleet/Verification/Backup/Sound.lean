import RestFleet.Verification.Backup.Trail

/-! # The server refines its journal -/

namespace RestFleet.Backup

variable {start : Database} {t : ℕ} {α : Type}

/-- The outline of the journal. -/
abbrev Safely (start : Database) (t : ℕ) (A : Tx.State schema → Prop) (p : BackupProgram α)
    (Q : α → Tx.State schema → Prop) : Prop :=
  (Tx.outline arrivals (journal start).discipline).Triple t A p Q

theorem done_safely {A : Tx.State schema → Prop} {a : α} :
    Safely start t A (.done a : BackupProgram α) fun _ _ => True :=
  fun _ _ _ _ _ => trivial

theorem run_safely {body : BackupM α}
    (h : Spec start t (Within t [] id fun _ => True) body fun _ _ => True) :
    Safely start t (fun _ => True) (run body) fun _ _ => True :=
  Outline.Triple.bind (Tx.Body.transaction (P := fun _ => True) (R := fun _ _ => True) keeps_true
    (fun _ => keeps_true) h) fun _ => done_safely

/-! ## Reports -/

theorem handleProgress_safely (p : Progress) :
    Safely start t (fun _ => True) (handleProgress p) fun _ _ => True := by
  unfold handleProgress recordOperationProgress
  split
  · exact done_safely
  · split
    · exact done_safely
    · exact run_safely (upsertOperationProgress_spec p)

theorem final_of_check {r : Result} {u : Unit} (h : r.check = .ok u) : r.status.final := by
  unfold Result.check at h
  split at h
  · cases h
  split at h
  · cases h
  split at h
  · cases h
  split at h
  · cases h
  split at h
  · cases h
  · rename_i hf
    simpa using hf

theorem attempt_of_links {r : Report} (h : reportedOperationLinks r) : 0 ≤ r.attempt := by
  simp only [reportedOperationLinks, Bool.and_eq_true, decide_eq_true_eq] at h
  exact h.1.1

theorem acknowledge_safely (r : Result) (outcome : Except BackupError Unit) :
    Safely start t (fun s => ∀ a, outcome = .ok a → Recorded r s.db) (acknowledge r outcome)
      fun _ _ => True := by
  cases outcome with
  | error e => exact done_safely
  | ok u =>
      refine Outline.Triple.bind (R := fun _ _ => True) ?_ fun _ => done_safely
      refine Outline.Triple.conseq (Tx.Body.transaction (P := Recorded r) (R := fun _ _ => True)
        (keeps_recorded r) (fun _ => keeps_true) ?_) (fun s h => h u rfl) fun _ _ _ _ => trivial
      exact note_last (.acknowledged r) (keeps_recorded r) (fun _ _ => rfl) (fun _ _ h => h)
        (fun _ h => h.elim) rfl

theorem handleResult_safely (r : Result) :
    Safely start t (fun _ => True) (handleResult r) fun _ _ => True := by
  unfold handleResult recordOperationResult
  split
  · exact done_safely
  · rename_i hlinks
    have ha : 0 ≤ r.attempt := attempt_of_links (by simpa using hlinks)
    split
    · exact done_safely
    · rename_i hc
      refine Outline.Triple.bind ?_ (acknowledge_safely r)
      refine Tx.Body.transaction (P := fun _ => True) (R := fun _ => Recorded r) keeps_true
        (fun _ => keeps_recorded r) ?_
      exact (upsertOperationResult_spec (final_of_check hc) ha).conseq (fun _ h => h)
        fun _ _ _ h => h.fact

/-! ## Dispatch -/

/-- What the second read of a dispatch leaves known. -/
structure Reread (t : ℕ) (now : Stamp) (found : Operation × ℕ) (db : Database) : Prop where
  unused : Unused t found.1.id now db
  checked : found.1.status = .queued → found.2 ≤ db.trail.length ∧
    ∀ e ∈ db.trail.take found.2, ¬ e.cancels found.1.id

theorem keeps_reread (now : Stamp) (found : Operation × ℕ) {keys : List Key} :
    Keeps start t keys (Reread t now found) := by
  have hU : Keeps start t keys (Unused t found.1.id now) := keeps_unused found.1.id now
  have hC : Keeps start t keys fun db => found.1.status = .queued →
      found.2 ≤ db.trail.length ∧ ∀ e ∈ db.trail.take found.2, ¬ e.cancels found.1.id := by
    refine keeps_of_entry fun e db _ h hq => ?_
    obtain ⟨hle, hc⟩ := h hq
    rw [commit_trail, List.take_append_of_le_length hle]
    exact ⟨by simp; omega, hc⟩
  exact fun db db' hf ho he h =>
    ⟨hU db db' hf ho he h.unused, hC db db' hf ho he h.checked⟩

theorem readOperation_spec (hs : start.Fresh) {op : UUID} {now : Stamp} :
    Spec start t (Within t [] id (Unused t op now)) (readOperation op)
      fun found s => Reread t now found s.db := by
  have hU : Keeps start t [] (Unused t op now) := keeps_unused op now
  refine Tx.Body.view (R := fun v db => (RowsOk v ∧ TrailOk v) ∧ v.trail.length ≤ db.trail.length ∧
    db.trail.take v.trail.length = v.trail ∧ Unused t op now db) hU
    (fun db hr h => ⟨⟨rowsOk_of_reaches (rowsOk_of_fresh hs) hr, trailOk_of_reaches hs hr⟩,
      Nat.le_refl _, List.take_length, h⟩) fun v => ?_
  refine Tx.Body.of_fact fun hv => ?_
  split
  · exact Tx.Body.throw
  · rename_i o ho
    have hid : o.id = op := (hv.1 op o ho).2
    have hT : Keeps start t [] fun db => v.trail.length ≤ db.trail.length ∧
        db.trail.take v.trail.length = v.trail := by
      refine keeps_of_entry fun e db _ h => ?_
      rw [commit_trail, List.take_append_of_le_length h.1]
      exact ⟨by simp; omega, h.2⟩
    have hK : Keeps start t [] fun db => v.trail.length ≤ db.trail.length ∧
        db.trail.take v.trail.length = v.trail ∧ Unused t op now db :=
      fun db db' hf hown he h => ⟨(hT db db' hf hown he ⟨h.1, h.2.1⟩).1,
        (hT db db' hf hown he ⟨h.1, h.2.1⟩).2, hU db db' hf hown he h.2.2⟩
    refine Tx.Body.pure (Tx.stable_in hK) fun s _ h => ⟨?_, fun hq => ⟨h.fact.1, ?_⟩⟩
    · rw [hid]
      exact h.fact.2.2
    · rw [h.fact.2.1, hid]
      exact hv.2.not_canceled ho hq

theorem sendDispatch_spec {found : Operation × ℕ} {now : Stamp} (hq : found.1.status = .queued) :
    Spec start t (Within t [] id (Reread t now found)) (sendDispatch found.1.id now found.2)
      fun _ _ => True := by
  have hR : Keeps start t [] (Reread t now found) := keeps_reread now found
  refine Tx.Body.self hR (Tx.Body.write hR (Tx.Body.last ?_))
  refine commit_spec (.dispatched t found.1.id now found.2) (fun _ => True) hR (fun _ _ => rfl)
    (fun db _ h => ⟨h.unused, (h.checked hq).1, (h.checked hq).2⟩) (fun _ h => h.elim) ?_
    (fun _ _ _ => trivial) (Tx.Body.return keeps_true fun _ _ _ => trivial)
  intro u hu
  exact (Option.some.inj hu).symm

theorem dispatchIfQueued_safely (now : Stamp) (current : Except BackupError (Operation × ℕ)) :
    Safely start t (fun s => ∀ found, current = .ok found → Reread t now found s.db)
      (dispatchIfQueued now current) fun _ _ => True := by
  cases current with
  | error e => exact done_safely
  | ok found =>
      unfold dispatchIfQueued
      simp only
      split
      · exact done_safely
      · rename_i hq
        refine Outline.Triple.bind (R := fun _ _ => True) ?_ fun _ => done_safely
        exact Outline.Triple.conseq (Tx.Body.transaction (P := Reread t now found)
          (R := fun _ _ => True) (keeps_reread now found) (fun _ => keeps_true)
          (sendDispatch_spec (by simpa using hq))) (fun s h => h found rfl) fun _ _ _ _ => trivial

theorem dispatchClaimed_safely (hs : start.Fresh) (now : Stamp)
    (claimed : Except BackupError (Option Operation)) :
    Safely start t (fun s => ∀ r, claimed = .ok r → ∀ o, r = some o → Unused t o.id now s.db)
      (dispatchClaimed now claimed) fun _ _ => True := by
  cases claimed with
  | error e => exact done_safely
  | ok r =>
      cases r with
      | none => exact done_safely
      | some o =>
          refine Outline.Triple.bind ?_ (dispatchIfQueued_safely now)
          exact Outline.Triple.conseq (Tx.Body.transaction (P := Unused t o.id now)
            (R := fun found => Reread t now found) (keeps_unused o.id now)
            (fun found => keeps_reread now found) (readOperation_spec hs)) (fun s h => h _ rfl o rfl) fun _ _ _ h => h

theorem keeps_claims {r : Option Operation} {now : Stamp} {keys : List Key} :
    Keeps start t keys fun db => ∀ o, r = some o → Unused t o.id now db :=
  fun db db' hf ho he h o hr => keeps_unused o.id now db db' hf ho he (h o hr)

theorem dispatchQueuedJob_safely (hs : start.Fresh) (agentID : UUID) (now : Stamp) :
    Safely start t (fun _ => True) (dispatchQueuedJob agentID now) fun _ _ => True := by
  refine Outline.Triple.bind ?_ (dispatchClaimed_safely hs now)
  exact Tx.Body.transaction (P := fun _ => True)
    (R := fun r db => ∀ o : Operation, r = some o → Unused t o.id now db) keeps_true
    (fun _ => keeps_claims)
    (claimManualOperationDispatch_spec (rowsOk_of_fresh hs) hs.trail agentID now)

/-! ## Every call -/

theorem call_safely (hs : start.Fresh) (c : Call) :
    Safely start t (fun _ => True) c.program fun _ _ => True := by
  cases c with
  | progress p => exact handleProgress_safely p
  | result r => exact handleResult_safely r
  | create id target key => exact run_safely (createManualOperation_spec id target key)
  | cancel id now key =>
      exact run_safely (cancelBackupOperation_spec (rowsOk_of_fresh hs) id now key)
  | dispatch agentID now => exact dispatchQueuedJob_safely hs agentID now
  | accept agentID id => exact run_safely (markOperationDispatched_spec agentID id)
  | reject agentID id now => exact run_safely (rejectManualOperation_spec agentID id now)
  | close cutoff now => exact run_safely (closeUnstartedCancellations_spec cutoff now)
  | reconcile bootCutoff now => exact run_safely (reconcileLostOperations_spec bootCutoff now)
  | connect agentID bootID now => exact run_safely (markAgentConnected_spec agentID bootID now)
  | setStatus planID agentID status revision expected now =>
      exact run_safely (updatePlanStatus_spec planID agentID status revision expected now)
  | revise planID agentID status hash revision expected now =>
      exact run_safely (savePlanRevision_spec planID agentID status hash revision expected now)

theorem arrivals_safely (hs : start.Fresh) (t : ℕ) (p : BackupProgram Unit) (hp : arrivals p) :
    Safely start t (fun _ => True) p fun _ _ => True := by
  obtain ⟨c, rfl⟩ := hp
  exact call_safely hs c

theorem reaches_of_reachable (hs : start.Fresh)
    {c : Config (Tx.State schema) ℕ (Tx.Op schema) (Tx.Reply schema)}
    (hc : server.Reachable (Tx.State.initial start) c) : (journal start).Reaches c.state.db :=
  Tx.Journal.reaches_of_reachable (J := journal start) (arrivals_safely hs) rfl hc

theorem extends_of_run (hs : start.Fresh)
    {c c' : Config (Tx.State schema) ℕ (Tx.Op schema) (Tx.Reply schema)}
    (hc : server.Reachable (Tx.State.initial start) c) (hrun : server.Run c c') :
    (journal start).Extends (fun _ => True) c.state.db c'.state.db := by
  have hsound := Tx.sound (arrivals_safely hs)
  have hi : (Tx.outline arrivals (journal start).discipline).inv (Tx.State.initial start) :=
    ⟨⟨start, rfl, .refl⟩, Tx.compatible_initial start⟩
  exact Tx.run_evolves hsound (hsound.reachable hi hc) hrun

end RestFleet.Backup
