import RestFleet.Model.Backup.Server

/-! # What happens to one row

No statement reopens a finished row or changes what the row is about. -/

namespace RestFleet.Backup

namespace Status

/-- Neither waiting for an Agent nor known to run. -/
def settled : Status → Bool
  | .queued | .running => false
  | _ => true

theorem settled_of_final {s : Status} (h : s.final = true) : s.settled = true := by
  cases s <;> simp_all [final, settled]

theorem eq_cancelRequested {s : Status} (hs : s.settled = true) (hf : s.final = false) :
    s = .cancelRequested := by
  cases s <;> simp_all [final, settled]

end Status

namespace Operation

variable {o o' o'' : Operation}

def identity (o : Operation) : UUID × UUID × UUID × ℤ × Option UUID × Option UUID × ℤ :=
  (o.id, o.agentID, o.planID, o.planRevision, o.parentOperationID, o.rootOperationID, o.attempt)

def outcome (o : Operation) : Status × Option Stamp × Option ℤ × ErrorCode × Text :=
  (o.status, o.finishedAt, o.exitCode, o.errorCode, o.snapshotID)

/-- `finished_at` is set exactly in the final statuses. -/
def Ok (o : Operation) : Prop := o.finishedAt.isSome = o.status.final

structure Next (o o' : Operation) : Prop where
  identity : o'.identity = o.identity
  outcome : o.finishedAt.isSome → o'.outcome = o.outcome
  settled : o.status.settled → o'.status.settled
  queued : o'.status = .queued → o.status = .queued

theorem Next.refl (o : Operation) : o.Next o := ⟨rfl, fun _ => rfl, fun h => h, fun h => h⟩

theorem Next.trans (h : o.Next o') (h' : o'.Next o'') : o.Next o'' := by
  refine ⟨h'.identity.trans h.identity, fun hf => ?_, fun hs => h'.settled (h.settled hs),
    fun hq => h.queued (h'.queued hq)⟩
  have heq : o'.outcome = o.outcome := h.outcome hf
  have hfin : o'.finishedAt = o.finishedAt := congrArg (·.2.1) heq
  exact (h'.outcome (hfin ▸ hf)).trans heq

theorem Next.id (h : o.Next o') : o'.id = o.id := congrArg (·.1) h.identity

/-- A step from `o`, if `o` was well formed. -/
def Step (o o' : Operation) : Prop := o.Ok → o.Next o' ∧ o'.Ok

theorem Step.refl (o : Operation) : o.Step o := fun h => ⟨.refl o, h⟩

theorem Step.trans (h : o.Step o') (h' : o'.Step o'') : o.Step o'' :=
  fun hok => ⟨(h hok).1.trans (h' (h hok).2).1, (h' (h hok).2).2⟩

theorem step_of_final (hf : o.finishedAt.isNone) (hid : o'.identity = o.identity)
    (hok : o'.finishedAt.isSome) (hs : o'.status.final) : o.Step o' := by
  refine fun _ => ⟨⟨hid, fun h => ?_, fun _ => Status.settled_of_final hs, fun h => ?_⟩, ?_⟩
  · simp [Option.isNone_iff_eq_none.mp hf] at h
  · simp [h, Status.final] at hs
  · rw [Ok, hok, hs]

theorem step_of_open (hf : o.finishedAt.isNone) (hid : o'.identity = o.identity)
    (hf' : o'.finishedAt.isNone) (hs : o'.status.final = false)
    (hc : o.status = .cancelRequested → o'.status = .cancelRequested)
    (hq : o'.status = .queued → o.status = .queued) : o.Step o' := by
  intro hok
  rw [Ok, Option.isNone_iff_eq_none.mp hf] at hok
  refine ⟨⟨hid, fun h => ?_, fun hset => ?_, hq⟩, ?_⟩
  · simp [Option.isNone_iff_eq_none.mp hf] at h
  · rw [hc (Status.eq_cancelRequested hset hok.symm)]
    rfl
  · rw [Ok, Option.isNone_iff_eq_none.mp hf', hs]
    rfl

theorem step_of_same (hid : o'.identity = o.identity) (ho : o'.outcome = o.outcome) :
    o.Step o' := by
  have hs : o'.status = o.status := congrArg (·.1) ho
  have hf : o'.finishedAt = o.finishedAt := congrArg (·.2.1) ho
  refine fun hok => ⟨⟨hid, fun _ => ho, fun h => hs ▸ h, fun h => hs ▸ h⟩, ?_⟩
  rw [Ok, hs, hf]
  exact hok

/-! ## The statements -/

theorem finishedAt_of_updatable {r : Report} (h : o.updatable r) : o.finishedAt.isNone := by
  simp only [updatable, Bool.and_eq_true] at h
  exact h.1.1.1.1.1.1

theorem progress_step (p : Progress) : o.Step (o.progress p) := by
  unfold progress
  split
  · rename_i h
    refine step_of_open (finishedAt_of_updatable h) rfl (finishedAt_of_updatable h) ?_ ?_ ?_
    · simp only
      split <;> rfl
    · intro hc
      simp [hc]
    · simp only
      split <;> simp
  · exact Step.refl o

theorem count_step (p : Progress) : o.Step (o.count p) := by
  unfold count
  split
  · exact step_of_same rfl rfl
  · exact Step.refl o

theorem finish_step {r : Result} (hr : r.status.final) : o.Step (o.finish r) := by
  unfold finish
  split
  · rename_i h
    exact step_of_final (finishedAt_of_updatable h) rfl rfl hr
  · exact Step.refl o

theorem summarize_step (s : Summary) : o.Step (o.summarize s) := step_of_same rfl rfl

theorem cancel_step {now : Stamp} :
    o.Step (if o.finishedAt.isNone then o.cancel now else o) := by
  split
  · rename_i h
    unfold cancel
    split
    · exact step_of_final h rfl rfl rfl
    · exact step_of_open h rfl h rfl (fun _ => rfl) (by simp)
  · exact Step.refl o

theorem dispatch_step (now : Stamp) : o.Step (o.dispatch now) := step_of_same rfl rfl

theorem closeUnstarted_step (cutoff now : Stamp) : o.Step (o.closeUnstarted cutoff now) := by
  unfold closeUnstarted
  split
  · rename_i h
    simp only [unstarted, Bool.and_eq_true] at h
    exact step_of_final h.1.2 rfl rfl rfl
  · exact Step.refl o

theorem reconcile_step (a : Agent) (bootCutoff now : Stamp) :
    o.Step (o.reconcile a bootCutoff now) := by
  unfold reconcile
  split
  · rename_i h
    simp only [lostWith, Bool.and_eq_true] at h
    exact step_of_final h.1.2 rfl rfl rfl
  · exact Step.refl o

theorem reject_step (now : Stamp) : o.Step (o.reject now) := by
  unfold reject
  split
  · rename_i h
    exact step_of_final (by simp [h.2.2]) rfl rfl rfl
  · exact Step.refl o

theorem accept_step (now : Stamp) : o.Step (o.accept now) := by
  unfold accept
  split
  · rename_i h
    have hf : o.finishedAt.isNone := by simp [h.2]
    rcases h.1 with hs | hs <;> refine step_of_open hf rfl hf ?_ ?_ ?_ <;>
      simp [hs, Status.final]
  · exact Step.refl o

end Operation

theorem Progress.newRow_ok (p : Progress) : p.newRow.Ok := rfl

theorem Result.newRow_ok {r : Result} (hr : r.status.final) : r.newRow.Ok := hr.symm

end RestFleet.Backup
