import RestFleet.Verification.Backup.Control

/-! # Claims, cancels and dispatches in the order of their commits -/

namespace RestFleet.Backup

variable {start db : Database} {e : Entry} {op : UUID} {o : Operation}

def Entry.reports (op : UUID) : Entry → Bool
  | .progressed p => p.operationID = op
  | .resulted r _ => r.operationID = op
  | .accepted i _ | .rejected i _ => i = op
  | _ => false

def Entry.claimTime (op : UUID) : Entry → Option Stamp
  | .claimed _ i now _ => if i = op then some now else none
  | _ => none

def claimTimes (op : UUID) (trail : List Entry) : List Stamp := trail.filterMap (Entry.claimTime op)

theorem claimTimes_snoc (trail : List Entry) :
    claimTimes op (trail ++ [e]) = claimTimes op trail ++ (e.claimTime op).toList := by
  cases h : e.claimTime op <;> simp [claimTimes, h]

def Untouched (op : UUID) (trail : List Entry) : Prop :=
  claimTimes op trail = [] ∧ ∀ e ∈ trail, ¬ e.reports op

theorem untouched_snoc {trail : List Entry} :
    Untouched op (trail ++ [e]) ↔
      Untouched op trail ∧ e.claimTime op = none ∧ ¬ e.reports op := by
  rw [Untouched, Untouched, claimTimes_snoc]
  cases h : e.claimTime op <;> simp [or_imp, forall_and, and_assoc]

/-- The statuses of an operation that no Agent has heard of. -/
def Status.early : Status → Bool
  | .queued | .canceled => true
  | _ => false

/-- What holds of an entry with respect to the entries before it. -/
def Entry.Follows (before : List Entry) : Entry → Prop
  | .canceled found _ _ _ =>
    Untouched found.id before → found.status = .queued ∧ found.dispatchedAt = none
  | .claimed _ op now _ => (∀ e ∈ before, ¬ e.cancels op) ∧
    ∀ t ∈ claimTimes op before, t + dispatchRetryAfter ≤ now
  | .dispatched stream op now seen => MayDispatch before stream op now seen
  | _ => True

structure TrailOk (db : Database) : Prop where
  canceled : ∀ e ∈ db.trail, ∀ op, e.cancels op →
    ∃ o, db.operations.row op = some o ∧ o.status.settled
  waiting : ∀ op o, db.operations.row op = some o → Untouched op db.trail → o.status.early
  unclaimed : ∀ op, db.operations.row op = none → claimTimes op db.trail = []
  claimed : ∀ op o, db.operations.row op = some o →
    o.dispatchedAt = (claimTimes op db.trail).getLast?
  spaced : ∀ op, (claimTimes op db.trail).Pairwise (· + dispatchRetryAfter ≤ ·)
  withdrawn : ∀ found now key savedAt, .canceled found now key savedAt ∈ db.trail →
    found.status = .queued → found.dispatchedAt = none →
    ∃ o, db.operations.row found.id = some o ∧ o.status = .canceled ∧ o.finishedAt.isSome
  checked : Checked (fun before e => e.Follows before) db.trail

/-! ## One entry -/

theorem respects_waiting (hg : e.Guard db) (hc : ¬ e.cancels op) (hr : ¬ e.reports op) :
    e.Respects op (fun o o' => o.status.early → o'.status.early) fun o => o.status.early := by
  cases e with
  | progressed p => exact fun hid => absurd (by simp [Entry.reports, hid]) hr
  | resulted r p => exact fun hid => absurd (by simp [Entry.reports, hid]) hr
  | created o key savedAt =>
      intro _
      rw [hg.2.1]
      rfl
  | canceled found now key savedAt => exact fun hid => absurd (by simp [Entry.cancels, hid]) hc
  | claimed stream i now retryBefore => exact fun _ o h => h
  | accepted i now => exact fun hid => absurd (by simp [Entry.reports, hid]) hr
  | rejected i now => exact fun hid => absurd (by simp [Entry.reports, hid]) hr
  | closed cutoff now ids =>
      intro _ o h
      unfold Operation.closeUnstarted
      split
      · rfl
      · exact h
  | reconciled bootCutoff now runs ids =>
      intro _ o a h
      have hlost : o.lostWith a bootCutoff = false := by
        cases hs : o.status <;> simp_all [Status.early, Operation.lostWith]
      simpa [Operation.reconcile, hlost] using h
  | _ => trivial

theorem rowRule_dispatchedAt : RowRule (fun o o' => o'.dispatchedAt = o.dispatchedAt)
    fun o => o.dispatchedAt = none :=
  ⟨fun _ => rfl, fun _ _ _ h h' => h'.trans h, fun _ _ h h' => h'.trans h⟩

theorem respects_dispatchedAt (hg : e.Guard db) (hc : e.claimTime op = none) :
    e.Respects op (fun o o' => o'.dispatchedAt = o.dispatchedAt)
      fun o => o.dispatchedAt = none := by
  cases e with
  | progressed p =>
      refine fun _ => ⟨rfl, fun o => ?_, fun o => ?_⟩
      · unfold Operation.progress
        split <;> rfl
      · unfold Operation.count
        split <;> rfl
  | resulted r p =>
      refine fun _ => ⟨rfl, fun o => ?_, fun o s => rfl⟩
      unfold Operation.finish
      split <;> rfl
  | created o key savedAt => exact fun _ => hg.2.2.2.1
  | canceled found now key savedAt =>
      intro _ _ o
      split
      · unfold Operation.cancel
        split <;> rfl
      · rfl
  | claimed stream i now retryBefore =>
      intro hid
      simp [Entry.claimTime, hid] at hc
  | accepted i now =>
      intro _ o
      unfold Operation.accept
      split <;> rfl
  | rejected i now =>
      intro _ o
      unfold Operation.reject
      split <;> rfl
  | closed cutoff now ids =>
      intro _ o
      unfold Operation.closeUnstarted
      split <;> rfl
  | reconciled bootCutoff now runs ids =>
      intro _ o a
      unfold Operation.reconcile
      split <;> rfl
  | _ => trivial

theorem row_canceled {found : Operation} {now savedAt : Stamp} {key : RequestKey}
    (hg : (Entry.canceled found now key savedAt).Guard db) (hok : RowsOk db) :
    ((Entry.canceled found now key savedAt).commit db).operations.row found.id =
      some (if found.status = .cancelRequested then found else found.cancel now) := by
  have hf : found.finishedAt = none := by
    have hfin := (hok found.id found hg.1).1
    rw [Operation.Ok, hg.2] at hfin
    simpa using hfin
  change ((Entry.effect (.canceled found now key savedAt) db).operations.row found.id) = _
  rw [Entry.effect]
  split
  · exact hg.1
  · change ((db.operations.modify found.id _).row found.id) = _
    rw [Table.row_modify_self, hg.1]
    simp [hf]

theorem settled_cancel (now : Stamp) : (o.cancel now).status.settled := by
  unfold Operation.cancel
  split <;> rfl

theorem row_claimed {stream : ℕ} {now retryBefore : Stamp}
    (h : db.operations.row op = some o) :
    ((Entry.claimed stream op now retryBefore).commit db).operations.row op =
      some (o.dispatch now) := by
  change ((db.operations.modify op _).row op) = _
  rw [Table.row_modify_self, h]
  rfl

namespace TrailOk

theorem initial (h : db.operations = Table.empty) (ht : db.trail = []) : TrailOk db where
  canceled := by simp [ht]
  waiting := by simp [h]
  unclaimed := by simp [ht, claimTimes]
  claimed := by simp [h]
  spaced := by simp [ht, claimTimes]
  withdrawn := by simp [ht]
  checked := by
    rw [ht]
    exact Checked.nil

theorem canceled_commit (h : TrailOk db) (hok : RowsOk db) (hg : e.Guard db) :
    ∀ e' ∈ (e.commit db).trail, ∀ op, e'.cancels op →
      ∃ o, (e.commit db).operations.row op = some o ∧ o.status.settled := by
  intro e' he' op hc
  rw [commit_trail] at he'
  rcases List.mem_append.mp he' with he' | he'
  · obtain ⟨o, ho, hset⟩ := h.canceled e' he' op hc
    obtain ⟨o', ho', hn⟩ := hok.evolves hg op o ho
    exact ⟨o', ho', hn.settled hset⟩
  · rw [List.mem_singleton.mp he'] at hc
    cases e with
    | canceled found now key savedAt =>
        have hid : found.id = op := by simpa [Entry.cancels] using hc
        subst hid
        refine ⟨_, row_canceled hg hok, ?_⟩
        split
        · rename_i hs
          rw [hs]
          rfl
        · exact settled_cancel now
    | _ => simp [Entry.cancels] at hc

/-- A cancel that comes before every claim and report finds the row queued. -/
theorem queued_of_untouched (h : TrailOk db) {found : Operation}
    (hrow : db.operations.row found.id = some found) (hf : found.status.final = false)
    (hu : Untouched found.id db.trail) : found.status = .queued ∧ found.dispatchedAt = none := by
  have hearly : found.status.early := h.waiting found.id found hrow hu
  have hclaimed := h.claimed found.id found hrow
  rw [hu.1] at hclaimed
  refine ⟨?_, hclaimed⟩
  cases hs : found.status <;> simp_all [Status.early, Status.final]

theorem waiting_commit (h : TrailOk db) (hok : RowsOk db) (hg : e.Guard db) :
    ∀ op o, (e.commit db).operations.row op = some o → Untouched op (e.commit db).trail →
      o.status.early := by
  intro op o ho hu
  rw [commit_trail, untouched_snoc] at hu
  obtain ⟨hold, hclaim, hreport⟩ := hu
  by_cases hc : e.cancels op
  · cases e with
    | canceled found now key savedAt =>
        have hid : found.id = op := by simpa [Entry.cancels] using hc
        subst hid
        obtain ⟨hq, hd⟩ := h.queued_of_untouched hg.1 hg.2 hold
        rw [row_canceled hg hok] at ho
        cases ho
        simp [Operation.cancel, hq, hd, Status.early]
    | _ => simp [Entry.cancels] at hc
  · exact commit_row hg (respects_waiting hg hc hreport) (fun o ho => h.waiting op o ho hold) ho

theorem claimTime_eq_some {now : Stamp} (h : e.claimTime op = some now) :
    ∃ stream retryBefore, e = .claimed stream op now retryBefore := by
  cases e with
  | claimed stream i n retryBefore =>
      simp only [Entry.claimTime] at h
      split at h
      · rename_i hi
        cases h
        exact ⟨stream, retryBefore, by rw [hi]⟩
      · cases h
  | _ => simp [Entry.claimTime] at h

theorem unclaimed_commit (h : TrailOk db) (hok : RowsOk db) (hg : e.Guard db) :
    ∀ op, (e.commit db).operations.row op = none → claimTimes op (e.commit db).trail = [] := by
  intro op hn
  have hold : db.operations.row op = none := by
    by_contra hne
    obtain ⟨o, ho⟩ := Option.ne_none_iff_exists'.mp hne
    obtain ⟨o', ho', -⟩ := hok.evolves hg op o ho
    rw [hn] at ho'
    cases ho'
  rw [commit_trail, claimTimes_snoc, h.unclaimed op hold]
  cases hc : e.claimTime op with
  | none => rfl
  | some now =>
      obtain ⟨stream, retryBefore, rfl⟩ := claimTime_eq_some hc
      obtain ⟨-, o, ho, -⟩ := hg
      rw [hold] at ho
      cases ho

theorem claimed_commit (h : TrailOk db) (hg : e.Guard db) :
    ∀ op o, (e.commit db).operations.row op = some o →
      o.dispatchedAt = (claimTimes op (e.commit db).trail).getLast? := by
  intro op o ho
  rw [commit_trail, claimTimes_snoc]
  cases hc : e.claimTime op with
  | none =>
      have hstep := commit_rowStep rowRule_dispatchedAt hg (respects_dispatchedAt hg hc)
      rw [ho] at hstep
      simp only [Option.toList_none, List.append_nil]
      generalize hx : db.operations.row op = x at hstep
      cases hstep with
      | keep => exact h.claimed op o hx
      | insert hn =>
          rw [hn, h.unclaimed op hx]
          rfl
      | change hs =>
          rw [hs]
          exact h.claimed op _ hx
  | some now =>
      obtain ⟨stream, retryBefore, rfl⟩ := claimTime_eq_some hc
      obtain ⟨-, o', ho', -⟩ := hg
      rw [row_claimed ho'] at ho
      cases ho
      simp [Operation.dispatch]

/-- A claim comes at least the retry interval after the earlier ones. -/
theorem claim_after (h : TrailOk db) {stream : ℕ} {now retryBefore : Stamp}
    (hg : (Entry.claimed stream op now retryBefore).Guard db) :
    ∀ t ∈ claimTimes op db.trail, t + dispatchRetryAfter ≤ now := by
  obtain ⟨hr, o, ho, agentID, hc⟩ := hg
  intro t ht
  have hlast := h.claimed op o ho
  have hsp := h.spaced op
  obtain ⟨init, last, heq⟩ := List.eq_nil_or_concat' (claimTimes op db.trail) |>.resolve_left
    (List.ne_nil_of_mem ht)
  rw [heq] at hlast ht hsp
  have hle : last ≤ retryBefore := by
    have hd : o.dispatchedAt = some last := by simpa using hlast
    simp only [Operation.claimable, hd, Bool.and_eq_true] at hc
    simpa using hc.2
  rw [hr] at hle
  rcases List.mem_append.mp ht with ht | ht
  · have hpair : t + dispatchRetryAfter ≤ last :=
      (List.pairwise_append.mp hsp).2.2 t ht last (by simp)
    have hpos : now - dispatchRetryAfter ≤ now := Int.sub_le_self now (by decide)
    exact Int.le_trans hpair (Int.le_trans hle hpos)
  · rw [List.mem_singleton.mp ht]
    exact Int.add_le_of_le_sub_right hle

theorem spaced_commit (h : TrailOk db) (hg : e.Guard db) :
    ∀ op, (claimTimes op (e.commit db).trail).Pairwise (· + dispatchRetryAfter ≤ ·) := by
  intro op
  rw [commit_trail, claimTimes_snoc]
  cases hc : e.claimTime op with
  | none => simpa using h.spaced op
  | some now =>
      obtain ⟨stream, retryBefore, rfl⟩ := claimTime_eq_some hc
      refine List.pairwise_append.mpr ⟨h.spaced op, by simp, fun t ht u hu => ?_⟩
      have hu' : u = now := by simpa using hu
      rw [hu']
      exact h.claim_after hg t ht

theorem withdrawn_commit (h : TrailOk db) (hok : RowsOk db) (hg : e.Guard db) :
    ∀ found now key savedAt, .canceled found now key savedAt ∈ (e.commit db).trail →
      found.status = .queued → found.dispatchedAt = none →
      ∃ o, (e.commit db).operations.row found.id = some o ∧ o.status = .canceled ∧
        o.finishedAt.isSome := by
  intro found now key savedAt hm hq hd
  rw [commit_trail] at hm
  rcases List.mem_append.mp hm with hm | hm
  · obtain ⟨o, ho, hs, hf⟩ := h.withdrawn found now key savedAt hm hq hd
    obtain ⟨o', ho', hn⟩ := hok.evolves hg found.id o ho
    have hout := hn.outcome hf
    have hs' : o'.status = o.status := congrArg (·.1) hout
    have hf' : o'.finishedAt = o.finishedAt := congrArg (·.2.1) hout
    exact ⟨o', ho', hs'.trans hs, hf' ▸ hf⟩
  · have he := List.mem_singleton.mp hm
    subst he
    refine ⟨_, row_canceled hg hok, ?_⟩
    simp [Operation.cancel, hq, hd]

theorem follows (h : TrailOk db) (hg : e.Guard db) : e.Follows db.trail := by
  cases e with
  | canceled found now key savedAt =>
      exact h.queued_of_untouched hg.1 hg.2
  | claimed stream i now retryBefore =>
      refine ⟨fun e' he' hc => ?_, h.claim_after hg⟩
      obtain ⟨o, ho, hset⟩ := h.canceled e' he' i hc
      obtain ⟨-, o', ho', agentID, hclaim⟩ := hg
      rw [ho] at ho'
      cases ho'
      have hq : o.status = .queued := by
        simp only [Operation.claimable, Bool.and_eq_true, decide_eq_true_eq] at hclaim
        exact hclaim.1.2
      simp [hq, Status.settled] at hset
  | dispatched stream i now seen => exact hg
  | _ => trivial

theorem commit (h : TrailOk db) (hok : RowsOk db) (hg : e.Guard db) : TrailOk (e.commit db) where
  canceled := h.canceled_commit hok hg
  waiting := h.waiting_commit hok hg
  unclaimed := h.unclaimed_commit hok hg
  claimed := h.claimed_commit hg
  spaced := h.spaced_commit hg
  withdrawn := h.withdrawn_commit hok hg
  checked := by
    rw [commit_trail]
    exact h.checked.snoc (h.follows hg)

end TrailOk

theorem TrailOk.not_canceled (h : TrailOk db) (ho : db.operations.row op = some o)
    (hq : o.status = .queued) : ∀ e ∈ db.trail, ¬ e.cancels op := by
  intro e he hc
  obtain ⟨o', ho', hset⟩ := h.canceled e he op hc
  rw [ho] at ho'
  cases ho'
  simp [hq, Status.settled] at hset

theorem rowsOk_of_fresh (h : db.Fresh) : RowsOk db := by
  intro id o ho
  simp [h.operations] at ho

theorem trailOk_of_reaches (hs : start.Fresh) (h : (journal start).Reaches db) : TrailOk db := by
  have hboth : RowsOk db ∧ TrailOk db :=
    keeps_of_reaches (P := fun db => RowsOk db ∧ TrailOk db) h
      (fun _ _ hg hp => ⟨hp.1.commit hg, hp.2.commit hp.1 hg⟩)
      ⟨rowsOk_of_fresh hs, TrailOk.initial hs.operations hs.trail⟩
  exact hboth.2

end RestFleet.Backup
