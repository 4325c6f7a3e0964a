import RestFleet.Shared.History
import RestFleet.Verification.Backup.Row

/-! # The journal of backup operations

Every commit is one entry. Its guard is what the transaction has checked under its locks. -/

namespace RestFleet.Backup

/-- The rows that an update of several rows changes. -/
def Database.modifyEach (db : Database) (f : UUID → Operation → Operation) (ids : List UUID) :
    Database :=
  ids.foldl (fun db id => db.modifyOperation id (f id)) db

namespace Entry

def effect : Entry → Database → Database
  | .progressed p, db => db.applyProgress p
  | .resulted r p, db => db.applyResult r p
  | .created o key savedAt, db => (db.insertOperation o).saveRequest key o savedAt
  | .canceled found now key savedAt, db =>
    if found.status = .cancelRequested then db.saveRequest key found savedAt
    else (db.cancelRow found.id now).saveRequest key (found.cancel now) savedAt
  | .claimed _ id now _, db => db.claimRow id now
  | .accepted id now, db => db.modifyOperation id (·.accept now)
  | .rejected id now, db => db.modifyOperation id (·.reject now)
  | .closed cutoff now ids, db => db.modifyEach (fun _ o => o.closeUnstarted cutoff now) ids
  | .reconciled bootCutoff now runs ids, db => db.modifyEach (reconcileRow runs bootCutoff now) ids
  | .connected id bootID now, db => db.connectAgent id bootID now
  | .planned id status newest now, db => db.modifyPlan id (·.setStatus status newest now)
  | .revised id status hash now, db => db.modifyPlan id (·.revise status hash now)
  | .repeated _ _, db | .acknowledged _, db | .dispatched _ _ _ _, db => db

def commit (e : Entry) (db : Database) : Database := (e.effect db).note e

def touches : Entry → Key → Prop
  | .progressed p, k => k = .operation p.operationID ∨ k = .event p.operationID p.sequence
  | .resulted r _, k => k = .operation r.operationID ∨ k = .plan r.planID
  | .created o _ _, k | .canceled o _ _ _, k => k = .operation o.id
  | .claimed _ id _ _, k | .accepted id _, k | .rejected id _, k => k = .operation id
  | .closed _ _ ids, k | .reconciled _ _ _ ids, k => ∃ id ∈ ids, k = .operation id
  | .connected id _ _, k => k = .agent id
  | .planned id _ _ _, k | .revised id _ _ _, k => k = .plan id
  | .repeated _ _, _ | .acknowledged _, _ | .dispatched _ _ _ _, _ => False

/-- Claims and dispatches belong to a stream. -/
def author : Entry → Option ℕ
  | .claimed stream _ _ _ | .dispatched stream _ _ _ => some stream
  | _ => none

def cancels (id : UUID) : Entry → Bool
  | .canceled found _ _ _ => found.id = id
  | _ => false

def claims (stream : ℕ) (id : UUID) (now : Stamp) : Entry → Bool
  | .claimed s i n _ => s = stream && i = id && n = now
  | _ => false

def dispatches (stream : ℕ) (id : UUID) (now : Stamp) : Entry → Bool
  | .dispatched s i n _ => s = stream && i = id && n = now
  | _ => false

end Entry

/-- What a stream must have done before it dispatches: it has a claim left, and the row was not
canceled in what its check saw. -/
structure MayDispatch (trail : List Entry) (stream : ℕ) (id : UUID) (now : Stamp) (seen : ℕ) :
    Prop where
  unused : trail.countP (Entry.dispatches stream id now) < trail.countP (Entry.claims stream id now)
  bound : seen ≤ trail.length
  checked : ∀ e ∈ trail.take seen, ¬ e.cancels id

/-- What a transaction has checked when it commits an entry. -/
def Entry.Guard : Entry → Database → Prop
  | .progressed p, db => db.affects p.toReport
  | .resulted r p, db =>
    db.affects r.toReport ∧ r.status.final ∧
      (db.plans.row r.planID).any (·.repositoryID = p.repositoryID)
  | .repeated r o, db =>
    db.operations.row r.operationID = some o ∧ o.matchesReport r.toReport ∧ o.finishedAt.isSome
  | .acknowledged r, db => ∃ e ∈ db.trail, (∃ p, e = .resulted r p) ∨ ∃ o, e = .repeated r o
  | .created o _ _, db => db.operations.row o.id = none ∧ o.status = .queued ∧
    o.finishedAt = none ∧ o.dispatchedAt = none ∧ o.snapshotID = []
  | .canceled found _ _ _, db =>
    db.operations.row found.id = some found ∧ found.status.final = false
  | .claimed _ id now retryBefore, db => retryBefore = now - dispatchRetryAfter ∧
    ∃ o, db.operations.row id = some o ∧ ∃ agentID, o.claimable agentID retryBefore
  | .dispatched stream id now seen, db => MayDispatch db.trail stream id now seen
  | _, _ => True

def journal (start : Database) : Tx.Journal schema where
  Event := Entry
  initial := fun db => db = start
  apply := Entry.commit
  guard := Entry.Guard
  touches := Entry.touches
  author := Entry.author

/-! ## Rows -/

/-- A relation between versions of a row, with what it says about new rows. -/
structure RowRule (R : Operation → Operation → Prop) (N : Operation → Prop) : Prop where
  refl : ∀ o, R o o
  trans : ∀ o o' o'', R o o' → R o' o'' → R o o''
  new : ∀ o o', N o → R o o' → N o'

/-- What the entry's functions of the row `id` must satisfy. -/
def Entry.Respects (e : Entry) (id : UUID) (R : Operation → Operation → Prop)
    (N : Operation → Prop) : Prop :=
  match e with
  | .progressed p => p.operationID = id →
    N p.newRow ∧ (∀ o, R o (o.progress p)) ∧ ∀ o, R o (o.count p)
  | .resulted r _ => r.operationID = id →
    N r.newRow ∧ (∀ o, R o (o.finish r)) ∧ ∀ o s, R o (o.summarize s)
  | .created o _ _ => o.id = id → N o
  | .canceled found now _ _ => found.id = id → found.status ≠ .cancelRequested →
    ∀ o, R o (if o.finishedAt.isNone then o.cancel now else o)
  | .claimed _ i now _ => i = id → ∀ o, R o (o.dispatch now)
  | .accepted i now => i = id → ∀ o, R o (o.accept now)
  | .rejected i now => i = id → ∀ o, R o (o.reject now)
  | .closed cutoff now ids => id ∈ ids → ∀ o, R o (o.closeUnstarted cutoff now)
  | .reconciled bootCutoff now _ ids => id ∈ ids → ∀ o a, R o (o.reconcile a bootCutoff now)
  | _ => True

/-- How the row under one key may change. -/
inductive RowStep (R : Operation → Operation → Prop) (N : Operation → Prop) :
    Option Operation → Option Operation → Prop where
  | keep (x : Option Operation) : RowStep R N x x
  | insert {o : Operation} (h : N o) : RowStep R N none (some o)
  | change {o o' : Operation} (h : R o o') : RowStep R N (some o) (some o')

namespace RowStep

variable {R : Operation → Operation → Prop} {N : Operation → Prop} {x y z : Option Operation}
  {t : Table UUID Operation} {k id : UUID} {o : Operation} {f : Operation → Operation}

theorem trans (hR : RowRule R N) (h : RowStep R N x y) (h' : RowStep R N y z) :
    RowStep R N x z := by
  cases h with
  | keep => exact h'
  | insert ho =>
      cases h' with
      | keep => exact .insert ho
      | change hs => exact .insert (hR.new _ _ ho hs)
  | change hs =>
      cases h' with
      | keep => exact .change hs
      | change hs' => exact .change (hR.trans _ _ _ hs hs')

theorem modify (h : k = id → ∀ o, R o (f o)) : RowStep R N (t.row id) ((t.modify k f).row id) := by
  by_cases hk : id = k
  · subst hk
    rw [Table.row_modify_self]
    cases t.row id with
    | none => exact .keep none
    | some o => exact .change (h rfl o)
  · rw [Table.row_modify_ne hk]
    exact .keep _

theorem insertRow (hn : t.row k = none) (ho : k = id → N o) :
    RowStep R N (t.row id) ((t.insert k o).row id) := by
  by_cases hk : id = k
  · subst hk
    rw [Table.row_insert_self, hn]
    exact .insert (ho rfl)
  · rw [Table.row_insert_ne hk]
    exact .keep _

theorem upsert (ho : k = id → N o) (h : k = id → ∀ o, R o (f o)) :
    RowStep R N (t.row id) ((t.upsert k o f).row id) := by
  unfold Table.upsert
  split
  · rename_i hn
    exact insertRow hn ho
  · exact modify h

end RowStep

variable {db : Database} {e : Entry} {id : UUID} {R : Operation → Operation → Prop}
  {N : Operation → Prop}

theorem applyProgress_rowStep (hR : RowRule R N) {p : Progress}
    (h : Entry.Respects (.progressed p) id R N) :
    RowStep R N (db.operations.row id) ((db.applyProgress p).operations.row id) := by
  have hup : RowStep R N (db.operations.row id) ((db.upsertProgress p).operations.row id) :=
    RowStep.upsert (fun hid => (h hid).1) fun hid => (h hid).2.1
  unfold Database.applyProgress
  simp only
  split
  · exact hup
  · refine hup.trans hR ?_
    unfold Database.updateCounters
    split
    · exact RowStep.modify fun hid => (h hid).2.2
    · exact .keep _

theorem applyResult_rowStep (hR : RowRule R N) {r : Result} {p : Plan}
    (h : Entry.Respects (.resulted r p) id R N) :
    RowStep R N (db.operations.row id) ((db.applyResult r p).operations.row id) := by
  have hup : RowStep R N (db.operations.row id) ((db.upsertResult r).operations.row id) :=
    RowStep.upsert (fun hid => (h hid).1) fun hid => (h hid).2.1
  have hsum : RowStep R N ((db.upsertResult r).operations.row id)
      (((db.upsertResult r).storeSummary r).operations.row id) := by
    unfold Database.storeSummary
    split
    · exact .keep _
    · exact RowStep.modify fun hid o => (h hid).2.2 o _
  unfold Database.applyResult
  simp only
  split <;> exact hup.trans hR hsum

theorem modifyEach_rowStep (hR : RowRule R N) {f : UUID → Operation → Operation}
    (ids : List UUID) (h : id ∈ ids → ∀ o, R o (f id o)) (db : Database) :
    RowStep R N (db.operations.row id) ((db.modifyEach f ids).operations.row id) := by
  induction ids generalizing db with
  | nil => exact .keep _
  | cons i rest ih =>
      have hstep : RowStep R N (db.operations.row id)
          ((db.modifyOperation i (f i)).operations.row id) := by
        refine RowStep.modify fun hid => ?_
        subst hid
        exact h List.mem_cons_self
      have hrest : id ∈ rest → ∀ o, R o (f id o) := fun hm => h (List.mem_cons_of_mem i hm)
      exact hstep.trans hR (ih hrest (db.modifyOperation i (f i)))

theorem commit_rowStep (hR : RowRule R N) (hg : e.Guard db) (h : e.Respects id R N) :
    RowStep R N (db.operations.row id) ((e.commit db).operations.row id) := by
  cases e with
  | progressed p => exact applyProgress_rowStep hR h
  | resulted r p => exact applyResult_rowStep hR h
  | repeated r o => exact .keep _
  | acknowledged r => exact .keep _
  | created o key savedAt => exact RowStep.insertRow hg.1 h
  | canceled found now key savedAt =>
      change RowStep R N _ ((Entry.effect (.canceled found now key savedAt) db).operations.row id)
      rw [Entry.effect]
      split
      · exact .keep _
      · rename_i hc
        exact RowStep.modify fun hid => h hid hc
  | claimed stream i now retryBefore => exact RowStep.modify h
  | dispatched stream i now seen => exact .keep _
  | accepted i now => exact RowStep.modify h
  | rejected i now => exact RowStep.modify h
  | closed cutoff now ids =>
      exact modifyEach_rowStep (f := fun _ o => o.closeUnstarted cutoff now) hR ids h db
  | reconciled bootCutoff now runs ids =>
      refine modifyEach_rowStep hR ids (fun hm o => ?_) db
      unfold reconcileRow
      split
      · exact hR.refl o
      · exact h hm o _
  | connected i bootID now => exact .keep _
  | planned i status newest now => exact .keep _
  | revised i status hash now => exact .keep _

theorem rowRule_preserves (N : Operation → Prop) : RowRule (fun o o' => N o → N o') N :=
  ⟨fun _ h => h, fun _ _ _ h h' hn => h' (h hn), fun _ _ h h' => h' h⟩

theorem commit_row (hg : e.Guard db) (h : e.Respects id (fun o o' => N o → N o') N)
    (hold : ∀ o, db.operations.row id = some o → N o) {o : Operation}
    (ho : (e.commit db).operations.row id = some o) : N o := by
  have hstep := commit_rowStep (rowRule_preserves N) hg h
  rw [ho] at hstep
  generalize hx : db.operations.row id = x at hstep
  cases hstep with
  | keep => exact hold o hx
  | insert hn => exact hn
  | change hs => exact hs (hold _ hx)

end RestFleet.Backup
