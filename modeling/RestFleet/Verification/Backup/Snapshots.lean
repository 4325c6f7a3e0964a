import RestFleet.Verification.Backup.Operations

/-! # Acknowledged snapshots -/

namespace RestFleet.Backup

variable {start db : Database} {e : Entry} {op planID : UUID} {snapshotID : Text} {r : Result}
  {c : Config (Tx.State schema) ℕ (Tx.Op schema) (Tx.Reply schema)}

/-- The snapshot has a row in the repository of the plan. -/
def Database.indexed (db : Database) (planID : UUID) (snapshotID : Text) : Prop :=
  ∃ p, db.plans.row planID = some p ∧ (db.snapshots.row (p.repositoryID, snapshotID)).isSome

theorem isSome_upsert {κ α : Type} [DecidableEq κ] {t : Table κ α} {k k' : κ} {a : α} {f : α → α}
    (h : k' = k ∨ (t.row k').isSome) : ((t.upsert k a f).row k').isSome := by
  by_cases hk : k' = k
  · subst hk
    cases hrow : t.row k' with
    | none => simp [Table.row_upsert_none hrow]
    | some b => simp [Table.row_upsert_some hrow]
  · rw [Table.row_upsert_ne hk]
    exact h.resolve_left hk

theorem snapshots_commit {k : UUID × Text} (h : (db.snapshots.row k).isSome) :
    ((e.commit db).snapshots.row k).isSome := by
  rw [commit_snapshots]
  cases e with
  | resulted r p =>
      change (Table.row (ite _ _ _) k).isSome
      split
      · exact h
      · exact isSome_upsert (Or.inr h)
  | _ => exact h

theorem repositoryID_commit {p : Plan} (h : db.plans.row planID = some p) :
    ∃ q, (e.commit db).plans.row planID = some q ∧ q.repositoryID = p.repositoryID := by
  have hplace := commit_place e db planID
  rw [h] at hplace
  obtain ⟨q, hq, hp⟩ := Option.map_eq_some_iff.mp hplace
  exact ⟨q, hq, congrArg (·.2) hp⟩

theorem indexed_commit (h : db.indexed planID snapshotID) :
    (e.commit db).indexed planID snapshotID := by
  obtain ⟨p, hp, hrow⟩ := h
  obtain ⟨q, hq, hrepo⟩ := repositoryID_commit (e := e) hp
  refine ⟨q, hq, snapshots_commit ?_⟩
  rw [hrepo]
  exact hrow

/-- A result that is stored is indexed in the same commit. -/
theorem indexed_resulted {p : Plan} (hg : (Entry.resulted r p).Guard db) (hr : r.snapshotID ≠ []) :
    ((Entry.resulted r p).commit db).indexed r.planID r.snapshotID := by
  obtain ⟨q, hq, hrepo⟩ := (Option.any_eq_true _ _).mp hg.2.2
  obtain ⟨q', hq', hrepo'⟩ := repositoryID_commit (e := .resulted r p) hq
  refine ⟨q', hq', ?_⟩
  rw [hrepo', of_decide_eq_true hrepo, commit_snapshots]
  change (Table.row (ite _ _ _) _).isSome
  rw [if_neg hr]
  exact isSome_upsert (Or.inl rfl)

/-- The snapshot of a row, if it has one, is indexed. -/
def Database.covers (db : Database) (o : Operation) : Prop :=
  o.snapshotID ≠ [] → db.indexed o.planID o.snapshotID

theorem covers_of_same {o o' : Operation} (hp : o'.planID = o.planID)
    (hs : o'.snapshotID = o.snapshotID) (h : db.covers o) : db.covers o' := by
  rw [Database.covers, hp, hs]
  exact h

theorem covers_of_nil {o : Operation} (h : o.snapshotID = []) : db.covers o :=
  fun hne => absurd h hne

theorem planID_of_updatable {o : Operation} {r : Report} (h : o.updatable r) :
    o.planID = r.planID := by
  simp only [Operation.updatable, Bool.and_eq_true, decide_eq_true_eq] at h
  exact h.1.1.1.1.2

theorem respects_covers (hg : e.Guard db) :
    e.Respects op (fun o o' => (e.commit db).covers o → (e.commit db).covers o')
      (e.commit db).covers := by
  cases e with
  | progressed p =>
      refine fun _ => ⟨covers_of_nil rfl, fun o => ?_, fun o => ?_⟩
      · unfold Operation.progress
        split <;> exact covers_of_same rfl rfl
      · unfold Operation.count
        split <;> exact covers_of_same rfl rfl
  | resulted r p =>
      refine fun _ => ⟨indexed_resulted hg, fun o h => ?_, fun o s => covers_of_same rfl rfl⟩
      unfold Operation.finish
      split
      · rename_i hu
        intro hne
        change Database.indexed _ o.planID r.snapshotID
        rw [planID_of_updatable hu]
        exact indexed_resulted hg hne
      · exact h
  | created o key savedAt => exact fun _ => covers_of_nil hg.2.2.2.2
  | canceled found now key savedAt =>
      intro _ _ o
      split
      · unfold Operation.cancel
        split <;> exact covers_of_same rfl rfl
      · exact fun h => h
  | claimed stream i now retryBefore => exact fun _ o => covers_of_same rfl rfl
  | accepted i now =>
      intro _ o
      unfold Operation.accept
      split <;> exact covers_of_same rfl rfl
  | rejected i now =>
      intro _ o
      unfold Operation.reject
      split <;> exact covers_of_same rfl rfl
  | closed cutoff now ids =>
      intro _ o
      unfold Operation.closeUnstarted
      split <;> exact covers_of_same rfl rfl
  | reconciled bootCutoff now runs ids =>
      intro _ o a
      unfold Operation.reconcile
      split <;> exact covers_of_same rfl rfl
  | _ => trivial

/-! ## Along the journal -/

/-- The result is indexed, or it found its row finished with another snapshot. -/
def Settled (db : Database) (r : Result) : Prop :=
  db.indexed r.planID r.snapshotID ∨
    ∃ o, .repeated r o ∈ db.trail ∧ o.finishedAt.isSome ∧ o.snapshotID ≠ r.snapshotID

structure IndexOk (db : Database) : Prop where
  rows : ∀ op o, db.operations.row op = some o → db.covers o
  results : ∀ r, r.snapshotID ≠ [] → Recorded r db → Settled db r
  acknowledged : ∀ r, .acknowledged r ∈ db.trail → Recorded r db

theorem Settled.commit (h : Settled db r) : Settled (e.commit db) r := by
  rcases h with hi | ⟨o, hm, ho⟩
  · exact Or.inl (indexed_commit hi)
  · exact Or.inr ⟨o, by simp [hm], ho⟩

theorem planID_of_matching {o : Operation} {r : Report} (h : o.matchesReport r) :
    o.planID = r.planID := by
  simp only [Operation.matchesReport, Bool.and_eq_true, decide_eq_true_eq] at h
  exact h.1.1.2

theorem settled_of_last (h : IndexOk db) (hg : e.Guard db) (hr : r.snapshotID ≠ [])
    (he : (∃ p, e = .resulted r p) ∨ ∃ o, e = .repeated r o) : Settled (e.commit db) r := by
  rcases he with ⟨p, rfl⟩ | ⟨o, rfl⟩
  · exact Or.inl (indexed_resulted hg hr)
  · obtain ⟨hrow, hmatch, hfin⟩ := hg
    by_cases hs : o.snapshotID = r.snapshotID
    · have hcov : db.indexed o.planID o.snapshotID := h.rows _ o hrow (hs ▸ hr)
      rw [hs, planID_of_matching hmatch] at hcov
      exact Or.inl (indexed_commit hcov)
    · exact Or.inr ⟨o, by simp, hfin, hs⟩

theorem IndexOk.commit (h : IndexOk db) (hg : e.Guard db) : IndexOk (e.commit db) where
  rows := by
    refine fun op o ho => commit_row hg (respects_covers hg) (fun o ho hne => ?_) ho
    exact indexed_commit (h.rows op o ho hne)
  results := by
    rintro r hr ⟨e', hm, he'⟩
    rw [commit_trail] at hm
    rcases List.mem_append.mp hm with hm | hm
    · exact (h.results r hr ⟨e', hm, he'⟩).commit
    · rw [List.mem_singleton.mp hm] at he'
      exact settled_of_last h hg hr he'
  acknowledged := by
    intro r hm
    rw [commit_trail] at hm
    have hrec : Recorded r db := by
      rcases List.mem_append.mp hm with hm | hm
      · exact h.acknowledged r hm
      · rw [← List.mem_singleton.mp hm] at hg
        exact hg
    obtain ⟨e', he', hr⟩ := hrec
    exact ⟨e', by simp [he'], hr⟩

theorem indexOk_of_reaches (hs : start.Fresh) (h : (journal start).Reaches db) : IndexOk db := by
  refine keeps_of_reaches h (fun _ _ hg hok => hok.commit hg) ⟨?_, ?_, ?_⟩
  · simp [hs.operations]
  · simp [Recorded, hs.trail]
  · simp [hs.trail]

/-- Every acknowledged snapshot is indexed, except of results that found their operation already
finished with another snapshot. -/
theorem acknowledged_snapshot (hs : start.Fresh)
    (hc : server.Reachable (Tx.State.initial start) c)
    (hm : .acknowledged r ∈ c.state.db.trail) (hr : r.snapshotID ≠ []) :
    (∃ p, c.state.db.plans.row r.planID = some p ∧
      (c.state.db.snapshots.row (p.repositoryID, r.snapshotID)).isSome) ∨
    ∃ o, .repeated r o ∈ c.state.db.trail ∧ o.finishedAt.isSome ∧
      o.snapshotID ≠ r.snapshotID := by
  have hok := indexOk_of_reaches hs (reaches_of_reachable hs hc)
  exact hok.results r hr (hok.acknowledged r hm)

def sampleReport : Report := ⟨sampleID 5, sampleID 1, sampleID 3, 1, 10, none, none, 1⟩

def sampleProgress : Progress := ⟨sampleReport, 1, "backup".toList, 0, 0, 0, 0, 20⟩

def sampleResult : Result :=
  ⟨sampleReport, .succeeded, .none, 0, List.replicate 64 'a', 0, 0, 40, none⟩

def Database.acknowledges (db : Database) (r : Result) : Bool :=
  db.trail.any fun
    | .acknowledged r' => r' = r
    | _ => false

theorem mem_of_acknowledges (h : db.acknowledges r) : .acknowledged r ∈ db.trail := by
  obtain ⟨e, he, hr⟩ := List.any_eq_true.mp h
  cases e with
  | acknowledged r' =>
      have hr' : r' = r := by simpa using hr
      exact hr' ▸ he
  | _ => simp at hr

/-- A result that arrives while its operation runs. -/
theorem acknowledged_snapshot_running :
    ∃ c, server.Reachable (Tx.State.initial sampleStart) c ∧
      .acknowledged sampleResult ∈ c.state.db.trail ∧
      ((∃ p, c.state.db.plans.row sampleResult.planID = some p ∧
        (c.state.db.snapshots.row (p.repositoryID, sampleResult.snapshotID)).isSome) ∨
      ∃ o, .repeated sampleResult o ∈ c.state.db.trail ∧ o.finishedAt.isSome ∧
        o.snapshotID ≠ sampleResult.snapshotID) := by
  have hack : (serve [(.progress sampleProgress, 20), (.result sampleResult, 40)]
      sampleStart).acknowledges sampleResult := by decide +kernel
  obtain ⟨c, hc, hdb⟩ := serve_reachable [(.progress sampleProgress, 20),
    (.result sampleResult, 40)] sampleStart
  rw [← hdb] at hack
  have hm := mem_of_acknowledges hack
  exact ⟨c, hc, hm, acknowledged_snapshot sampleStart_fresh hc hm (by decide)⟩

/-- The Agent comes back with a new boot, and the operation that it ran is closed as lost before
its result arrives. -/
def sampleLate : List (Call × Stamp) :=
  [(.progress sampleProgress, 20), (.connect (sampleID 3) ['b'] 50, 50), (.reconcile 60 70, 70),
    (.result sampleResult, 80)]

/-- The late result is acknowledged, and its snapshot is not indexed. -/
theorem acknowledged_snapshot_lost :
    ∃ start, start.Fresh ∧ ∃ c r, server.Reachable (Tx.State.initial start) c ∧
      .acknowledged r ∈ c.state.db.trail ∧ r.snapshotID ≠ [] ∧
      ¬ ∃ p, c.state.db.plans.row r.planID = some p ∧
        (c.state.db.snapshots.row (p.repositoryID, r.snapshotID)).isSome := by
  have hlate : (serve sampleLate sampleStart).acknowledges sampleResult ∧
      ((serve sampleLate sampleStart).plans.row sampleResult.planID).all fun p =>
        ((serve sampleLate sampleStart).snapshots.row
          (p.repositoryID, sampleResult.snapshotID)).isNone := by decide +kernel
  obtain ⟨c, hc, hdb⟩ := serve_reachable sampleLate sampleStart
  rw [← hdb] at hlate
  refine ⟨sampleStart, sampleStart_fresh, c, sampleResult, hc, mem_of_acknowledges hlate.1,
    by decide, ?_⟩
  rintro ⟨p, hplan, hsome⟩
  have hnone := hlate.2
  rw [hplan] at hnone
  simp only [Option.all_some, Option.isNone_iff_eq_none] at hnone
  rw [hnone] at hsome
  cases hsome

end RestFleet.Backup
