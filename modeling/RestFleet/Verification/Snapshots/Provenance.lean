import RestFleet.Verification.Snapshots.Sound

/-! # Where snapshots come from -/

namespace RestFleet.Snapshots

/-- The snapshots that results recorded, each with its operation and its plan. -/
def recordings (trail : List Entry) : List ((UUID × Text) × UUID × UUID) :=
  trail.filterMap fun
    | .recorded r p _ => some ((p.repositoryID, r.snapshotID), r.operationID, r.planID)
    | .indexed .. => none

/-- A row that a result recorded names its operation and its plan, and a row that is not managed
names no plan, Agent or operation. -/
structure Provenance (trail : List Entry) (rows : Table (UUID × Text) Row) : Prop where
  recorded : ∀ x ∈ recordings trail, ∃ row, rows.row x.1 = some row ∧
    row.operationID = some x.2.1 ∧ row.planID = some x.2.2
  unmanaged : ∀ k row, rows.row k = some row → row.managed = false →
    row.planID = none ∧ row.agentID = none ∧ row.operationID = none

/-- The commit does not write over what a result of another operation recorded, and what it indexes
belongs to a plan. -/
def Entry.Clean (before : List Entry) : Entry → Prop
  | .recorded r p _ => ∀ x ∈ recordings before, x.1 = (p.repositoryID, r.snapshotID) →
    x.2 = (r.operationID, r.planID)
  | .indexed _ repositoryID _ rows _ _ => ∀ y ∈ rows, y.2.managed = true ∧
    ∀ x ∈ recordings before, x.1 ≠ (repositoryID, y.1)

instance (before : List Entry) (e : Entry) : Decidable (e.Clean before) := by
  cases e <;> exact inferInstanceAs (Decidable (∀ _ ∈ _, _))

variable {before : List Entry} {e : Entry} {rows : Table (UUID × Text) Row}

theorem recordings_snoc (before : List Entry) (e : Entry) :
    recordings (before ++ [e]) = recordings before ++ recordings [e] := by
  simp [recordings, List.filterMap_append]

theorem row_indexed (operationID repositoryID : UUID) (since : ℕ) (list : List (Text × Row))
    (marked : List Text) (now : Stamp) (rows : Table (UUID × Text) Row) (k : UUID × Text) :
    ∃ missing : Row → Option Stamp,
      ((Entry.indexed operationID repositoryID since list marked now).apply rows).row k =
          (rows.row k).map (fun row => { row with missingAt := missing row }) ∨
      ∃ y ∈ list, k = (repositoryID, y.1) ∧
        ((Entry.indexed operationID repositoryID since list marked now).apply rows).row k =
          some { y.2 with missingAt := missing y.2 } := by
  obtain ⟨missing, hmarks⟩ := row_markRows repositoryID now marked
    (putRows repositoryID list rows) k
  refine ⟨missing, ?_⟩
  rcases row_putRows repositoryID list rows k with h | ⟨y, hy, hk, h⟩
  · rw [h] at hmarks
    exact Or.inl hmarks
  · rw [h] at hmarks
    exact Or.inr ⟨y, hy, hk, hmarks⟩

theorem Provenance.recordRow (h : Provenance before rows) {r : Backup.Result} {p : Backup.Plan}
    {now : Stamp} (hclean : (Entry.recorded r p now).Clean before) :
    Provenance (before ++ [.recorded r p now]) (recordRow rows r p now) := by
  obtain ⟨new, hnew, hop, hplan, hmanaged⟩ := row_recordRow_self rows r p now
  refine ⟨fun x hx => ?_, fun k row hrow hun => ?_⟩
  · by_cases hk : x.1 = (p.repositoryID, r.snapshotID)
    · have hx2 : x.2 = (r.operationID, r.planID) := by
        rw [recordings_snoc] at hx
        rcases List.mem_append.mp hx with hx | hx
        · exact hclean x hx hk
        · rw [List.mem_singleton.mp hx]
      rw [hk, hx2]
      exact ⟨new, hnew, hop, hplan⟩
    · rw [recordings_snoc] at hx
      rcases List.mem_append.mp hx with hx | hx
      · obtain ⟨row, hrow, hnames⟩ := h.recorded x hx
        exact ⟨row, (Table.row_upsert_ne hk).trans hrow, hnames⟩
      · rw [List.mem_singleton.mp hx] at hk
        exact absurd rfl hk
  · by_cases hk : k = (p.repositoryID, r.snapshotID)
    · rw [hk, hnew] at hrow
      cases hrow
      rw [hmanaged] at hun
      cases hun
    · exact h.unmanaged k row ((Table.row_upsert_ne hk).symm.trans hrow) hun

theorem Provenance.indexed (h : Provenance before rows) {operationID repositoryID : UUID}
    {since : ℕ} {list : List (Text × Row)} {marked : List Text} {now : Stamp}
    (hclean : (Entry.indexed operationID repositoryID since list marked now).Clean before) :
    Provenance (before ++ [.indexed operationID repositoryID since list marked now])
      ((Entry.indexed operationID repositoryID since list marked now).apply rows) := by
  refine ⟨fun x hx => ?_, fun k row hrow hun => ?_⟩
  · rw [recordings_snoc] at hx
    rcases List.mem_append.mp hx with hx | hx
    · obtain ⟨row, hold, hop, hplan⟩ := h.recorded x hx
      obtain ⟨missing, hsame | ⟨y, hy, hk, -⟩⟩ := row_indexed operationID
        repositoryID since list marked now rows x.1
      · rw [hold] at hsame
        exact ⟨_, hsame, hop, hplan⟩
      · exact absurd hk ((hclean y hy).2 x hx)
    · cases hx
  · obtain ⟨missing, hsame | ⟨y, hy, -, hnew⟩⟩ := row_indexed operationID
        repositoryID since list marked now rows k
    · rw [hsame] at hrow
      obtain ⟨old, hold, rfl⟩ := Option.map_eq_some_iff.mp hrow
      exact h.unmanaged k old hold hun
    · rw [hnew] at hrow
      cases hrow
      have hmanaged : y.2.managed = true := (hclean y hy).1
      rw [show y.2.managed = false from hun] at hmanaged
      cases hmanaged

theorem provenance_replay {trail : List Entry} (h : Checked Entry.Clean trail) :
    Provenance trail (replay trail) := by
  induction h using Checked.induction with
  | nil => exact ⟨by simp [recordings], by simp [replay]⟩
  | snoc before e _ he ih =>
      rw [replay_snoc]
      cases e with
      | recorded r p now => exact ih.recordRow he
      | indexed operationID repositoryID since rows marked now => exact ih.indexed he

/-- As long as every commit is clean, every row keeps its provenance. -/
theorem provenance_of_clean {site : Store.Site} {start : Database}
    {c : Config (Tx.State schema) ℕ (Tx.Op schema) (Tx.Reply schema)} (hs : start.Fresh)
    (hc : (server site).Reachable (Tx.State.initial start) c)
    (hclean : Checked Entry.Clean c.state.db.trail) :
    Provenance c.state.db.trail c.state.db.rows := by
  rw [(sound_of_reachable hs hc).rows]
  exact provenance_replay hclean

open Backup (sampleID sampleResult)

/-- A result of a backup, and then an index run that lists what is given. -/
def indexAfterResult (listing : List Restic.IndexedSnapshot) : List Move :=
  [.call 0 (.result sampleResult), .go 0 100 10 [],
    .call 1 (.index (sampleID 14) (sampleID 15) ""), .go 1 100 20 listing]

theorem indexAfterResult_arrives (listing : List Restic.IndexedSnapshot) :
    ∀ move ∈ indexAfterResult listing, move.Arrives sampleSite := by
  simp [indexAfterResult, Move.Arrives, Call.Arrives]

/-- An index run that lists another snapshot of the plan. -/
theorem provenance_of_clean_listing :
    ∃ c, (server sampleSite).Reachable (Tx.State.initial sampleStart) c ∧
      c.state.db.trail.length = 2 ∧ Checked Entry.Clean c.state.db.trail ∧
      Provenance c.state.db.trail c.state.db.rows := by
  have hplay : (play sampleSite sampleStart (indexAfterResult [sampleSnapshot 'b' planTags])).any
      (fun m => m.db.trail.length = 2 ∧ Checked Entry.Clean m.db.trail) = true := by
    decide +kernel
  obtain ⟨m, hm, hchecks⟩ := (Option.any_eq_true _ _).mp hplay
  obtain ⟨hlength, hclean⟩ := of_decide_eq_true hchecks
  have hreach := reachable_of_play (indexAfterResult_arrives _) hm
  exact ⟨_, hreach, hlength, hclean, provenance_of_clean sampleStart_fresh hreach hclean⟩

/-- The index run lists the snapshot that the result recorded, and one that no plan took: the first
row names the operation of the index from now on, and the second, which is not managed, too. -/
theorem provenance_overwritten :
    ∃ c, (server sampleSite).Reachable (Tx.State.initial sampleStart) c ∧
      ¬ Provenance c.state.db.trail c.state.db.rows ∧
      (∃ x ∈ recordings c.state.db.trail, ∃ row, c.state.db.rows.row x.1 = some row ∧
        row.operationID ≠ some x.2.1) ∧
      ∃ k row, c.state.db.rows.row k = some row ∧ row.managed = false ∧ row.operationID ≠ none := by
  have hplay : (play sampleSite sampleStart (indexAfterResult
      [sampleSnapshot 'a' planTags, sampleSnapshot 'b' []])).any (fun m =>
        ((sampleID 4, List.replicate 64 'a'), sampleID 5, sampleID 1) ∈ recordings m.db.trail ∧
        (m.db.rows.row (sampleID 4, List.replicate 64 'a')).any (fun row =>
          row.operationID = some (sampleID 13)) = true ∧
        (m.db.rows.row (sampleID 4, List.replicate 64 'b')).any (fun row =>
          !row.managed && row.operationID = some (sampleID 13)) = true) = true := by
    decide +kernel
  obtain ⟨m, hm, hchecks⟩ := (Option.any_eq_true _ _).mp hplay
  obtain ⟨hrecorded, hfirst, hsecond⟩ := of_decide_eq_true hchecks
  obtain ⟨row, hrow, hop⟩ := (Option.any_eq_true _ _).mp hfirst
  obtain ⟨row', hrow', hun⟩ := (Option.any_eq_true _ _).mp hsecond
  simp only [Bool.and_eq_true, Bool.not_eq_true', decide_eq_true_eq] at hop hun
  have hne : row.operationID ≠ some (sampleID 5) := by
    rw [hop]
    decide
  refine ⟨_, reachable_of_play (indexAfterResult_arrives _) hm, ?_, ⟨_, hrecorded, row, hrow, hne⟩,
    _, row', hrow', hun.1, by rw [hun.2]; simp⟩
  intro hprov
  obtain ⟨row'', hrow'', hnames, -⟩ := hprov.recorded _ hrecorded
  rw [show m.state.db.rows.row _ = _ from hrow] at hrow''
  cases hrow''
  exact hne hnames

end RestFleet.Snapshots
