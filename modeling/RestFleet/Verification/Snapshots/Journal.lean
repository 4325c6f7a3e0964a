import RestFleet.Model.Snapshots
import RestFleet.Shared.History
import RestFleet.Shared.Request

/-! # The table as the replay of its trail -/

namespace RestFleet.Snapshots

/-- The upserts of an index. -/
def putRows (repositoryID : UUID) (rows : List (Text × Row)) (t : Table (UUID × Text) Row) :
    Table (UUID × Text) Row :=
  rows.foldl (fun t x => putRow t (repositoryID, x.1) x.2) t

def markRows (repositoryID : UUID) (now : Stamp) (ids : List Text) (t : Table (UUID × Text) Row) :
    Table (UUID × Text) Row :=
  ids.foldl (fun t id => markRow t (repositoryID, id) now) t

def Entry.apply : Entry → Table (UUID × Text) Row → Table (UUID × Text) Row
  | .recorded r p now, t => recordRow t r p now
  | .indexed _ repositoryID _ rows marked now, t =>
    markRows repositoryID now marked (putRows repositoryID rows t)

def replay (trail : List Entry) : Table (UUID × Text) Row :=
  trail.foldl (fun t e => e.apply t) Table.empty

theorem replay_snoc (trail : List Entry) (e : Entry) :
    replay (trail ++ [e]) = e.apply (replay trail) := by
  rw [replay, List.foldl_append]
  rfl

/-- What is known of an entry: the listing is older than it, and what was listed is neither missing
nor marked. -/
def Entry.Fits (before : List Entry) : Entry → Prop
  | .recorded r _ _ => r.snapshotID ≠ []
  | .indexed _ _ since rows marked _ =>
    since ≤ before.length ∧ (∀ x ∈ rows, x.2.missingAt = none) ∧ ∀ id ∈ marked, id ∉ rows.map (·.1)

structure Sound (db : Database) : Prop where
  rows : db.rows = replay db.trail
  fits : Checked Entry.Fits db.trail

theorem Database.Fresh.sound {db : Database} (h : db.Fresh) : Sound db := by
  refine ⟨?_, ?_⟩
  · rw [h.rows, h.trail]
    rfl
  · rw [h.trail]
    exact Checked.nil

def discipline : Tx.Discipline schema where
  good := Sound
  frame := fun _ _ _ => True
  own := fun _ _ _ => True
  evolves := fun db db' => db.trail <+: db'.trail
  frame_refl := fun _ _ => trivial
  frame_trans := fun _ _ _ _ _ _ => trivial
  own_refl := fun _ _ => trivial
  own_trans := fun _ _ _ _ _ _ => trivial
  evolves_refl := fun db => List.prefix_refl db.trail
  evolves_trans := fun _ _ _ h h' => h.trans h'

def Database.table (db : Database) : Table (UUID × Text) Row × List Entry := (db.rows, db.trail)

theorem discipline_only : discipline.Only Database.table where
  good db db' h hs := by
    obtain ⟨hrows, htrail⟩ := Prod.mk.inj h
    exact ⟨by rw [hrows, htrail]; exact hs.rows, by rw [htrail]; exact hs.fits⟩
  frame _ _ _ _ := trivial
  own _ _ _ _ := trivial
  evolves db db' h := by
    obtain ⟨-, htrail⟩ := Prod.mk.inj h
    change db.trail <+: db'.trail
    exact htrail ▸ List.prefix_refl _

theorem onBackup_leaves (f : Backup.Database → Backup.Database) :
    Tx.Leaves Database.table (backupPart.modify f) := fun _ => rfl

theorem onStore_leaves (f : Store.Database → Store.Database) :
    Tx.Leaves Database.table (storePart.modify f) := fun _ => rfl

/-! ### Pending writes -/

/-- The writes change the table as `u` does, and no trail. -/
def Wrote (u : Table (UUID × Text) Row → Table (UUID × Text) Row) (f : Database → Database) : Prop :=
  ∀ db, (f db).table = (u db.rows, db.trail)

def Noted (e : Entry) (f : Database → Database) : Prop :=
  ∀ db, (f db).table = (e.apply db.rows, db.trail ++ [e])

variable {u : Table (UUID × Text) Row → Table (UUID × Text) Row} {f g : Database → Database}
  {e : Entry} {db : Database} {t : ℕ}

theorem Wrote.leaves (h : Wrote u f) (hg : Tx.Leaves (N := schema) Database.table g) : Wrote u (g ∘ f) :=
  fun db => (hg (f db)).trans (h db)

theorem Wrote.rows (h : Wrote u f) (v : Table (UUID × Text) Row → Table (UUID × Text) Row) :
    Wrote (v ∘ u) ((fun db => db.onRows v) ∘ f) := by
  intro db
  obtain ⟨hrows, htrail⟩ := Prod.mk.inj (h db)
  exact Prod.ext (congrArg v hrows) htrail

theorem Wrote.note (h : Wrote e.apply f) : Noted e ((fun db => db.note e) ∘ f) := by
  intro db
  obtain ⟨hrows, htrail⟩ := Prod.mk.inj (h db)
  exact Prod.ext hrows (congrArg (· ++ [e]) htrail)

theorem wrote_id : Wrote id id := fun _ => rfl

theorem Wrote.commits (h : Wrote id f) (hs : Sound db) : discipline.Commits t [] db (f db) :=
  discipline_only.commits (fun db => h db) hs

theorem Noted.commits (h : Noted e f) (hs : Sound db) (he : e.Fits db.trail) :
    discipline.Commits t [] db (f db) := by
  obtain ⟨hrows, htrail⟩ := Prod.mk.inj (h db)
  refine ⟨⟨?_, ?_⟩, ?_, fun _ _ => trivial, fun _ _ _ => trivial⟩
  · rw [hrows, htrail, replay_snoc, hs.rows]
  · rw [htrail]
    exact hs.fits.snoc he
  · change db.trail <+: (f db).trail
    rw [htrail]
    exact List.prefix_append _ _

theorem lasts_since (since : ℕ) {keys : List Key} :
    Tx.Lasts discipline t keys fun db => since ≤ db.trail.length :=
  fun _ _ _ _ he h => Nat.le_trans h he.length_le

/-! ### Rows -/

section Rows

variable {rows : Table (UUID × Text) Row} {k k' : UUID × Text} {row : Row} {repositoryID : UUID}
  {now : Stamp}

theorem row_putRow_self : (putRow rows k row).row k = some row := Table.row_upsert_const

theorem row_putRow_ne (h : k' ≠ k) : (putRow rows k row).row k' = rows.row k' :=
  Table.row_upsert_ne h

/-- An index leaves a row alone or writes one of its own. -/
theorem row_putRows (repositoryID : UUID) (list : List (Text × Row))
    (rows : Table (UUID × Text) Row) (k : UUID × Text) :
    (putRows repositoryID list rows).row k = rows.row k ∨
      ∃ x ∈ list, k = (repositoryID, x.1) ∧ (putRows repositoryID list rows).row k = some x.2 := by
  induction list generalizing rows with
  | nil => exact Or.inl rfl
  | cons x list ih =>
      rcases ih (putRow rows (repositoryID, x.1) x.2) with h | ⟨y, hy, hk, h⟩
      · by_cases hk : k = (repositoryID, x.1)
        · refine Or.inr ⟨x, List.mem_cons_self, hk, h.trans ?_⟩
          rw [hk, row_putRow_self]
        · exact Or.inl (h.trans (row_putRow_ne hk))
      · exact Or.inr ⟨y, List.mem_cons_of_mem x hy, hk, h⟩

theorem row_markRow_ne (h : k' ≠ k) : (markRow rows k now).row k' = rows.row k' :=
  Table.row_modify_ne h

theorem row_markRow (rows : Table (UUID × Text) Row) (k k' : UUID × Text) (now : Stamp) :
    ∃ missing : Row → Option Stamp, (markRow rows k now).row k' =
      (rows.row k').map fun row => { row with missingAt := missing row } := by
  by_cases h : k' = k
  · subst h
    refine ⟨fun row => if row.missingAt.isNone then some now else row.missingAt, ?_⟩
    rw [markRow, Table.row_modify_self]
    congr 1
    funext row
    by_cases hnone : row.missingAt.isNone <;> simp [hnone]
  · refine ⟨(·.missingAt), ?_⟩
    rw [row_markRow_ne h]
    exact Option.map_id'.symm

theorem row_markRows (repositoryID : UUID) (now : Stamp) (ids : List Text)
    (rows : Table (UUID × Text) Row) (k : UUID × Text) :
    ∃ missing : Row → Option Stamp, (markRows repositoryID now ids rows).row k =
      (rows.row k).map fun row => { row with missingAt := missing row } := by
  induction ids generalizing rows with
  | nil => exact ⟨(·.missingAt), Option.map_id'.symm⟩
  | cons id ids ih =>
      obtain ⟨missing, hrest⟩ := ih (markRow rows (repositoryID, id) now)
      obtain ⟨first, hfirst⟩ := row_markRow rows (repositoryID, id) k now
      refine ⟨fun row => missing { row with missingAt := first row }, hrest.trans ?_⟩
      rw [hfirst, Option.map_map]
      rfl

theorem row_markRows_ne {ids : List Text} (h : ∀ id ∈ ids, k ≠ (repositoryID, id))
    (rows : Table (UUID × Text) Row) :
    (markRows repositoryID now ids rows).row k = rows.row k := by
  induction ids generalizing rows with
  | nil => rfl
  | cons id ids ih =>
      refine (ih (fun id' hid' => h id' (List.mem_cons_of_mem id hid')) _).trans ?_
      exact row_markRow_ne (h id List.mem_cons_self)

theorem row_recordRow_self (rows : Table (UUID × Text) Row) (r : Backup.Result) (p : Backup.Plan)
    (now : Stamp) :
    ∃ row, (recordRow rows r p now).row (p.repositoryID, r.snapshotID) = some row ∧
      row.operationID = some r.operationID ∧ row.planID = some r.planID ∧ row.managed = true := by
  unfold recordRow
  cases h : rows.row (p.repositoryID, r.snapshotID) with
  | none => exact ⟨_, Table.row_upsert_none h, rfl, rfl, rfl⟩
  | some old => exact ⟨_, Table.row_upsert_some h, rfl, rfl, rfl⟩

end Rows

end RestFleet.Snapshots
