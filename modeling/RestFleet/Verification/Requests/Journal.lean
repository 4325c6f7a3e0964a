import RestFleet.Model.Requests
import RestFleet.Shared.History
import RestFleet.Shared.Request

/-! # Records as the last effect of their key

Whoever holds the advisory lock of a key finds the record as it was when the lock was taken. -/

namespace RestFleet.Requests

open Backup (requestLifetime)

/-- What a record says, of either kind. -/
structure Memory where
  body : Bytes
  response : Response
  expiresAt : Stamp
  deriving DecidableEq

def Database.memory (db : Database) (i : Identity) : Option Memory :=
  match i.kind with
  | .backup => (db.requests.row (i.scope, i.key)).map fun r => ⟨r.body, .backup r.response, r.expiresAt⟩
  | .storage =>
    (db.records.row (i.scope, i.key)).map fun r => ⟨r.request, .storage r.resourceID, r.expiresAt⟩

def Entry.memory (e : Entry) : Option Memory :=
  match e.outcome with
  | .effect _ response savedAt => some ⟨e.body, response, savedAt + requestLifetime⟩
  | .replayed _ _ => none
  | .refused _ => none

/-- What an entry does to the record of an identity. -/
def Entry.update (e : Entry) (i : Identity) (m : Option Memory) : Option Memory :=
  if e.identity = i then e.memory.or m else m

def recalled (i : Identity) (m : Option Memory) (trail : List Entry) : Option Memory :=
  trail.foldl (fun m e => e.update i m) m

section Recall

variable {i : Identity} {m : Option Memory} {trail : List Entry} {e : Entry}

theorem recalled_append (trail rest : List Entry) :
    recalled i m (trail ++ rest) = recalled i (recalled i m trail) rest :=
  List.foldl_append

theorem recalled_snoc : recalled i m (trail ++ [e]) = e.update i (recalled i m trail) :=
  recalled_append trail [e]

theorem update_of_ne (h : e.identity ≠ i) : e.update i m = m := if_neg h

theorem update_of_memory_none (h : e.memory = none) : e.update i m = m := by
  unfold Entry.update
  split
  · rw [h, Option.none_or]
  · rfl

end Recall

/-- What a lookup says about the record: none was live, or one of the same body was. -/
def Found (body : Bytes) (now : Stamp) (response : Option Response) (m : Option Memory) : Prop :=
  match response with
  | none => ∀ r, m = some r → r.expiresAt ≤ now
  | some x => ∃ r, m = some r ∧ now < r.expiresAt ∧ r.body = body ∧ r.response = x

/-- What is known of an entry, given the record that was there. -/
def Entry.Fits (first : Identity → Option Memory) (before : List Entry) (e : Entry) : Prop :=
  let m := recalled e.identity (first e.identity) before
  match e.outcome with
  | .effect lookedUpAt _ _ => Found e.body lookedUpAt none m
  | .replayed lookedUpAt response => Found e.body lookedUpAt (some response) m
  | .refused _ => True

/-- The records are those of the last effects, from `first` on. -/
structure Sound (first : Identity → Option Memory) (db : Database) : Prop where
  memory : ∀ i, db.memory i = recalled i (first i) db.trail
  fits : Checked (Entry.Fits first) db.trail

theorem sound_start {db : Database} (h : db.trail = []) : Sound db.memory db := by
  refine ⟨fun i => ?_, ?_⟩
  · rw [h]
    rfl
  · rw [h]
    exact Checked.nil

def Identity.lock (i : Identity) : Key := .backup (.advisory (i.key.take 8))

def discipline (first : Identity → Option Memory) : Tx.Discipline schema where
  good := Sound first
  frame := fun k db db' => ∀ i : Identity, k = i.lock → db'.memory i = db.memory i
  own := fun _ _ _ => True
  evolves := fun db db' => db.trail <+: db'.trail
  frame_refl := fun _ _ _ _ => rfl
  frame_trans := fun _ _ _ _ h h' i hi => (h' i hi).trans (h i hi)
  own_refl := fun _ _ => trivial
  own_trans := fun _ _ _ _ _ _ => trivial
  evolves_refl := fun db => List.prefix_refl db.trail
  evolves_trans := fun _ _ _ h h' => h.trans h'

def Database.book (db : Database) : (Identity → Option Memory) × List Entry := (db.memory, db.trail)

theorem memory_of_book {db db' : Database} (h : db'.book = db.book) (i : Identity) :
    db'.memory i = db.memory i :=
  congrFun (Prod.mk.inj h).1 i

variable {first : Identity → Option Memory}

theorem discipline_only : (discipline first).Only Database.book where
  good db db' h hs := by
    have htrail : db'.trail = db.trail := (Prod.mk.inj h).2
    refine ⟨fun i => ?_, ?_⟩
    · rw [memory_of_book h, htrail]
      exact hs.memory i
    · rw [htrail]
      exact hs.fits
  frame _ _ _ h i _ := memory_of_book h i
  own _ _ _ _ := trivial
  evolves db db' h := by
    change db.trail <+: db'.trail
    exact (Prod.mk.inj h).2 ▸ List.prefix_refl _

theorem onBackup_leaves (f : Backup.Database → Backup.Database) :
    Tx.Leaves Database.book (backupPart.modify f) := fun _ => rfl

theorem onStore_leaves (f : Store.Database → Store.Database) :
    Tx.Leaves Database.book (storePart.modify f) := fun _ => rfl

/-! ### Pending writes -/

/-- The writes change the records as `e` does, and no trail. -/
def Saved (e : Entry) (f : Database → Database) : Prop :=
  ∀ db, (f db).book = (fun i => e.update i (db.memory i), db.trail)

def Noted (e : Entry) (f : Database → Database) : Prop :=
  ∀ db, (f db).book = (fun i => e.update i (db.memory i), db.trail ++ [e])

variable {e : Entry} {f g : Database → Database} {db : Database} {t : ℕ}

theorem Saved.leaves (h : Saved e f) (hg : Tx.Leaves (N := schema) Database.book g) :
    Saved e (g ∘ f) :=
  fun db => (hg (f db)).trans (h db)

theorem Saved.note (h : Saved e f) : Noted e ((fun db => db.note e) ∘ f) := by
  intro db
  obtain ⟨hmemory, htrail⟩ := Prod.mk.inj (h db)
  exact Prod.ext hmemory (congrArg (· ++ [e]) htrail)

theorem Saved.of_leaves (h : Tx.Leaves (N := schema) Database.book f) (he : e.memory = none) :
    Saved e f := by
  intro db
  refine (h db).trans (Prod.ext (funext fun i => ?_) rfl)
  exact (update_of_memory_none he).symm

theorem Noted.commits {keys : List Key} (h : Noted e f) (hs : Sound first db)
    (he : e.Fits first db.trail) (hk : e.memory ≠ none → e.identity.lock ∈ keys) :
    (discipline first).Commits t keys db (f db) := by
  obtain ⟨hmemory, htrail⟩ := Prod.mk.inj (h db)
  refine ⟨⟨fun i => ?_, ?_⟩, ?_, fun _ _ => trivial, fun k hnot _ i hi => ?_⟩
  · rw [congrFun hmemory i, htrail, recalled_snoc, hs.memory i]
  · rw [htrail]
    exact hs.fits.snoc he
  · change db.trail <+: (f db).trail
    rw [htrail]
    exact List.prefix_append _ _
  · rw [congrFun hmemory i]
    by_cases hnone : e.memory = none
    · exact update_of_memory_none hnone
    · refine update_of_ne fun heq => hnot ?_
      rw [hi, ← heq]
      exact hk hnone

/-- A fact about the record of an identity, for whoever holds its lock. -/
theorem lasts_memory {i : Identity} {P : Option Memory → Prop} :
    Tx.Lasts (discipline first) t [i.lock] fun db => P (db.memory i) := by
  intro db db' hframe _ _ h
  rw [hframe i.lock (List.mem_singleton_self _) i rfl]
  exact h

end RestFleet.Requests
