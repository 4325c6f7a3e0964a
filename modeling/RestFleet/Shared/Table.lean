import Mathlib.Logic.Function.Basic

/-! # Tables

Rows by primary key. A scan visits the keys in the order of insertion, and misses no row. -/

namespace RestFleet

structure Table (κ α : Type) where
  keys : List κ
  row : κ → Option α
  listed : ∀ k, (row k).isSome → k ∈ keys

namespace Table

variable {κ α : Type}

def empty : Table κ α := ⟨[], fun _ => none, nofun⟩

@[simp] theorem row_empty {k : κ} : (empty : Table κ α).row k = none := rfl

def map (t : Table κ α) (f : α → α) : Table κ α :=
  ⟨t.keys, fun k => (t.row k).map f, fun k h => t.listed k (by simpa using h)⟩

@[simp] theorem row_map {t : Table κ α} {f : α → α} {k : κ} :
    (t.map f).row k = (t.row k).map f := rfl

def rows (t : Table κ α) : List α := t.keys.filterMap t.row

theorem mem_rows {t : Table κ α} {a : α} : a ∈ t.rows ↔ ∃ k, t.row k = some a := by
  rw [rows, List.mem_filterMap]
  constructor
  · rintro ⟨k, -, hk⟩
    exact ⟨k, hk⟩
  · rintro ⟨k, hk⟩
    exact ⟨k, t.listed k (by simp [hk]), hk⟩

variable [DecidableEq κ]

def insert (t : Table κ α) (k : κ) (a : α) : Table κ α where
  keys := t.keys ++ [k]
  row := Function.update t.row k (some a)
  listed := by
    intro k' h
    by_cases hk : k' = k
    · simp [hk]
    · rw [Function.update_of_ne hk] at h
      exact List.mem_append_left _ (t.listed k' h)

/-- `update ... where` the key is `k`. -/
def modify (t : Table κ α) (k : κ) (f : α → α) : Table κ α where
  keys := t.keys
  row := Function.update t.row k ((t.row k).map f)
  listed := by
    intro k' h
    by_cases hk : k' = k
    · subst hk
      exact t.listed k' (by simpa using h)
    · rw [Function.update_of_ne hk] at h
      exact t.listed k' h

/-- `insert ... on conflict (key) do update`. -/
def upsert (t : Table κ α) (k : κ) (a : α) (f : α → α) : Table κ α :=
  match t.row k with
  | none => t.insert k a
  | some _ => t.modify k f

variable {t : Table κ α} {k k' : κ} {a b : α} {f : α → α}

@[simp] theorem row_insert_self : (t.insert k a).row k = some a := by simp [insert]

theorem row_insert_ne (h : k' ≠ k) : (t.insert k a).row k' = t.row k' := by simp [insert, h]

@[simp] theorem row_modify_self : (t.modify k f).row k = (t.row k).map f := by simp [modify]

theorem row_modify_ne (h : k' ≠ k) : (t.modify k f).row k' = t.row k' := by simp [modify, h]

@[simp] theorem isSome_row_modify : ((t.modify k f).row k').isSome = (t.row k').isSome := by
  by_cases h : k' = k
  · subst h
    simp
  · rw [row_modify_ne h]

theorem isSome_row_insert (h : (t.row k').isSome) : ((t.insert k a).row k').isSome := by
  by_cases hk : k' = k
  · simp [hk]
  · rwa [row_insert_ne hk]

theorem row_upsert_ne (h : k' ≠ k) : (t.upsert k a f).row k' = t.row k' := by
  unfold upsert
  split
  · exact row_insert_ne h
  · exact row_modify_ne h

theorem row_upsert_none (h : t.row k = none) : (t.upsert k a f).row k = some a := by
  simp [upsert, h]

theorem row_upsert_some (h : t.row k = some b) : (t.upsert k a f).row k = some (f b) := by
  simp [upsert, h]

theorem row_upsert_const : (t.upsert k a fun _ => a).row k = some a := by
  cases h : t.row k with
  | none => exact row_upsert_none h
  | some b => exact row_upsert_some h

end Table

end RestFleet
