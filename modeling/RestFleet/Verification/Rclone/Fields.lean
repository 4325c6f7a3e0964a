import Mathlib.Data.Char
import RestFleet.Model.Rclone.Config
import RestFleet.Shared.Sorting

/-! # Maps of strings and their canonical form -/

namespace RestFleet.Rclone

/-! ### Sorted names -/

theorem sortStrings_perm (names : List Text) : (sortStrings names).Perm names :=
  List.mergeSort_perm _ _

theorem not_lt_iff_le (a b : Text) : (!decide (b < a)) = true ↔ id a ≤ id b := by simp

theorem sortStrings_congr {names names' : List Text} (h : names.Nodup) (hp : names.Perm names') :
    sortStrings names = sortStrings names' :=
  mergeSort_congr not_lt_iff_le (by simpa using h) hp

namespace Fields

variable {m m' : Fields} {k k' v : Text}

/-- No key stands twice. -/
def Unique (m : Fields) : Prop := (m.map (·.1)).Nodup

theorem has_iff : m.has k = true ↔ k ∈ m.map (·.1) := by
  simp [has]

theorem get_of_mem (h : m.Unique) (hm : (k, v) ∈ m) : m.get k = v := by
  induction m with
  | nil => cases hm
  | cons e m ih =>
      obtain ⟨hfresh, hrest⟩ := List.nodup_cons.mp h
      rcases List.mem_cons.mp hm with rfl | hm
      · simp [get]
      · have hne : e.1 ≠ k := by
          rintro rfl
          exact hfresh (List.mem_map.mpr ⟨_, hm, rfl⟩)
        rw [← ih hrest hm]
        simp [get, hne]

theorem get_absent (h : k ∉ m.map (·.1)) : m.get k = [] := by
  have hnone : m.find? (·.1 = k) = none := by
    rw [List.find?_eq_none]
    intro e he hk
    exact h (List.mem_map.mpr ⟨e, he, of_decide_eq_true hk⟩)
  simp [get, hnone]

theorem mem_of_get (h : m.get k ≠ []) : (k, m.get k) ∈ m := by
  unfold get at h ⊢
  cases hfind : m.find? (·.1 = k) with
  | none => simp [hfind] at h
  | some e =>
      have hkey : e.1 = k := of_decide_eq_true (List.find?_some hfind :)
      have hmem := List.mem_of_find?_eq_some hfind
      simpa [← hkey] using hmem

/-! ### Updates -/

theorem keys_set (m : Fields) (k v : Text) :
    (m.set k v).map (·.1) = if m.has k then m.map (·.1) else m.map (·.1) ++ [k] := by
  unfold set
  split
  · rw [List.map_map]
    refine List.map_congr_left fun e _ => ?_
    by_cases he : e.1 = k <;> simp [he]
  · simp

theorem Unique.set (h : m.Unique) (k v : Text) : (m.set k v).Unique := by
  unfold Unique
  rw [keys_set]
  split
  · exact h
  · rename_i hk
    refine List.nodup_append.mpr ⟨h, by simp, ?_⟩
    rintro a ha b hb rfl
    rw [List.mem_singleton.mp hb] at ha
    exact hk (has_iff.mpr ha)

theorem mem_set {e : Text × Text} (he : e ∈ m.set k v) : e ∈ m ∨ e = (k, v) := by
  unfold Fields.set at he
  split at he
  · obtain ⟨e', he', rfl⟩ := List.mem_map.mp he
    split
    · exact Or.inr rfl
    · exact Or.inl he'
  · rcases List.mem_append.mp he with he | he
    · exact Or.inl he
    · exact Or.inr (List.mem_singleton.mp he)

theorem mem_set_self : (k, v) ∈ m.set k v := by
  unfold Fields.set
  split
  · rename_i hk
    obtain ⟨e, he, hkey⟩ := List.mem_map.mp (has_iff.mp hk)
    exact List.mem_map.mpr ⟨e, he, if_pos hkey⟩
  · simp

theorem get_set_self (h : m.Unique) : (m.set k v).get k = v :=
  get_of_mem (h.set k v) mem_set_self

theorem get_replace_ne (h : k' ≠ k) (m : Fields) :
    get (m.map fun e => if e.1 = k then (k, v) else e) k' = m.get k' := by
  induction m with
  | nil => rfl
  | cons e m ih =>
      by_cases hk' : e.1 = k'
      · simp [get, h, hk']
      · have hkey : (if e.1 = k then (k, v) else e).1 ≠ k' := by
          split
          · exact h.symm
          · exact hk'
        have hskip (e : Text × Text) (m : Fields) (he : e.1 ≠ k') : get (e :: m) k' = get m k' := by
          simp [get, he]
        rw [List.map_cons, hskip _ _ hkey, hskip _ _ hk', ih]

theorem get_set_ne (h : k' ≠ k) : (m.set k v).get k' = m.get k' := by
  unfold Fields.set
  split
  · exact get_replace_ne h m
  · simp [get, List.find?_append, Ne.symm h]

theorem get_set (h : m.Unique) : (m.set k v).get k' = if k' = k then v else m.get k' := by
  split
  · rename_i hk
    rw [hk, get_set_self h]
  · rename_i hk
    exact get_set_ne hk

theorem get_set_same (h : m.Unique) (hv : m.get k = v) (k' : Text) :
    (m.set k v).get k' = m.get k' := by
  rw [get_set h]
  split
  · rename_i hk
    rw [hk, hv]
  · rfl

/-! ### The canonical form -/

def keys (m : Fields) : List Text := (m.filter (·.2 ≠ [])).map (·.1)

/-- The keys that have a value, in order and with it. -/
def canon (m : Fields) : Fields := (sortStrings m.keys).map fun k => (k, m.get k)

theorem Unique.keys_nodup (h : m.Unique) : m.keys.Nodup :=
  List.Nodup.sublist (List.filter_sublist.map _) h

theorem mem_keys (h : m.Unique) : k ∈ m.keys ↔ m.get k ≠ [] := by
  unfold keys
  constructor
  · intro hk
    obtain ⟨e, he, rfl⟩ := List.mem_map.mp hk
    obtain ⟨hmem, hne⟩ := List.mem_filter.mp he
    rw [get_of_mem h (v := e.2) hmem]
    exact of_decide_eq_true hne
  · intro hne
    exact List.mem_map.mpr ⟨_, List.mem_filter.mpr ⟨mem_of_get hne, by simpa using hne⟩, rfl⟩

theorem map_fst_canon (m : Fields) : m.canon.map (·.1) = sortStrings m.keys := by
  simp [canon, Function.comp_def]

theorem Unique.canon (h : m.Unique) : m.canon.Unique := by
  unfold Unique
  rw [map_fst_canon]
  exact (sortStrings_perm _).nodup_iff.mpr h.keys_nodup

theorem mem_canon (h : m.Unique) {e : Text × Text} : e ∈ m.canon ↔ e ∈ m ∧ e.2 ≠ [] := by
  obtain ⟨k, v⟩ := e
  rw [Fields.canon, List.mem_map]
  constructor
  · rintro ⟨k', hk', heq⟩
    cases heq
    have hne := (mem_keys h).mp ((sortStrings_perm _).mem_iff.mp hk')
    exact ⟨mem_of_get hne, hne⟩
  · rintro ⟨hmem, hne⟩
    have hget := get_of_mem h hmem
    refine ⟨k, (sortStrings_perm _).mem_iff.mpr ((mem_keys h).mpr ?_), by rw [hget]⟩
    rw [hget]
    exact hne

theorem get_canon (h : m.Unique) (k : Text) : m.canon.get k = m.get k := by
  by_cases hne : m.get k = []
  · rw [hne, get_absent]
    rw [map_fst_canon, (sortStrings_perm _).mem_iff, mem_keys h]
    exact not_not_intro hne
  · exact get_of_mem h.canon ((mem_canon h).mpr ⟨mem_of_get hne, hne⟩)

theorem canon_perm (h : m.Unique) : m.canon.Perm (m.filter (·.2 ≠ [])) := by
  have hentries : (m.keys.map fun k => (k, m.get k)) = m.filter (·.2 ≠ []) := by
    rw [keys, List.map_map]
    refine (List.map_congr_left (g := id) fun e he => ?_).trans (List.map_id _)
    rw [Function.comp_apply, get_of_mem h (v := e.2) (List.mem_of_mem_filter he)]
    rfl
  rw [← hentries]
  exact (sortStrings_perm _).map _

theorem canon_congr (h : m.Unique) (h' : m'.Unique) (hget : ∀ k, m.get k = m'.get k) :
    m.canon = m'.canon := by
  have hperm : m.keys.Perm m'.keys := by
    refine (List.perm_ext_iff_of_nodup h.keys_nodup h'.keys_nodup).mpr fun k => ?_
    rw [mem_keys h, mem_keys h', hget]
  rw [Fields.canon, Fields.canon, sortStrings_congr h.keys_nodup hperm]
  exact List.map_congr_left fun k _ => by rw [hget]

end Fields

end RestFleet.Rclone
