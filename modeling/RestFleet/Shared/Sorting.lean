import Mathlib.Data.List.Sort
import Mathlib.Order.Lattice

/-! # Sorting by a key -/

namespace RestFleet

variable {α κ : Type} [LinearOrder κ] {key : α → κ} {le : α → α → Bool} {l l' : List α}

theorem pairwise_mergeSort_lt (hle : ∀ a b, le a b = true ↔ key a ≤ key b)
    (h : (l.map key).Nodup) : (l.mergeSort le).Pairwise fun a b => key a < key b := by
  have hsorted : (l.mergeSort le).Pairwise fun a b => le a b = true := by
    refine List.pairwise_mergeSort ?_ ?_ l
    · intro a b c hab hbc
      exact (hle a c).mpr (((hle a b).mp hab).trans ((hle b c).mp hbc))
    · intro a b
      rw [Bool.or_eq_true, hle, hle]
      exact le_total (key a) (key b)
  have hne : ((l.mergeSort le).map key).Nodup :=
    ((List.mergeSort_perm l le).map key).nodup_iff.mpr h
  refine (hsorted.and (List.pairwise_map.mp hne)).imp ?_
  rintro a b ⟨hab, hneq⟩
  exact lt_of_le_of_ne ((hle a b).mp hab) hneq

theorem mergeSort_congr (hle : ∀ a b, le a b = true ↔ key a ≤ key b) (h : (l.map key).Nodup)
    (hp : l.Perm l') : l.mergeSort le = l'.mergeSort le := by
  have hperm : (l.mergeSort le).Perm (l'.mergeSort le) :=
    (List.mergeSort_perm l le).trans (hp.trans (List.mergeSort_perm l' le).symm)
  exact hperm.eq_of_pairwise (fun a b _ _ hab hba => absurd hab hba.asymm)
    (pairwise_mergeSort_lt hle h) (pairwise_mergeSort_lt hle ((hp.map key).nodup_iff.mp h))

end RestFleet
