import Mathlib.Data.List.Induction
import Mathlib.Data.List.Sort

/-! # The first items of a sorted list, kept while scanning

A scan that sorts what it has after every item and keeps at most `n` of it ends with the first `n`
items of the sorted whole. The sorting algorithm is arbitrary. -/

namespace RestFleet

variable {α : Type} {r : α → α → Prop} {sort : List α → List α} {l l' : List α} {x : α} {n : ℕ}

/-- A sorting function for an order, stable or not. -/
structure Sorts (r : α → α → Prop) (sort : List α → List α) : Prop where
  perm : ∀ l, (sort l).Perm l
  sorted : ∀ l, (sort l).Pairwise r

/-- Different items of the list are in one order only. -/
def Strict (r : α → α → Prop) (l : List α) : Prop := ∀ a ∈ l, ∀ b ∈ l, r a b → r b a → a = b

theorem Strict.subset (h : Strict r l) (hsub : l' ⊆ l) : Strict r l' :=
  fun a ha b hb => h a (hsub ha) b (hsub hb)

/-- There is only one sorted list of the same items. -/
theorem Sorts.eq (hsort : Sorts r sort) (hstrict : Strict r l) (hp : l'.Perm l)
    (hsorted : l'.Pairwise r) : sort l = l' := by
  refine ((hsort.perm l).trans hp.symm).eq_of_pairwise (fun a b ha hb hab hba => ?_)
    (hsort.sorted l) hsorted
  exact hstrict a ((hsort.perm l).subset ha) b (hp.subset hb) hab hba

section Insertion

variable [DecidableRel r]

theorem take_orderedInsert_take (n : ℕ) (x : α) (l : List α) :
    ((l.take n).orderedInsert r x).take n = (l.orderedInsert r x).take n := by
  induction l generalizing n with
  | nil => simp
  | cons a l ih =>
      cases n with
      | zero => simp
      | succ n =>
          rw [List.take_succ_cons, List.orderedInsert_cons, List.orderedInsert_cons]
          split
          · rw [List.take_succ_cons, List.take_succ_cons]
            cases n with
            | zero => simp
            | succ n => simp [List.take_take]
          · rw [List.take_succ_cons, List.take_succ_cons, ih]

variable [Std.Total r] [IsTrans α r]

theorem Sorts.insertionSort : Sorts r (List.insertionSort r) :=
  ⟨List.perm_insertionSort r, List.pairwise_insertionSort r⟩

/-- The scan ends with the first items of the sorted whole. An item that is not selected may be
passed over with or without sorting. -/
theorem foldl_window (hsort : Sorts r sort) (p : α → Bool) (n : ℕ) {f : List α → α → List α}
    (hpos : ∀ items x, p x = true → f items x = (sort (items ++ [x])).take n)
    (hneg : ∀ items x, p x = false → f items x = items ∨ f items x = (sort items).take n)
    (hstrict : Strict r l) : l.foldl f [] = ((l.filter p).insertionSort r).take n := by
  induction l using List.reverseRecOn with
  | nil => simp
  | append_singleton l x ih =>
      have hl : Strict r l := hstrict.subset (List.subset_append_left _ _)
      have hsorted := List.pairwise_insertionSort r (l.filter p)
      -- what has been kept so far is sorted and taken from the list
      have hsub : ((l.filter p).insertionSort r).take n ⊆ l := fun a ha =>
        (List.mem_filter.mp ((List.mem_insertionSort r).mp (List.mem_of_mem_take ha))).1
      rw [List.foldl_append, ih hl, List.foldl_cons, List.foldl_nil, List.filter_append]
      by_cases hx : p x = true
      · rw [hpos _ x hx, List.filter_cons_of_pos hx, List.filter_nil]
        have hsortItems : sort (((l.filter p).insertionSort r).take n ++ [x]) =
            (((l.filter p).insertionSort r).take n).orderedInsert r x := by
          refine hsort.eq (hstrict.subset ?_) ?_ ((hsorted.take).orderedInsert x _)
          · exact List.append_subset.mpr ⟨List.Subset.trans hsub (List.subset_append_left _ _),
              List.subset_append_right _ _⟩
          · exact (List.perm_orderedInsert r x _).trans (List.perm_append_singleton x _).symm
        have hsortWhole : (l.filter p ++ [x]).insertionSort r =
            ((l.filter p).insertionSort r).orderedInsert r x := by
          refine Sorts.insertionSort.eq (hstrict.subset ?_) ?_ (hsorted.orderedInsert x _)
          · exact List.append_subset.mpr ⟨
              List.Subset.trans (List.filter_subset_self l) (List.subset_append_left _ _),
              List.subset_append_right _ _⟩
          · exact (List.perm_orderedInsert r x _).trans
              (((List.perm_insertionSort r _).cons x).trans (List.perm_append_singleton x _).symm)
        rw [hsortItems, hsortWhole, take_orderedInsert_take]
      · rw [List.filter_cons_of_neg hx, List.filter_nil, List.append_nil]
        rcases hneg (((l.filter p).insertionSort r).take n) x (by simpa using hx) with hskip | hskip
        · exact hskip
        · rw [hskip, hsort.eq (hl.subset hsub) (.refl _) hsorted.take, List.take_take, min_self]

end Insertion

end RestFleet
