import Mathlib.Data.List.Sort
import Mathlib.Order.Lattice

/-! # Pages behind cursors

A list is read in pages; each page but the last names the cursor of the next one. -/

namespace RestFleet

variable {C P α : Type}

namespace Follow

variable {page : C → P} {next : P → Option C} {c : C} {ps ps' : List P}

end Follow

section Sorted

variable {κ : Type} [LinearOrder κ] {key : α → κ} {l : List α} {k : ℕ} {x : α}

end Sorted

end RestFleet
