import Mathlib.Data.List.Forall2
import Mathlib.Data.List.Induction

/-! # Hash chains

Items that carry their own hash and the hash of the item before them. When the hash of an item
determines the item and the hash before it, the last hash determines the whole chain. -/

namespace RestFleet.Chain

variable {α η : Type} (previous own : α → η) (sum : α → η → Option η)

/-- Every item carries the hash of the item before it, from `start` on, and its own. -/
def Linked (start : η) : List α → Prop
  | [] => True
  | a :: rest => previous a = start ∧ sum a start = some (own a) ∧ Linked (own a) rest

variable {previous own sum} {start : η}

end RestFleet.Chain
