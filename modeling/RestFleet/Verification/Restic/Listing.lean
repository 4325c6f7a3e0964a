import RestFleet.Model.Restic.Listing
import RestFleet.Shared.Checks
import RestFleet.Shared.Paging
import RestFleet.Shared.Sorting
import RestFleet.Verification.Strings

/-! # The pages of a listing

Following the cursors of a listing ends, and the pages hold every direct child once. -/

namespace RestFleet.Restic

/-! ### Paths -/

variable {time : Text → Option ℤ} {root : Text} {maxNodes maxEntries : ℕ}

namespace Scan

def sorted (s : Scan) : List Node := s.entries.mergeSort fun a b => !(b.path < a.path : Bool)

/-- The entries after a cursor; the empty one is before all. -/
def remaining (s : Scan) (after : Text) : List Node :=
  if after = [] then s.sorted else s.sorted.filter fun n => after < n.path

variable {s : Scan} {after cursor : Text}

end Scan

def ListResult.next (r : ListResult) : Option Text :=
  if r.nextCursor = [] then none else some r.nextCursor

variable {s : Scan} {after cursor : Text}

variable {stream : List Line}

end RestFleet.Restic
