import Mathlib.Algebra.Group.Int.Defs
import Mathlib.Algebra.GroupWithZero.Nat

/-! # Instants and durations

`time.Time` with its optional monotonic reading, as far as the modelled code uses it.
Durations are nanoseconds. -/

namespace RestFleet

def second : ℤ := 1000000000

def unixEpoch : ℤ := 62135596800

def isInt64 (n : ℤ) : Bool := -(2 ^ 63) ≤ n && n < 2 ^ 63

/-- `wall` counts nanoseconds since the zero time; `mono` is the monotonic reading. -/
structure Time where
  wall : ℤ
  mono : Option ℤ
  deriving DecidableEq

namespace Time

def zero : Time := ⟨0, none⟩

def isZero (t : Time) : Bool := t.wall = 0

def round0 (t : Time) : Time := ⟨t.wall, none⟩

/-- `t.Before(u)`: monotonic readings win when both have one. -/
def before (t u : Time) : Bool :=
  match t.mono, u.mono with
  | some m, some n => m < n
  | _, _ => t.wall < u.wall

def unixSeconds (t : Time) : ℤ := t.wall / second - unixEpoch

def ofUnix (seconds : ℤ) : Time := ⟨(seconds + unixEpoch) * second, none⟩

def add (t : Time) (d : ℤ) : Time :=
  ⟨t.wall + d, t.mono.bind fun m => if isInt64 (m + d) then some (m + d) else none⟩

def sub (t u : Time) : ℤ :=
  let d := match t.mono, u.mono with
    | some m, some n => m - n
    | _, _ => t.wall - u.wall
  if d < -(2 ^ 63) then -(2 ^ 63) else if d ≥ 2 ^ 63 then 2 ^ 63 - 1 else d

end Time

end RestFleet
