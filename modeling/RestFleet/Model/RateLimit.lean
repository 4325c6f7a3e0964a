import Mathlib.Data.List.AList
import Mathlib.Data.List.Dedup
import RestFleet.Model.Text

/-! # The rate limiter of the HTTP interface

Calls happen one after another, in the order of the mutex. Readings of the clock are nanoseconds.
`Sub` saturates, which makes no difference here: a reading is not before a start, and a window is a
64-bit duration. -/

namespace RestFleet

def maxRateLimitEntries : ℕ := 4096

structure RateWindow where
  start : ℤ
  count : ℕ
deriving DecidableEq

/-- `rateLimiter`; the entries of a map have distinct keys. -/
structure RateLimiter where
  limit : ℕ
  window : ℤ
  entries : AList fun _ : Text => RateWindow

def newRateLimiter (limit : ℕ) (window : ℤ) : RateLimiter := ⟨limit, window, ∅⟩

namespace RateLimiter

def size (l : RateLimiter) : ℕ := l.entries.keys.length

def ended (l : RateLimiter) (now : ℤ) (entry : RateWindow) : Bool := l.window ≤ now - entry.start

def deleteEnded (l : RateLimiter) (now : ℤ) : RateLimiter :=
  { l with entries := ⟨l.entries.entries.filter fun e => !l.ended now e.2,
      l.entries.nodupKeys.sublist List.filter_sublist⟩ }

/-- The purge that a full map starts a call with. -/
def purge (l : RateLimiter) (now : ℤ) : RateLimiter :=
  if maxRateLimitEntries ≤ l.size then l.deleteEnded now else l

def newKeys (l : RateLimiter) (keys : List Text) : List Text :=
  (keys.filter fun key => !l.entries.keys.contains key).dedup

def exhausted (l : RateLimiter) (now : ℤ) (key : Text) : Bool :=
  (l.entries.lookup key).any fun entry => !l.ended now entry && l.limit ≤ entry.count

def charged (l : RateLimiter) (now : ℤ) (key : Text) : RateWindow :=
  match l.entries.lookup key with
  | none => ⟨now, 1⟩
  | some entry => if l.ended now entry then ⟨now, 1⟩ else { entry with count := entry.count + 1 }

def charge (l : RateLimiter) (now : ℤ) (key : Text) : RateLimiter :=
  { l with entries := l.entries.insert key (l.charged now key) }

def chargeAll (l : RateLimiter) (now : ℤ) (keys : List Text) : RateLimiter :=
  keys.foldl (fun l key => l.charge now key) l

structure Call where
  now : ℤ
  keys : List Text

def allows (l : RateLimiter) (c : Call) : Bool :=
  let l := l.purge c.now
  l.size + (l.newKeys c.keys).length ≤ maxRateLimitEntries && !c.keys.any (l.exhausted c.now)

/-- `allow`: the limiter after a call. -/
def allow (l : RateLimiter) (c : Call) : RateLimiter :=
  if l.allows c then (l.purge c.now).chargeAll c.now c.keys else l.purge c.now

def run (l : RateLimiter) (calls : List Call) : RateLimiter := calls.foldl allow l

/-- How many of the calls charge `key` before `stop`. -/
def charges (l : RateLimiter) (key : Text) (stop : ℤ) : List Call → ℕ
  | [] => 0
  | c :: rest =>
    (if l.allows c ∧ c.keys.contains key ∧ c.now < stop then 1 else 0) +
      (l.allow c).charges key stop rest

end RateLimiter

end RestFleet
