import RestFleet.Model.Domain.AgentState
import RestFleet.Shared.Calendar

/-! # The run times of a plan

The package `schedule` of the Agent: five-field cron in the time zone of a plan, the stable jitter,
the misfire decision and the rule of `FORBID`. Instants and durations are in nanoseconds; the zero
time is `0`. -/

namespace RestFleet.Agent

open Domain (Location Zones)

/-- What the Agent takes from outside: the zone database, the first eight bytes of the SHA-256 sum,
and the name-based UUID, both of the text of a plan identifier and a Unix second. -/
structure Site where
  zones : Zones
  jitterSum : UUID → ℤ → ℕ
  nameID : UUID → ℤ → UUID
  nameID_version : ∀ p s, (nameID p s).isV7 = false

namespace Schedule

def minute : ℤ := 60 * second

def maxMinutesAhead : ℕ := 366 * 24 * 60

def fieldBounds : List (ℤ × ℤ) := [(0, 59), (0, 23), (1, 31), (1, 12), (0, 6)]

structure Spec where
  cron : Text
  timezone : Text
  jitterSeconds : ℤ
  misfireGraceSeconds : ℤ
  concurrencyPolicy : Text
  deriving DecidableEq

structure Fields where
  minute : ℕ
  hour : ℕ
  dom : ℕ
  month : ℕ
  dow : ℕ
  deriving DecidableEq

structure Scheduler where
  planID : UUID
  spec : Spec
  loc : Location
  fields : Fields
  domRestricted : Bool
  dowRestricted : Bool

/-! ## Parsing -/

def addInt (a b : ℤ) : ℤ := (a + b + 2 ^ 63) % 2 ^ 64 - 2 ^ 63

/-- The loop over the values of a range, at most `n` of them. A step close to the largest `int`
wraps around; a shift by a negative number, taken as unsigned, gives no bit. -/
def setBits (low high step : ℤ) : ℕ → ℤ → ℕ → ℕ
  | 0, _, mask => mask
  | n + 1, value, mask =>
    if value ≤ high then
      setBits low high step n (addInt value step)
        (if value < low then mask else mask ||| 1 <<< (value - low).toNat)
    else mask

/-- No run of the loop is longer: it takes at most 60 values in order, and at most every second
one of those that wrap around is negative. -/
def maxValues : ℕ := 128

/-- The step of a list item, and what is left of the item. -/
def parseStep (item : Text) : Option (Text × ℤ) :=
  match item.cut '/' with
  | some (base, raw) => match raw.atoi with
    | some parsed => if parsed < 1 then none else some (base, parsed)
    | none => none
  | none => some (item, 1)

def parseRange (item : Text) (low high : ℤ) : Option (ℤ × ℤ) :=
  if item = ['*'] then some (low, high)
  else match item.cut '-' with
    | some (left, right) => match left.atoi, right.atoi with
      | some first, some last =>
        if first < low || last > high || first > last then none else some (first, last)
      | _, _ => none
    | none => match item.atoi with
      | some value => if value < low || value > high then none else some (value, value)
      | none => none

def parseItem (low high : ℤ) (mask : ℕ) (item : Text) : Option ℕ :=
  if item.isEmpty then none
  else do
    let (item, step) ← parseStep item
    let (first, last) ← parseRange item low high
    pure (setBits low last step maxValues first mask)

-- The step of a single value is read but not checked.
example : parseItem 0 59 0 "5/9223372036854775807".toList = some 42 := by decide +kernel
example : parseItem 0 59 0 "10-30/10".toList = some (2 ^ 10 + 2 ^ 20 + 2 ^ 30) := by decide +kernel

/-- `parseField`: the mask, and whether the field is a wildcard. -/
def parseField (part : Text) (bounds : ℤ × ℤ) : Option (ℕ × Bool) := do
  let mask ← (part.split ',').foldlM (parseItem bounds.1 bounds.2) 0
  pure (mask, part = ['*'])

def new (zones : Zones) (planID : UUID) (spec : Spec) : Option Scheduler :=
  match zones spec.timezone with
  | none => none
  | some loc =>
    if spec.timezone.isEmpty || spec.timezone = "Local".toList then none
    else match (spec.cron.fields.zip fieldBounds).mapM fun f => parseField f.1 f.2 with
    | some [minute, hour, dom, month, dow] =>
      if spec.cron.fields.length ≠ fieldBounds.length then none
      else if spec.jitterSeconds < 0 || spec.jitterSeconds > 3600 then none
      else if spec.misfireGraceSeconds < 0 || spec.misfireGraceSeconds > 86400 then none
      else some
        { planID, spec, loc
          fields := ⟨minute.1, hour.1, dom.1, month.1, dow.1⟩
          domRestricted := !dom.2
          dowRestricted := !dow.2 }
    | _ => none

/-! ## Run times -/

def bit (mask value offset : ℕ) : Bool := offset ≤ value && mask.testBit (value - offset)

def unixSecond (t : ℤ) : ℤ := t / second - unixEpoch

namespace Scheduler

/-- `matches`, of the instant in the zone of the plan. -/
def «matches» (s : Scheduler) (t : ℤ) : Bool :=
  let seconds := t / second + s.loc (unixSecond t)
  let date := Calendar.date (seconds / 86400)
  let inDay := (seconds % 86400).toNat
  if !bit s.fields.minute (inDay / 60 % 60) 0 || !bit s.fields.hour (inDay / 3600) 0 ||
      !bit s.fields.month date.month 1 then false
  else
    let domMatch := bit s.fields.dom date.day 1
    let dowMatch := bit s.fields.dow (Calendar.weekday (seconds / 86400)) 0
    if s.domRestricted && s.dowRestricted then domMatch || dowMatch else domMatch && dowMatch

/-- The search of `NextScheduled`: the candidates from `start` on, at most `n`. -/
def search (s : Scheduler) : ℕ → ℤ → Option ℤ
  | 0, _ => none
  | n + 1, start => if s.matches start then some start else search s n (start + minute)

def nextScheduled (s : Scheduler) (t : ℤ) : Option ℤ :=
  s.search maxMinutesAhead (t - t % minute + minute)

end Scheduler

def stableJitter (site : Site) (planID : UUID) (scheduled : ℤ) (maxSeconds : ℤ) : ℤ :=
  if maxSeconds ≤ 0 then 0
  else (site.jitterSum planID (unixSecond scheduled) % (maxSeconds.toNat + 1) : ℕ) * second

namespace Scheduler

def due (site : Site) (s : Scheduler) (scheduled : ℤ) : ℤ :=
  scheduled + stableJitter site s.planID scheduled s.spec.jitterSeconds

def nextRun (site : Site) (s : Scheduler) (t : ℤ) : Option ℤ :=
  (s.nextScheduled t).map (s.due site)

end Scheduler

/-! ## Decisions -/

/-- `DecideMisfire`, whether the slot is reported as missed. -/
def reportMissed (now scheduled : ℤ) (graceSeconds : ℤ) : Bool :=
  scheduled < now && graceSeconds * second < now - scheduled

def concurrencySkip (policy : Text) (running : Bool) : Bool :=
  policy.map Char.toLower = "forbid".toList && running

def operationID (site : Site) (planID : UUID) (scheduled : ℤ) : UUID :=
  site.nameID planID (unixSecond scheduled)

end Schedule

end RestFleet.Agent
