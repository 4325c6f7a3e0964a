import Mathlib.Data.Char
import Mathlib.Data.List.DropRight
import Mathlib.Data.List.Lex
import RestFleet.Model.Strings
import RestFleet.Model.Time
import RestFleet.Shared.Action
import RestFleet.Shared.Calendar
import RestFleet.Shared.JsonCanonical
import RestFleet.Shared.Utf8

/-! # The audit chain

`domain/audit.go` and the audit functions of `store.go`. A JSON text stands for the value that a parser
reads from it, with its numbers as literals. -/

namespace RestFleet.AuditChain

open Tx (view write claim commit choose transaction)

abbrev Stamp := ℤ

/-! ## Texts -/

def pad (width n : ℕ) : Text :=
  let digits := Nat.toDigits 10 n
  List.replicate (width - digits.length) '0' ++ digits

def yearText (year : ℤ) : Text :=
  if year < 0 then '-' :: pad 4 year.natAbs else pad 4 year.natAbs

/-- The nanoseconds of `time.RFC3339Nano`, without zeros at the end. -/
def fraction (nanoseconds : ℕ) : Text :=
  if nanoseconds = 0 then [] else '.' :: (pad 9 nanoseconds).rdropWhile (· = '0')

def rfc3339Nano (t : Stamp) : Text :=
  let seconds := t / second
  let date := Calendar.date (seconds / 86400)
  let clock := (seconds % 86400).toNat
  yearText date.year ++ '-' :: pad 2 date.month ++ '-' :: pad 2 date.day ++
    'T' :: (pad 2 (clock / 3600) ++ ':' :: (pad 2 (clock / 60 % 60) ++
      ':' :: (pad 2 (clock % 60) ++ (fraction (t % second).toNat ++ ['Z']))))

example : rfc3339Nano 0 = "0001-01-01T00:00:00Z".toList := by decide
example : rfc3339Nano (unixEpoch * second + 1500000) = "1970-01-01T00:00:00.0015Z".toList := by
  decide

/-! ## Numbers and hashes -/

def negativeZero (literal : Text) : Bool :=
  literal.head? = some '-' &&
    (literal.tail.takeWhile fun c => c ≠ 'e' && c ≠ 'E').all fun c => c = '0' || c = '.'

/-- What becomes of a literal: `encoding/json` reads a `float64` and writes that again, and `jsonb`
keeps a `numeric`. A `numeric` has the value of the literal, and no sign when that is zero. -/
structure Numbers where
  inRange : Text → Bool
  float : Text → Text
  numeric : Text → Text
  float_chars : ∀ l, float l ≠ [] ∧ ∀ c ∈ float l, Json.isNumberChar c = true
  inRange_numeric : ∀ l, inRange l = true → inRange (numeric l) = true
  float_numeric : ∀ l, negativeZero l = false → float (numeric l) = float l

/-- SHA-256 without its collisions. -/
structure Hash where
  sum : Bytes → Bytes
  injective : Function.Injective sum
  nonempty : ∀ x, sum x ≠ []

/-! ## Events -/

inductive Changes where
  | absent
  | invalid
  | value (j : Json)

/-- `domain.AuditEvent`, without its sequence number. -/
structure Event where
  id : UUID
  occurredAt : Stamp
  actorType : Text
  actorID : UUID
  action : Text
  resourceType : Text
  resourceID : UUID
  requestID : UUID
  sourceIPHash : Bytes
  result : Text
  reasonCode : Text
  changes : Changes
  previousHash : Bytes
  eventHash : Bytes

/-- The changes as `encoding/json` writes them after reading them; keys are sorted. -/
def canonicalChanges (numbers : Numbers) : Changes → Option Json
  | .absent => some (.obj [])
  | .invalid => none
  | .value j =>
    if j.literals.all numbers.inRange then some (j.normal numbers.float (· ≤ ·)) else none

def optionalID (id : UUID) : Text := if id = UUID.nil then [] else id.text

def omitEmpty (name : String) (text : Text) : List (Text × Json) :=
  if text = [] then [] else [(name.toList, .str text)]

/-- `canonicalAuditEvent`. -/
def Event.members (e : Event) (changes : Json) : List (Text × Json) :=
  ("id".toList, .str e.id.text) :: ("occurred_at".toList, .str (rfc3339Nano e.occurredAt)) ::
    ("actor_type".toList, .str e.actorType) :: (omitEmpty "actor_id" (optionalID e.actorID) ++
      ("action".toList, .str e.action) :: ("resource_type".toList, .str e.resourceType) ::
        (omitEmpty "resource_id" (optionalID e.resourceID) ++
          ("request_id".toList, .str e.requestID.text) ::
            (omitEmpty "source_ip_hash" (Text.hexEncode e.sourceIPHash) ++
              [("result".toList, .str e.result), ("reason_code".toList, .str e.reasonCode),
                ("changes".toList, changes)])))

def canonicalAudit (numbers : Numbers) (e : Event) : Option Text :=
  (canonicalChanges numbers e.changes).map fun changes => (Json.obj (e.members changes)).render

def computeAuditHash (numbers : Numbers) (hash : Hash) (e : Event) (previous : Bytes) :
    Option Bytes :=
  (canonicalAudit numbers e).map fun text => hash.sum (Utf8.encode text ++ previous)

/-- A row of `audit_events`; `occurredAt` counts microseconds. -/
structure Row where
  id : UUID
  occurredAt : ℤ
  actorType : Text
  actorID : Option UUID
  action : Text
  resourceType : Text
  resourceID : Option UUID
  requestID : UUID
  sourceIPHash : Option Bytes
  result : Text
  reasonCode : Text
  changes : Json
  previousHash : Bytes
  eventHash : Bytes

def microsecond : ℤ := 1000

/-- The keys of a `jsonb` object are ordered by length first. -/
def keyOrder (a b : Text) : Prop :=
  a.byteLength < b.byteLength ∨ a.byteLength = b.byteLength ∧ a ≤ b

instance : DecidableRel keyOrder := fun _ _ => inferInstanceAs (Decidable (_ ∨ _ ∧ _))

def jsonb (numbers : Numbers) (j : Json) : Json := j.normal numbers.numeric keyOrder

/-- The texts of a database hold no zero character. -/
def storable (s : Text) : Bool := s.all fun c => c.toNat ≠ 0

def Event.row (e : Event) (numbers : Numbers) (j : Json) : Row where
  id := e.id
  occurredAt := e.occurredAt / microsecond
  actorType := e.actorType
  actorID := if e.actorID = UUID.nil then none else some e.actorID
  action := e.action
  resourceType := e.resourceType
  resourceID := if e.resourceID = UUID.nil then none else some e.resourceID
  requestID := e.requestID
  sourceIPHash := if e.sourceIPHash = [] then none else some e.sourceIPHash
  result := e.result
  reasonCode := e.reasonCode
  changes := jsonb numbers j
  previousHash := e.previousHash
  eventHash := e.eventHash

/-- The checks of the table, as far as an event can fail them. -/
def Event.accepted (e : Event) (j : Json) : Bool :=
  ["USER".toList, "AGENT".toList, "SYSTEM".toList].contains e.actorType &&
    ["SUCCESS".toList, "DENIED".toList, "FAILURE".toList].contains e.result &&
    (e.sourceIPHash = [] || e.sourceIPHash.length = 32) &&
    [e.action, e.resourceType, e.reasonCode].all storable && j.strings.all storable

/-- The rows in the order of their sequence numbers: a row gets its number under the lock of the
chain. -/
structure Database where
  rows : List Row

inductive Key where
  | chain
  | event (id : UUID)
  deriving DecidableEq

inductive Choice where
  | newV7

abbrev schema : Tx.Schema where
  Db := Database
  Key := Key
  Choice := Choice
  Answer := fun _ => UUID
  present := fun
    | .chain, _ => false
    | .event id, db => db.rows.any (·.id = id)

inductive AuditError where
  | encoding
  | database
  deriving DecidableEq

abbrev AuditM := Tx.Action schema AuditError

abbrev AuditProgram := Program (Tx.Op schema) (Tx.Reply schema)

def Database.add (db : Database) (r : Row) : Database := ⟨db.rows ++ [r]⟩

def Database.lastHash (db : Database) : Bytes := (db.rows.getLast?.map (·.eventHash)).getD []

def Event.prepare (e : Event) (id : UUID) : Event :=
  { e with
    occurredAt := e.occurredAt / microsecond * microsecond
    id := if e.id = UUID.nil then id else e.id }

/-- Empty changes are those of an empty object. -/
def Changes.value? : Changes → Option Json
  | .absent => some (.obj [])
  | .invalid => none
  | .value j => some j

def insertAudit (numbers : Numbers) (e : Event) (j : Json) : AuditM Unit := do
  claim (.event e.id)
  if !e.accepted j then throw .database
  else if (← view).rows.any (·.id = e.id) then throw .database
  else write (·.add (e.row numbers j))

def appendAudit (numbers : Numbers) (hash : Hash) (event : Event) : AuditM Unit := do
  let id ← choose (M := schema) .newV7
  let e := event.prepare id
  claim .chain
  let previous := (← view).lastHash
  match e.changes.value?, computeAuditHash numbers hash e previous with
  | some j, some sum => insertAudit numbers { e with previousHash := previous, eventHash := sum } j
  | _, _ => throw .encoding

def appendAll (numbers : Numbers) (hash : Hash) : List Event → AuditM Unit
  | [] => return ()
  | e :: rest => do
    appendAudit numbers hash e
    appendAll numbers hash rest

/-- A transaction that records events; its statements on other tables do not matter here. -/
def record (numbers : Numbers) (hash : Hash) (events : List Event) : AuditProgram Unit := do
  let _ ← transaction (do appendAll numbers hash events; commit)
  return ()

def arrivals (numbers : Numbers) (hash : Hash) (admits : Event → Prop) (p : AuditProgram Unit) :
    Prop :=
  ∃ events : List Event, (∀ e ∈ events, admits e) ∧ p = record numbers hash events

abbrev server (numbers : Numbers) (hash : Hash) (admits : Event → Prop) :
    System (Tx.State schema) ℕ (Tx.Op schema) (Tx.Reply schema) :=
  Tx.system (M := schema) (arrivals numbers hash admits)

/-! ## Reading back -/

def Row.event (r : Row) : Event where
  id := r.id
  occurredAt := r.occurredAt * microsecond
  actorType := r.actorType
  actorID := r.actorID.getD UUID.nil
  action := r.action
  resourceType := r.resourceType
  resourceID := r.resourceID.getD UUID.nil
  requestID := r.requestID
  sourceIPHash := r.sourceIPHash.getD []
  result := r.result
  reasonCode := r.reasonCode
  changes := .value r.changes
  previousHash := r.previousHash
  eventHash := r.eventHash

def Database.auditEvents (db : Database) : List Event := db.rows.map (·.event)

end RestFleet.AuditChain
