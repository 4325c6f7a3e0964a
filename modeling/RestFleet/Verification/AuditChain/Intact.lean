import RestFleet.Shared.Chain
import RestFleet.Shared.Request
import RestFleet.Shared.Schedule
import RestFleet.Verification.AuditChain.Encoding

/-! # The stored chain is intact -/

namespace RestFleet.AuditChain

variable {numbers : Numbers} {hash : Hash} {admits : Event → Prop} {t : ℕ}

abbrev Linked (numbers : Numbers) (hash : Hash) (events : List Event) : Prop :=
  Chain.Linked Event.previousHash Event.eventHash (computeAuditHash numbers hash) [] events

/-- No number of the changes is a zero with a minus sign. -/
def Clean (e : Event) : Prop :=
  ∀ j, e.changes = .value j → ∀ l ∈ j.literals, negativeZero l = false

theorem Clean.value {e : Event} (h : Clean e) {j : Json} (hj : e.changes.value? = some j) :
    ∀ l ∈ j.literals, negativeZero l = false := by
  unfold Changes.value? at hj
  split at hj
  · cases hj
    exact fun l hl => nomatch hl
  · cases hj
  · rename_i hchanges
    cases hj
    exact h _ hchanges

def discipline (numbers : Numbers) (hash : Hash) : Tx.Discipline schema where
  good := fun db => Linked numbers hash db.auditEvents
  frame := fun k db db' => k = .chain → db'.rows = db.rows
  own := fun _ _ _ => True
  evolves := fun _ _ => True
  frame_refl := fun _ _ _ => rfl
  frame_trans := fun _ _ _ _ h h' hk => (h' hk).trans (h hk)
  own_refl := fun _ _ => trivial
  own_trans := fun _ _ _ _ _ _ => trivial
  evolves_refl := fun _ => trivial
  evolves_trans := fun _ _ _ _ _ => trivial

def extend (new : List Row) (db : Database) : Database := ⟨db.rows ++ new⟩

abbrev Spec {α : Type} (numbers : Numbers) (hash : Hash) (admits : Event → Prop) (t : ℕ)
    (A : Tx.State schema → Prop) (x : AuditM α) (Q : α → Tx.State schema → Prop) : Prop :=
  Tx.Body (arrivals numbers hash admits) (discipline numbers hash) t A x Q

/-- A transaction with rows of its own, if any, that continue the chain. -/
def Ready (numbers : Numbers) (hash : Hash) (t : ℕ) (new : List Row) (s : Tx.State schema) : Prop :=
  ∃ keys, (new = [] ∨ Key.chain ∈ keys) ∧ Tx.In (M := schema) t keys (extend new)
    (fun db => new = [] ∨ Linked numbers hash (extend new db).auditEvents) s

variable {new : List Row}

def marked : Hash where
  sum x := 0 :: x
  injective _ _ h := (List.cons.inj h).2
  nonempty _ := List.cons_ne_nil _ _

instance : DecidableRel schema.conflicts := fun _ _ => inferInstanceAs (Decidable False)

end RestFleet.AuditChain
