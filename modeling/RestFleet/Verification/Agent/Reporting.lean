import Mathlib.Data.Prod.Lex
import RestFleet.Model.Agent.Reports
import RestFleet.Shared.Window
import RestFleet.Verification.Strings

/-! # The records that are reported first -/

namespace RestFleet.Agent.State

variable {s : State} {now interval : Backup.Stamp} {a b c r : OperationRecord}

/-! ### The order of a batch -/

def Before (a b : OperationRecord) : Prop := before a b = true

instance : DecidableRel Before := fun a b => inferInstanceAs (Decidable (before a b = true))

/-- The place of a record: results first, then the time of the last report, then the identifier. -/
def rank (r : OperationRecord) : ℕ ×ₗ ℤ ×ₗ ℕ :=
  toLex (if r.terminal then 0 else 1, toLex (r.lastReportedAt, r.id.toNat))

theorem before_iff : Before a b ↔ rank a ≤ rank b := by
  rw [Before, before, rank, rank, Prod.Lex.toLex_le_toLex, Prod.Lex.toLex_le_toLex]
  cases a.terminal <;> cases b.terminal <;> simp
  all_goals
    split
    case isTrue heq => simp [heq, BitVec.le_def]
    case isFalse hne => simp [hne]

theorem less_iff : less a b = true ↔ rank a < rank b := by
  rw [less, rank, rank, Prod.Lex.toLex_lt_toLex, Prod.Lex.toLex_lt_toLex]
  cases a.terminal <;> cases b.terminal <;> simp
  all_goals
    split
    case isTrue heq => simp [heq, UUID.text_lt_iff, BitVec.lt_def]
    case isFalse hne => simp [hne]

/-- `sort.Slice` leaves two records as they are unless the second is less. -/
theorem not_less_iff : less b a = false ↔ Before a b := by
  rw [before_iff, ← not_lt, ← less_iff, Bool.not_eq_true]

instance : Std.Total Before where
  total a b := by
    rw [before_iff, before_iff]
    exact le_total _ _

instance : IsTrans OperationRecord Before where
  trans _ _ _ hab hbc := before_iff.mpr ((before_iff.mp hab).trans (before_iff.mp hbc))

theorem Before.antisymm (hab : Before a b) (hba : Before b a) : a.id = b.id := by
  have hrank := le_antisymm (before_iff.mp hab) (before_iff.mp hba)
  exact BitVec.eq_of_toNat_eq (congrArg (fun k => (ofLex (ofLex k).2).2) hrank)

/-! ### The scan -/

def Keyed (s : State) : Prop := ∀ id r, s.records.row id = some r → r.id = id

theorem mem_visited : r ∈ s.visited ↔ ∃ id, s.records.row id = some r := by
  rw [visited, List.mem_filterMap]
  constructor
  · rintro ⟨id, -, hid⟩
    exact ⟨id, hid⟩
  · rintro ⟨id, hid⟩
    refine ⟨id, ?_, hid⟩
    rw [List.mem_insertionSort, List.mem_dedup]
    exact s.records.listed id (by simp [hid])

theorem nodup_visited (h : s.Keyed) : (s.visited.map (·.id)).Nodup := by
  have hkeys : (s.records.keys.dedup.insertionSort (· ≤ ·)).Nodup :=
    (List.perm_insertionSort _ _).nodup_iff.mpr (List.nodup_dedup _)
  rw [visited, List.map_filterMap]
  refine hkeys.filterMap ?_
  intro id id' x hx hx'
  obtain ⟨r, hr, rfl⟩ := Option.map_eq_some_iff.mp hx
  obtain ⟨r', hr', heq⟩ := Option.map_eq_some_iff.mp hx'
  rw [← h id r hr, ← h id' r' hr', heq]

theorem strict_visited (h : s.Keyed) : Strict Before s.visited := by
  intro a ha b hb hab hba
  obtain ⟨id, hid⟩ := mem_visited.mp ha
  obtain ⟨id', hid'⟩ := mem_visited.mp hb
  have heq : id = id' := (h id a hid).symm.trans ((hab.antisymm hba).trans (h id' b hid'))
  rw [heq, hid'] at hid
  exact (Option.some.inj hid).symm

theorem due_eq : s.due now interval r = (!s.withheld r && ready now interval r) := rfl

theorem scanRecord_of_due {sort : List OperationRecord → List OperationRecord}
    (items : List OperationRecord) (h : s.due now interval r = true) :
    s.scanRecord sort now interval items r = (sort (items ++ [r])).take maxReportsPerBatch := by
  rw [due_eq, Bool.and_eq_true, Bool.not_eq_true'] at h
  simp only [scanRecord, h.1, h.2, Bool.false_eq_true, if_false, if_true]
  split
  · rfl
  · exact (List.take_of_length_le (by omega)).symm

theorem scanRecord_of_not_due {sort : List OperationRecord → List OperationRecord}
    (items : List OperationRecord) (h : s.due now interval r = false) :
    s.scanRecord sort now interval items r = items ∨
      s.scanRecord sort now interval items r = (sort items).take maxReportsPerBatch := by
  unfold scanRecord
  split
  case isTrue => exact .inl rfl
  case isFalse hw =>
    have hready : ready now interval r = false := by simpa [due_eq, hw] using h
    refine .inr ?_
    simp only [hready, Bool.false_eq_true, if_false]
    split
    · rfl
    · exact (List.take_of_length_le (by omega)).symm

theorem not_withheld (h : s.withheld r = false) {id : UUID} (hid : r.parentOperationID = some id)
    {previous : OperationRecord} (hrow : s.records.row id = some previous) :
    previous.uploaded = true := by
  simpa [withheld, hid, hrow] using h

/-- `ReportableOperations` returns the first records of all that are due, however it sorts, and a
retry only after its stored parent has been uploaded. -/
theorem scanReportable_first (s : State) (hkeyed : s.Keyed)
    (sort : List OperationRecord → List OperationRecord)
    (hsort : Sorts (fun a b => less b a = false) sort) (now interval : Backup.Stamp) :
    s.scanReportable sort now interval =
        ((s.visited.filter (s.due now interval)).insertionSort Before).take maxReportsPerBatch ∧
      (∀ r, r ∈ s.visited ↔ ∃ id, s.records.row id = some r) ∧
      (s.visited.map (·.id)).Nodup ∧
      ∀ r ∈ s.scanReportable sort now interval, ∀ id previous, r.parentOperationID = some id →
        s.records.row id = some previous → previous.uploaded = true := by
  have hbefore : Sorts Before sort :=
    ⟨hsort.perm, fun l => (hsort.sorted l).imp fun h => not_less_iff.mp h⟩
  have hscan : s.scanReportable sort now interval =
      ((s.visited.filter (s.due now interval)).insertionSort Before).take maxReportsPerBatch :=
    foldl_window hbefore (s.due now interval) maxReportsPerBatch
      (fun items _ hr => scanRecord_of_due items hr)
      (fun items _ hr => scanRecord_of_not_due items hr) (strict_visited hkeyed)
  refine ⟨hscan, fun r => mem_visited, nodup_visited hkeyed, ?_⟩
  intro r hr id previous hid hrow
  rw [hscan] at hr
  have hdue := (List.mem_filter.mp ((List.mem_insertionSort _).mp (List.mem_of_mem_take hr))).2
  rw [due_eq, Bool.and_eq_true, Bool.not_eq_true'] at hdue
  exact not_withheld hdue.1 hid hrow

def retried : State where
  records := (Table.empty.insert 1 { newRecord 1 7 1 [] 0 .failed with finishedAt := 5 }).insert 2
    { newRecord 2 7 1 [] 0 .running with parentOperationID := some 1, attempt := 2 }
  plans := []
  nextRunAt := fun _ => none
  maxParallel := 1
  workers := []
  canceled := []

theorem keyed_retried : retried.Keyed := by
  intro id r h
  by_cases h2 : id = 2
  · subst h2
    rw [retried, Table.row_insert_self] at h
    cases h
    rfl
  · rw [retried, Table.row_insert_ne h2] at h
    by_cases h1 : id = 1
    · subst h1
      rw [Table.row_insert_self] at h
      cases h
      rfl
    · rw [Table.row_insert_ne h1] at h
      cases h

-- The result of the failed run goes first and alone.
theorem scanReportable_first_retried :
    (retried.scanReportable (List.insertionSort fun a b => less b a = false) 0 0).map (·.id) = [1] ∧
      ∀ r ∈ retried.scanReportable (List.insertionSort fun a b => less b a = false) 0 0,
        ∀ id previous, r.parentOperationID = some id → retried.records.row id = some previous →
          previous.uploaded = true := by
  have hsort : Sorts (fun a b => less b a = false)
      (List.insertionSort fun a b => less b a = false) := by
    refine ⟨List.perm_insertionSort _, fun l => ?_⟩
    have hrel : (fun a b : OperationRecord => less b a = false) = Before := by
      funext a b
      exact propext not_less_iff
    simpa [hrel] using List.pairwise_insertionSort Before l
  exact ⟨by decide +kernel, (scanReportable_first retried keyed_retried _ hsort 0 0).2.2.2⟩

end RestFleet.Agent.State
