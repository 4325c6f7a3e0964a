import Mathlib.Data.List.Dedup
import RestFleet.Model.Agent.Records

/-! # The scan for records to report

`ReportableOperations` as it runs over the bucket: it sorts what it has found after every record and
keeps at most a batch of it. -/

namespace RestFleet.Agent.State

def maxReportsPerBatch : ℕ := 32

def less (a b : OperationRecord) : Bool :=
  if a.terminal ≠ b.terminal then a.terminal
  else if a.lastReportedAt ≠ b.lastReportedAt then a.lastReportedAt < b.lastReportedAt
  else a.id.text < b.id.text

/-- What `ForEach` visits: every key once, in the order of the bytes. -/
def visited (s : State) : List OperationRecord :=
  (s.records.keys.dedup.insertionSort (· ≤ ·)).filterMap s.records.row

def ready (now interval : Backup.Stamp) (r : OperationRecord) : Bool :=
  r.terminal && !r.uploaded && (interval = 0 || resultRetryInterval ≤ now - r.lastReportedAt) ||
    r.status = .running && interval ≤ now - r.lastReportedAt

/-- One record of the scan; `sort` is `sort.Slice` with `less`. -/
def scanRecord (sort : List OperationRecord → List OperationRecord) (s : State)
    (now interval : Backup.Stamp) (items : List OperationRecord) (r : OperationRecord) :
    List OperationRecord :=
  if s.withheld r then items
  else
    let items := sort (if ready now interval r then items ++ [r] else items)
    if items.length > maxReportsPerBatch then items.take maxReportsPerBatch else items

def scanReportable (sort : List OperationRecord → List OperationRecord) (s : State)
    (now interval : Backup.Stamp) : List OperationRecord :=
  s.visited.foldl (s.scanRecord sort now interval) []

end RestFleet.Agent.State
