import RestFleet.Model.Agent.Scheduler
import RestFleet.Shared.Interleaving

/-! # The Agent process

The goroutines of one Agent over its bbolt file. Every bbolt transaction and every critical section of
`runMu` is one operation; `schedulerMu` is taken and released. -/

namespace RestFleet.Agent

open Backup (Stamp)
open Schedule (operationID)

/-- A context: its own number, then those of the contexts it is derived from. -/
abbrev Ctx := List ℕ

/-- What a worker goes on with: its record, and the runs that it ends when it returns. -/
structure Run where
  record : OperationRecord
  plan : Domain.PlanSchedule
  deadline : Stamp
  ctx : Ctx
  opened : List (UUID × Ctx)

/-- The updates of single fields of a record. -/
inductive Mark where
  | uploaded
  | reported (now : Stamp)
  | counted (c : State.Counters)

def Mark.apply : Mark → OperationRecord → OperationRecord
  | .uploaded, r => if r.terminal then { r with uploaded := true } else r
  | .reported now, r => { r with lastReportedAt := now }
  | .counted c, r => c.apply r

inductive Write where
  | putOperation (r : OperationRecord)
  | updateOperation (id : UUID) (m : Mark)
  | putPlanRuntime (rt : PlanRuntime)
  | putOperationWithRuntime (r : OperationRecord) (rt : PlanRuntime)
  | finishWithRetry (r : OperationRecord) (next : Option OperationRecord)
  | recoverRunningOperations (now : Stamp)
  | activate (next : Domain.DesiredState) (runtimes : UUID → Option PlanRuntime)

namespace Write

def apply (d : Durable) : Write → Durable
  | putOperation r => d.putOperation r
  | updateOperation id m => { d with records := d.records.modify id m.apply }
  | putPlanRuntime rt => d.putPlanRuntime rt
  | putOperationWithRuntime r rt => d.putOperationWithRuntime r rt
  | finishWithRetry r none => d.putOperation r
  | finishWithRetry r (some next) => (d.putOperation r).putOperation next
  | recoverRunningOperations now => { d with records := d.records.map (State.recover now) }
  | activate next runtimes => { d with desired := some next, runtimes }

/-- The names of slots that a transaction relies on. -/
def names : Write → List (UUID × ℤ)
  | putPlanRuntime rt => rt.lastScheduledAt.toList.map fun x => (rt.planID, Schedule.unixSecond x)
  | putOperationWithRuntime r _ => [(r.planID, Schedule.unixSecond r.scheduledAt)]
  | _ => []

end Write

/-- No two of the names have the same UUID. -/
def Site.distinct (site : Site) (names : List (UUID × ℤ)) : Bool :=
  names.all fun a => names.all fun b => site.nameID a.1 a.2 ≠ site.nameID b.1 b.2 || a = b

/-- What the process holds in memory. From `jobs` on, nothing is read by the code: the jobs that came,
the threads of operations, the contexts of runs, what executes, and the cancels by what they did. -/
structure Memory where
  ready : Bool
  schedulerMu : Option ℕ
  tick : TickState
  running : UUID → Option Ctx
  canceled : List UUID
  done : List ℕ
  contexts : ℕ
  roots : List ℕ
  starts : List (ℕ × Run)
  live : List ℕ
  jobs : List UUID
  owner : UUID → Option ℕ
  begun : UUID → Option Ctx
  executing : ℕ → Option (OperationRecord × Ctx)
  requested : List UUID
  struck : List UUID
  consumed : List UUID
  dropped : List UUID

def Memory.initial : Memory where
  ready := false
  schedulerMu := none
  tick := ⟨0, 0⟩
  running := fun _ => none
  canceled := []
  done := []
  contexts := 1
  roots := [0]
  starts := []
  live := []
  jobs := []
  owner := fun _ => none
  begun := fun _ => none
  executing := fun _ => none
  requested := []
  struck := []
  consumed := []
  dropped := []

structure Process where
  durable : Durable
  history : List Write
  clock : Stamp
  mem : Memory

def Durable.empty : Durable := ⟨.empty, fun _ => none, none⟩

/-! ## Operations -/

inductive Op where
  | acquire
  | release
  | view
  | now
  | choose
  | tickState
  | setTick (now interval : Stamp)
  | store (w : Write)
  | finishWithRetry (p : Domain.PlanSchedule) (r : OperationRecord) (deadline : Stamp)
      (allowRetry : Bool)
  | activate (previous : List Domain.PlanSchedule) (next : Domain.DesiredState)
  | beginOperation (parent : Ctx) (id : UUID)
  | endRun (id : UUID) (ctx : Ctx)
  | cancelRun (id : UUID)
  | consumeCancel (id : UUID)
  | isDone (ctx : Ctx)
  | wait (ctx : Ctx)
  | execute (r : OperationRecord) (ctx : Ctx)
  | outcome
  | go (run : Run)
  | boot

def Reply : Op → Type
  | .view => Durable
  | .now => Stamp
  | .choose | .store _ | .activate _ _ | .consumeCancel _ | .isDone _ | .wait _ => Bool
  | .tickState => TickState
  | .finishWithRetry _ _ _ _ => Option (Option OperationRecord)
  | .beginOperation _ _ => Ctx
  | .outcome => OperationOutcome
  | _ => Unit

abbrev AgentM := Program Op Reply

/-- What comes from outside: whether the file can be written, the clock, a random UUID, a choice, the
outcome of a backup and the identity of a goroutine. -/
structure Answer where
  fails : Bool
  now : Stamp
  newID : UUID
  flag : Bool
  outcome : OperationOutcome
  thread : ℕ

/-- The context was canceled, or one that it is derived from. -/
def Memory.isDone (m : Memory) (ctx : Ctx) : Bool := ctx.any (m.done.contains ·)

def Memory.own (m : Memory) (t : ℕ) (r : OperationRecord) : Memory :=
  if r.status = .running then { m with owner := Function.update m.owner r.id (some t) } else m

namespace Process

def write (s : Process) (w : Write) : Process :=
  { s with durable := w.apply s.durable, history := s.history ++ [w] }

/-- The owner of the record that a transaction adds, and a consumed cancel whose result it is. -/
def noteWrite (t : ℕ) (s : Process) : Write → Memory
  | .putOperation r =>
    if (s.durable.records.row r.id).isSome then s.mem
    else if r.status = .canceled then { s.mem with dropped := s.mem.dropped.filter (· ≠ r.id) }
    else s.mem.own t r
  | .putOperationWithRuntime r _ => s.mem.own t r
  | .finishWithRetry _ (some next) => s.mem.own t next
  | _ => s.mem

/-- A transaction of thread `t`. Names of slots do not collide. -/
def commit (site : Site) (t : ℕ) (s : Process) (w : Write) : Option Process :=
  if site.distinct ((s.history ++ [w]).flatMap Write.names) then
    some { s.write w with mem := s.noteWrite t w }
  else none

def beginOperation (m : Memory) (parent : Ctx) (id : UUID) : Ctx × Memory :=
  let ctx := m.contexts :: parent
  (ctx,
    { m with
      contexts := m.contexts + 1
      done := if m.canceled.contains id then m.contexts :: m.done else m.done
      running := Function.update m.running id (some ctx)
      begun := Function.update m.begun id (some ctx) })

def endRun (m : Memory) (id : UUID) (ctx : Ctx) : Memory :=
  { m with
    done := ctx.head?.toList ++ m.done
    running := Function.update m.running id none
    canceled := m.canceled.filter (· ≠ id)
    owner := Function.update m.owner id none }

def maxCancels : ℕ := 256

def cancelRun (m : Memory) (id : UUID) : Memory :=
  match m.running id with
  | some ctx =>
    { m with
      done := ctx.head?.toList ++ m.done
      requested := id :: m.requested
      struck := id :: m.struck }
  | none =>
    let canceled :=
      if m.canceled.length < maxCancels ∧ id ∉ m.canceled then id :: m.canceled else m.canceled
    { m with
      canceled
      requested := if canceled.contains id then id :: m.requested else m.requested }

def consumeCancel (m : Memory) (id : UUID) : Bool × Memory :=
  if m.canceled.contains id then
    (true,
      { m with
        canceled := m.canceled.filter (· ≠ id)
        consumed := id :: m.consumed
        dropped := id :: m.dropped })
  else (false, m)

def perform (site : Site) (t : ℕ) (op : Op) (a : Answer) (s : Process) :
    Option (Reply op × Process) :=
  match op with
  | .acquire =>
    if s.mem.schedulerMu.isNone then
      some ((), { s with mem := { s.mem with schedulerMu := some t } })
    else none
  | .release => some ((), { s with mem := { s.mem with schedulerMu := none } })
  | .view => some (s.durable, s)
  | .now => if s.clock ≤ a.now then some (a.now, { s with clock := a.now }) else none
  | .choose => some (a.flag, s)
  | .tickState => some (s.mem.tick, s)
  | .setTick now interval => some ((), { s with mem := { s.mem with tick := ⟨now, interval⟩ } })
  | .store w => if a.fails then some (false, s) else (s.commit site t w).map fun s => (true, s)
  | .finishWithRetry p r deadline allowRetry =>
    if a.fails then some (none, s)
    else if a.now < s.clock ∨ !a.newID.isV7 ∨ (s.durable.records.row a.newID).isSome ∨
        a.newID ∈ s.mem.jobs then none
    else
      let next := s.durable.state.retry (.of p) r deadline allowRetry a.now a.newID
      ({ s with clock := a.now }.commit site t (.finishWithRetry r next)).map fun s =>
        (some next, s)
  | .activate previous next =>
    if a.now < s.clock then none
    else if a.fails then some (false, s)
    else match reconcilePlanRuntimes site previous next.plans a.now s.durable.runtimes with
      | none => some (false, s)
      | some runtimes =>
        ({ s with clock := a.now }.commit site t (.activate next runtimes)).map fun s => (true, s)
  | .beginOperation parent id =>
    let (ctx, m) := beginOperation s.mem parent id
    some (ctx, { s with mem := m })
  | .endRun id ctx => some ((), { s with mem := endRun s.mem id ctx })
  | .cancelRun id => some ((), { s with mem := cancelRun s.mem id })
  | .consumeCancel id =>
    let (found, m) := consumeCancel s.mem id
    some (found, { s with mem := m })
  | .isDone ctx => some (s.mem.isDone ctx, s)
  | .wait ctx => if a.flag && !s.mem.isDone ctx then none else some (a.flag, s)
  | .execute r ctx =>
    some ((), { s with mem :=
      { s.mem with executing := Function.update s.mem.executing t (some (r, ctx)) } })
  | .outcome =>
    if a.outcome.valid then
      some (a.outcome, { s with mem :=
        { s.mem with executing := Function.update s.mem.executing t none } })
    else none
  | .go run =>
    if a.thread ∈ s.mem.live ∨ a.thread ∈ s.mem.starts.map Prod.fst then none
    else some ((), { s with mem :=
      { s.mem with
        starts := (a.thread, run) :: s.mem.starts
        owner := fun id =>
          if id ∈ run.opened.map Prod.fst then some a.thread else s.mem.owner id } })
  | .boot => some ((), { s with mem := { s.mem with ready := true } })

end Process

end RestFleet.Agent
