import Mathlib.Algebra.Order.Ring.Int
import RestFleet.Model.Agent.Goroutines
import RestFleet.Verification.Agent.Slots
import RestFleet.Verification.Domain.Codec

/-! # The retries of a worker

A round is what one pass of a worker's loop is answered, whatever else runs. -/

namespace RestFleet.Agent

open Backup (Stamp ErrorCode)

/-! ## The delay -/

namespace RetryPolicy

def initial (p : RetryPolicy) : ℤ := if p.initialBackoffSeconds = 0 then 60 else p.initialBackoffSeconds

def maximum (p : RetryPolicy) : ℤ := if p.maxBackoffSeconds = 0 then 1800 else p.maxBackoffSeconds

/-- The loop stops early only where the maximum is reached. -/
theorem min_double {maximum : ℤ} (n : ℕ) {seconds : ℤ} (h : 0 ≤ seconds) :
    min (double maximum n seconds) maximum = min (seconds * 2 ^ n) maximum := by
  induction n generalizing seconds with
  | zero => simp [double]
  | succ n ih =>
      have hpow : seconds * 2 ^ (n + 1) = seconds * 2 * 2 ^ n := by rw [pow_succ', mul_assoc]
      unfold double
      split_ifs with hlt
      · rw [ih (by omega), hpow]
      · have hle : seconds ≤ seconds * 2 ^ (n + 1) :=
          le_mul_of_one_le_right h (one_le_pow₀ (by decide))
        rw [min_eq_right (not_lt.mp hlt), min_eq_right ((not_lt.mp hlt).trans hle)]

theorem backoff_eq {p : RetryPolicy} (h : p.validate = true) (attempt : ℤ) :
    p.backoff attempt = min (p.initial * 2 ^ (attempt - 1).toNat) p.maximum := by
  have hinitial : 0 ≤ p.initial := by
    simp only [validate, Bool.and_eq_true, decide_eq_true_eq] at h
    unfold initial
    split_ifs <;> omega
  exact min_double _ hinitial

end RetryPolicy

/-! ## One retry -/

/-- The number of an attempt; one that is not set is the first. -/
def OperationRecord.number (r : OperationRecord) : ℤ := if r.attempt = 0 then 1 else r.attempt

/-- The operation that a chain of attempts starts from. -/
def OperationRecord.root (r : OperationRecord) : UUID := r.rootOperationID.getD r.id

/-- The instants of a retry that is created at `now`, of attempt number `k`. -/
structure Timed (policy : RetryPolicy) (k : ℤ) (deadline now : Stamp) (nextRun : Option Stamp)
    (next : OperationRecord) : Prop where
  within : next.attempt ≤ policy.attempts
  instants : ∃ retryAt limit, next.retryAt = some retryAt ∧ next.deadline = some limit ∧
    retryAt = now + min (policy.initial * 2 ^ (k - 1).toNat) policy.maximum * second ∧
    retryAt < limit ∧ limit ≤ deadline ∧ ∀ x, nextRun = some x → limit ≤ x

/-- A retry of `r`, when the file allows for it. -/
structure Retried (s : State) (p : PlanSchedule) (r : OperationRecord) (deadline now : Stamp)
    (next : OperationRecord) : Prop where
  failed : r.status = .failed
  retryable : r.errorCode.retryable = true
  current : s.plans.any (·.same p) = true
  parent : next.parentOperationID = some r.id
  attempt : next.attempt = r.number + 1
  root : next.rootOperationID = some r.root
  planID : next.planID = r.planID
  planRevision : next.planRevision = r.planRevision
  configHash : next.configHash = r.configHash
  timed : ∃ policy, p.retryPolicy = some policy ∧
    Timed policy r.number deadline now (s.nextRunAt p.planID) next

theorem retryDeadline_le (s : State) (planID : UUID) (deadline : Stamp) :
    s.retryDeadline planID deadline ≤ deadline ∧
      ∀ x, s.nextRunAt planID = some x → s.retryDeadline planID deadline ≤ x := by
  unfold State.retryDeadline
  cases s.nextRunAt planID with
  | none => simp
  | some x =>
      dsimp only
      split_ifs with hlt
      · exact ⟨hlt.le, fun _ h => (Option.some.inj h).le⟩
      · exact ⟨le_rfl, fun _ h => (not_lt.mp hlt).trans (Option.some.inj h).le⟩

theorem retried_of_retry {s : State} {p : PlanSchedule} {r next : OperationRecord}
    {deadline now : Stamp} {allowRetry : Bool} {newID : UUID}
    (hpolicy : ∀ q, p.retryPolicy = some q → q.validate = true)
    (h : s.retry p r deadline allowRetry now newID = some next) :
    allowRetry = true ∧ Retried s p r deadline now next := by
  unfold State.retry at h
  obtain ⟨hallowed, h⟩ := Option.ite_none_left_eq_some.mp h
  simp only [Bool.or_eq_true, Bool.not_eq_true', decide_eq_true_eq, not_or, Bool.not_eq_false,
    not_not] at hallowed
  obtain ⟨⟨hallow, hfailed⟩, hretryable⟩ := hallowed
  cases hq : p.retryPolicy with
  | none => simp [hq] at h
  | some policy =>
      simp only [hq] at h
      obtain ⟨hattempts, h⟩ := Option.ite_none_left_eq_some.mp h
      obtain ⟨hcurrent, h⟩ := Option.ite_none_left_eq_some.mp h
      obtain ⟨hlate, h⟩ := Option.ite_none_left_eq_some.mp h
      obtain rfl := Option.some.inj h
      obtain ⟨hlimit, hnext⟩ := retryDeadline_le s p.planID deadline
      refine ⟨hallow, hfailed, hretryable, by simpa using hcurrent, rfl, rfl, rfl, rfl, rfl, rfl,
        policy, hq, Int.add_one_le_of_lt (not_le.mp hattempts), _, _, rfl, rfl, ?_,
        not_le.mp hlate, hlimit, hnext⟩
      rw [RetryPolicy.backoff_eq (hpolicy policy hq)]
      rfl

/-! ## Rounds -/

/-- A transaction of `finishWithRetry`: the file that it finds, the clock and the new identifier. -/
structure Commit where
  durable : Durable
  now : Stamp
  newID : UUID

/-- What the operations of a worker are answered in one pass of its loop, each of them when it comes
to it. -/
structure Round where
  started : Bool
  outcome : OperationOutcome
  logged : Bool
  finishedAt : Stamp
  done : Bool
  commit : Option Commit
  ctx : Ctx
  canceled : Bool
  later : Durable
  laterAt : Stamp
  closedAt : Stamp
  closed : Bool

abbrev Effected := (op : Op) × Reply op

namespace Round

variable (x : Round) (run : Run)

def ended : OperationRecord :=
  let o := if x.started then x.outcome else storageUnavailable .zero
  run.record.finish (if x.logged then o else storageUnavailable o) x.finishedAt

def reply : Option (Option OperationRecord) :=
  x.commit.map fun c => c.durable.state.retry (.of run.plan) (x.ended run) run.deadline (!x.done)
    c.now c.newID

def child : Option OperationRecord := (x.reply run).join

def next (child : OperationRecord) : Run :=
  ⟨child, run.plan, child.deadline.getD 0, x.ctx, (child.id, x.ctx) :: run.opened⟩

/-- After the wait, the plan is no longer what it was, or it is too late. -/
def superseded : Bool :=
  !(x.later.plans.any fun q => (PlanSchedule.of q).same (.of run.plan)) || run.deadline ≤ x.laterAt

/-! ### What a worker does in a round -/

def ending : List Effected := run.opened.map fun o => ⟨.endRun o.1 o.2, ()⟩

def closing (code : ErrorCode) : List Effected :=
  ⟨.now, x.closedAt⟩ ::
    ⟨.store (.putOperation (State.closeRetry run.record code x.closedAt)), x.closed⟩ :: ending run

def waiting : List Effected :=
  ⟨.wait run.ctx, x.canceled⟩ ::
    if x.canceled then x.closing run .canceled
    else ⟨.view, x.later⟩ :: ⟨.now, x.laterAt⟩ ::
      if x.superseded run then x.closing run .configSuperseded else [⟨.go run, ()⟩]

def executing : List Effected :=
  if x.started then
    [⟨.choose, true⟩, ⟨.execute run.record run.ctx, ()⟩, ⟨.outcome, x.outcome⟩]
  else [⟨.choose, false⟩]

def events : List Effected :=
  x.executing run ++ [⟨.choose, x.logged⟩, ⟨.now, x.finishedAt⟩, ⟨.isDone run.ctx, x.done⟩,
    ⟨.finishWithRetry run.plan (x.ended run) run.deadline (!x.done), x.reply run⟩] ++
    match x.child run with
    | none => ending run
    | some child => ⟨.beginOperation run.ctx child.id, x.ctx⟩ :: x.waiting (x.next run child)

end Round

/-! ### Every pass of the loop is a round -/

/-- What the Agent answers an operation in some state of it. -/
def Answered (site : Site) (op : Op) (r : Reply op) : Prop :=
  ∃ t a s s', Process.perform site t op a s = some (r, s')

section

variable {site : Site} {run : Run} {es : List Effected}

theorem trace_endRuns {opened : List (UUID × Ctx)}
    (h : (endRuns opened).Trace (Answered site) es ()) :
    es = opened.map fun o => ⟨.endRun o.1 o.2, ()⟩ := by
  induction opened generalizing es with
  | nil => exact h.1
  | cons o rest ih =>
      obtain ⟨⟨⟩, tail, -, hes, htail⟩ := Program.trace_perform_bind h
      rw [hes, ih htail]
      rfl

theorem trace_closeRetry {code : ErrorCode}
    (h : (Agent.closeRetry run code).Trace (Answered site) es ()) :
    ∃ (closedAt : Stamp) (closed : Bool), es = ⟨.now, closedAt⟩ ::
      ⟨.store (.putOperation (State.closeRetry run.record code closedAt)), closed⟩ ::
        Round.ending run := by
  obtain ⟨closedAt, es₁, -, hes, h₁⟩ := Program.trace_perform_bind h
  obtain ⟨closed, es₂, -, hes₁, h₂⟩ := Program.trace_perform_bind h₁
  refine ⟨closedAt, closed, ?_⟩
  rw [hes, hes₁, trace_endRuns h₂]
  rfl

theorem trace_executeRun {o : OperationOutcome}
    (h : (executeRun run).Trace (Answered site) es o) :
    ∃ (started : Bool) (outcome : OperationOutcome),
      o = (if started then outcome else storageUnavailable .zero) ∧
      es = if started then
        [⟨.choose, true⟩, ⟨.execute run.record run.ctx, ()⟩, ⟨.outcome, outcome⟩]
      else [⟨.choose, false⟩] := by
  obtain ⟨started, es₁, -, hes, h₁⟩ := Program.trace_perform_bind h
  cases hstarted : started with
  | false =>
      subst hstarted
      obtain ⟨hes₁, ho⟩ := h₁
      exact ⟨false, .zero, ho.symm, by rw [hes, hes₁]; rfl⟩
  | true =>
      subst hstarted
      obtain ⟨⟨⟩, es₂, -, hes₁, h₂⟩ := Program.trace_perform_bind h₁
      obtain ⟨-, hes₂⟩ := Program.trace_perform.mp h₂
      exact ⟨true, o, rfl, by rw [hes, hes₁, hes₂]; rfl⟩

/-- The end of a wait, by a cancel or by the timer. -/
theorem trace_waitForRetry (h : (waitForRetry run).Trace (Answered site) es ()) :
    ∃ (canceled : Bool) (later : Durable) (laterAt closedAt : Stamp) (closed : Bool),
      ∀ x : Round, x.canceled = canceled → x.later = later → x.laterAt = laterAt →
        x.closedAt = closedAt → x.closed = closed → es = x.waiting run := by
  obtain ⟨canceled, es₁, -, hes, h₁⟩ := Program.trace_perform_bind h
  cases hcanceled : canceled with
  | true =>
      subst hcanceled
      obtain ⟨closedAt, closed, hes₁⟩ := trace_closeRetry h₁
      refine ⟨true, .empty, 0, closedAt, closed, ?_⟩
      rintro ⟨⟩ rfl - - rfl rfl
      rw [hes, hes₁]
      rfl
  | false =>
      subst hcanceled
      obtain ⟨later, es₂, -, hes₁, h₂⟩ := Program.trace_perform_bind h₁
      obtain ⟨laterAt, es₃, -, hes₂, h₃⟩ := Program.trace_perform_bind h₂
      split_ifs at h₃ with hlate
      · obtain ⟨closedAt, closed, hes₃⟩ := trace_closeRetry h₃
        refine ⟨false, later, laterAt, closedAt, closed, ?_⟩
        rintro x hx rfl rfl rfl rfl
        have hsuperseded : x.superseded run = true := hlate
        rw [hes, hes₁, hes₂, hes₃, Round.waiting, hx, hsuperseded]
        rfl
      · obtain ⟨-, hes₃⟩ := Program.trace_perform.mp h₃
        refine ⟨false, later, laterAt, 0, false, ?_⟩
        rintro x hx rfl rfl - -
        have hsuperseded : x.superseded run = false := Bool.eq_false_iff.mpr hlate
        rw [hes, hes₁, hes₂, hes₃, Round.waiting, hx, hsuperseded]
        rfl

/-- What `finishWithRetry` answers is the retry in the file that it finds. -/
theorem exists_commit {p : Domain.PlanSchedule} {r : OperationRecord} {deadline : Stamp}
    {allowRetry : Bool} {reply : Option (Option OperationRecord)}
    (h : Answered site (.finishWithRetry p r deadline allowRetry) reply) :
    ∃ commit : Option Commit, reply = commit.map fun c =>
      c.durable.state.retry (.of p) r deadline allowRetry c.now c.newID := by
  obtain ⟨t, a, s, s', hperform⟩ := h
  simp only [Process.perform] at hperform
  split_ifs at hperform
  · cases hperform
    exact ⟨none, rfl⟩
  · obtain ⟨_, -, heq⟩ := Option.map_eq_some_iff.mp hperform
    cases heq
    exact ⟨some ⟨s.durable, a.now, a.newID⟩, rfl⟩

/-- Whatever the operations of a worker are answered, a pass of its loop is a round. -/
theorem exists_round (h : (work run).Trace (Answered site) es ()) :
    ∃ x : Round, es = x.events run := by
  obtain ⟨o, es₁, es₂, hes, hfirst, h₁⟩ := Program.trace_bind h
  obtain ⟨started, outcome, rfl, hes₁⟩ := trace_executeRun hfirst
  obtain ⟨logged, es₃, -, hes₂, h₂⟩ := Program.trace_perform_bind h₁
  obtain ⟨finishedAt, es₄, -, hes₃, h₃⟩ := Program.trace_perform_bind h₂
  obtain ⟨done, es₅, -, hes₄, h₄⟩ := Program.trace_perform_bind h₃
  obtain ⟨reply, es₆, hanswered, hes₅, h₅⟩ := Program.trace_perform_bind h₄
  obtain ⟨commit, hreply⟩ := exists_commit hanswered
  cases hchild : reply.join with
  | none =>
      have hended : es₆ = Round.ending run := by
        rcases reply with - | - | next
        · exact trace_endRuns h₅
        · exact trace_endRuns h₅
        · cases hchild
      let x : Round :=
        ⟨started, outcome, logged, finishedAt, done, commit, [], false, .empty, 0, 0, false⟩
      have hx : x.reply run = reply := hreply.symm
      refine ⟨x, ?_⟩
      rw [Round.events, Round.child, hx, hchild, hes, hes₁, hes₂, hes₃, hes₄, hes₅, hended,
        List.append_assoc]
      rfl
  | some next =>
      obtain rfl : reply = some (some next) := Option.join_eq_some_iff.mp hchild
      obtain ⟨ctx, es₇, -, hes₆, h₆⟩ := Program.trace_perform_bind h₅
      obtain ⟨canceled, later, laterAt, closedAt, closed, hwait⟩ := trace_waitForRetry h₆
      let x : Round := ⟨started, outcome, logged, finishedAt, done, commit, ctx, canceled, later,
        laterAt, closedAt, closed⟩
      have hx : x.reply run = some (some next) := hreply.symm
      refine ⟨x, ?_⟩
      rw [Round.events, Round.child, hx, hchild, hes, hes₁, hes₂, hes₃, hes₄, hes₅, hes₆,
        hwait x rfl rfl rfl rfl rfl, List.append_assoc]
      rfl

/-! ## The chain -/

def Current (d : Durable) (p : Domain.PlanSchedule) : Prop :=
  ∃ q ∈ d.plans, q.planID = p.planID ∧ q.revision = p.revision ∧ q.configHash = p.configHash

theorem current_iff {d : Durable} {p : Domain.PlanSchedule} :
    (d.plans.any fun q => (PlanSchedule.of q).same (.of p)) = true ↔ Current d p := by
  simp [Current, PlanSchedule.same, PlanSchedule.of, and_assoc]

/-- The passes of a worker that starts with `run`, each with the run that it works on. The run that
one pass hands on is that of the next. -/
inductive Life (site : Site) : Run → List (Run × Round) → Prop where
  | last {run x} (h : (work run).Trace (Answered site) (x.events run) ()) : Life site run [(run, x)]
  | next {run run' x rest} (h : (work run).Trace (Answered site) (x.events run) ())
      (hgo : ⟨.go run', ()⟩ ∈ x.events run) (hrest : Life site run' rest) :
      Life site run ((run, x) :: rest)

/-- A record that a pass creates; `first` is what the worker started with. -/
structure Created (first : Run) (pass : Run × Round) (child : OperationRecord) : Prop where
  undisturbed : pass.2.done = false
  failed : (pass.2.ended pass.1).status = .failed
  retryable : (pass.2.ended pass.1).errorCode.retryable = true
  parent : child.parentOperationID = some pass.1.record.id
  attempt : child.attempt = pass.1.record.number + 1
  root : child.rootOperationID = some first.record.root
  planID : child.planID = first.record.planID
  planRevision : child.planRevision = first.record.planRevision
  configHash : child.configHash = first.record.configHash
  timed : ∃ commit policy, pass.2.commit = some commit ∧ Current commit.durable first.plan ∧
    (PlanSchedule.of first.plan).retryPolicy = some policy ∧
    Timed policy pass.1.record.number pass.1.deadline commit.now
      ((commit.durable.runtimes first.plan.planID).bind (·.nextRunAt)) child

/-- A pass that works on what the one before it has created. -/
structure Continues (a b : Run × Round) : Prop where
  child : a.2.child a.1 = some b.1.record
  plan : b.1.plan = a.1.plan
  deadline : b.1.record.deadline = some b.1.deadline
  earlier : b.1.deadline ≤ a.1.deadline
  waited : a.2.canceled = false
  current : Current a.2.later b.1.plan
  timely : a.2.laterAt < b.1.deadline

theorem policy_of_execution {p : Domain.PlanSchedule}
    (h : Domain.validateExecution p.execution = .ok ()) :
    ∀ q, (PlanSchedule.of p).retryPolicy = some q → q.validate = true := by
  intro q hq
  obtain ⟨policy, hpolicy, rfl⟩ := Option.map_eq_some_iff.mp hq
  obtain ⟨e, he, hpolicy⟩ := Option.bind_eq_some_iff.mp hpolicy
  rw [he] at h
  obtain ⟨hvalid, -⟩ := Domain.BackupExecution.validate_ok.mp h
  have hpolicyValid := hvalid policy hpolicy
  unfold Domain.BackupRetryPolicy.validate at hpolicyValid
  obtain ⟨hrange, hlast⟩ := guard_ok.mp hpolicyValid
  have hbackoff := last_guard_ok.mp hlast
  simp only [Bool.or_eq_true, decide_eq_true_eq, not_or, not_lt] at hrange hbackoff
  simp only [RetryPolicy.validate, Bool.and_eq_true, decide_eq_true_eq]
  exact ⟨⟨⟨⟨⟨⟨hrange.1.1.1.1.1, hrange.1.1.1.1.2⟩, hrange.1.1.1.2⟩, hrange.1.1.2⟩, hrange.1.2⟩,
    hrange.2⟩, hbackoff⟩

theorem created_of_child {x : Round} {child : OperationRecord}
    (hplan : Domain.validateExecution run.plan.execution = .ok ())
    (h : x.child run = some child) : Created run (run, x) child := by
  obtain ⟨commit, hcommit, hretry⟩ := Option.map_eq_some_iff.mp (Option.join_eq_some_iff.mp h)
  obtain ⟨hallowed, hretried⟩ := retried_of_retry (policy_of_execution hplan) hretry
  obtain ⟨policy, hpolicy, htimed⟩ := hretried.timed
  exact {
    undisturbed := by simpa using hallowed
    failed := hretried.failed
    retryable := hretried.retryable
    parent := hretried.parent
    attempt := hretried.attempt
    root := hretried.root
    planID := hretried.planID
    planRevision := hretried.planRevision
    configHash := hretried.configHash
    timed := ⟨commit, policy, hcommit, by
      have hcurrent := hretried.current
      simp only [Durable.state, List.any_map] at hcurrent
      exact current_iff.mp hcurrent, hpolicy, htimed⟩ }

/-! ### The operations of a round -/

theorem ops_ending : (Round.ending run).map Sigma.fst = run.opened.map fun o => .endRun o.1 o.2 := by
  simp [Round.ending, Function.comp_def]

theorem ops_executing {x : Round} : (x.executing run).map Sigma.fst =
    if x.started then [.choose, .execute run.record run.ctx, .outcome] else [.choose] := by
  unfold Round.executing
  split_ifs <;> rfl

theorem ops_closing {x : Round} {code : ErrorCode} : (x.closing run code).map Sigma.fst =
    .now :: .store (.putOperation (State.closeRetry run.record code x.closedAt)) ::
      run.opened.map fun o => .endRun o.1 o.2 := by
  rw [← ops_ending]
  rfl

theorem ops_waiting {x : Round} : (x.waiting run).map Sigma.fst = .wait run.ctx ::
    if x.canceled then (x.closing run .canceled).map Sigma.fst
    else .view :: .now :: if x.superseded run then (x.closing run .configSuperseded).map Sigma.fst
      else [.go run] := by
  unfold Round.waiting
  split_ifs <;> rfl

theorem ops_events {x : Round} : (x.events run).map Sigma.fst =
    (x.executing run).map Sigma.fst ++ (.choose :: .now :: .isDone run.ctx ::
      .finishWithRetry run.plan (x.ended run) run.deadline (!x.done) ::
      match x.child run with
      | none => run.opened.map fun o => .endRun o.1 o.2
      | some child => .beginOperation run.ctx child.id ::
          (x.waiting (x.next run child)).map Sigma.fst) := by
  unfold Round.events
  cases x.child run with
  | none => simp [ops_ending]
  | some child => simp

/-- A run is handed on where the wait has ended by its timer, and nothing came in between. -/
theorem of_go_mem_events {x : Round} {run' : Run} (h : ⟨.go run', ()⟩ ∈ x.events run) :
    ∃ child, x.child run = some child ∧ x.canceled = false ∧ x.superseded run' = false ∧
      run' = x.next run child := by
  have hop : .go run' ∈ (x.events run).map Sigma.fst := List.mem_map_of_mem h
  have hexecuting : .go run' ∉ (x.executing run).map Sigma.fst := by
    rw [ops_executing]
    split_ifs <;> simp
  cases hchild : x.child run with
  | none => simp [ops_events, hexecuting, hchild] at hop
  | some child =>
      simp only [ops_events, hexecuting, hchild, ops_waiting, List.mem_append, List.mem_cons,
        reduceCtorEq, false_or] at hop
      split_ifs at hop with hcanceled hsuperseded
      · simp [ops_closing] at hop
      · simp [ops_closing] at hop
      · obtain rfl : run' = x.next run child := by simpa using hop
        exact ⟨child, rfl, by simpa using hcanceled, by simpa using hsuperseded, rfl⟩

theorem of_execute_mem_events {x : Round} {r : OperationRecord} {ctx : Ctx}
    (h : ⟨.execute r ctx, ()⟩ ∈ x.events run) : r = run.record := by
  have hop : .execute r ctx ∈ (x.events run).map Sigma.fst := List.mem_map_of_mem h
  have hclosing : ∀ run' code, .execute r ctx ∉ (x.closing run' code).map Sigma.fst := by
    intro run' code
    simp [ops_closing]
  have hwaiting : ∀ run', .execute r ctx ∉ (x.waiting run').map Sigma.fst := by
    intro run'
    rw [ops_waiting]
    split_ifs <;> simp [hclosing]
  have hmem : .execute r ctx ∈ (x.executing run).map Sigma.fst := by
    cases hchild : x.child run with
    | none => simpa [ops_events, hchild] using hop
    | some child => simpa [ops_events, hchild, hwaiting] using hop
  rw [ops_executing] at hmem
  split_ifs at hmem <;> simp_all

/-! ### Passes -/

/-- What is created later in the chain has the root and the plan of its beginning. -/
theorem Created.trans {x : Round} {child c : OperationRecord} {pass : Run × Round}
    (h : Created (x.next run child) pass c) (hchild : Created run (run, x) child) :
    Created run pass c where
  undisturbed := h.undisturbed
  failed := h.failed
  retryable := h.retryable
  parent := h.parent
  attempt := h.attempt
  root := by
    rw [h.root]
    show some (child.rootOperationID.getD child.id) = _
    rw [hchild.root]
    rfl
  planID := h.planID.trans hchild.planID
  planRevision := h.planRevision.trans hchild.planRevision
  configHash := h.configHash.trans hchild.configHash
  timed := h.timed

theorem continues_next {x y : Round} {child : OperationRecord} (hchild : x.child run = some child)
    (hcreated : Created run (run, x) child) (hcanceled : x.canceled = false)
    (hsuperseded : x.superseded (x.next run child) = false) :
    Continues (run, x) (x.next run child, y) := by
  obtain ⟨commit, policy, -, -, -, htimed⟩ := hcreated.timed
  obtain ⟨retryAt, limit, -, hlimit, -, -, hle, -⟩ := htimed.instants
  have hdeadline : (x.next run child).deadline = limit := by
    show child.deadline.getD 0 = limit
    rw [hlimit]
    rfl
  simp only [Round.superseded, Bool.or_eq_false_iff, Bool.not_eq_false', decide_eq_false_iff_not,
    not_le] at hsuperseded
  exact {
    child := hchild
    plan := rfl
    deadline := hlimit.trans (congrArg some hdeadline.symm)
    earlier := hdeadline.le.trans hle
    waited := hcanceled
    current := current_iff.mp hsuperseded.1
    timely := hsuperseded.2 }

theorem Life.head {passes : List (Run × Round)} (h : Life site run passes) :
    ∃ x rest, passes = (run, x) :: rest := by
  cases h with
  | last => exact ⟨_, [], rfl⟩
  | next => exact ⟨_, _, rfl⟩

end

/-- Every record that a worker creates is a retry of what its pass has worked on, with the root, the
plan, the revision and the hash of what the worker started with. A pass works on the record that the
one before it has created, if the wait was not canceled, the plan is still active and the deadline is
to come; nothing else is executed. -/
theorem retry_chain (site : Site) (run : Run)
    (hplan : Domain.validateExecution run.plan.execution = .ok ()) (passes : List (Run × Round))
    (h : Life site run passes) :
    (∀ pass ∈ passes, ∀ child, pass.2.child pass.1 = some child → Created run pass child) ∧
      passes.IsChain Continues ∧
      ∀ pass ∈ passes, ∀ r ctx, ⟨.execute r ctx, ()⟩ ∈ pass.2.events pass.1 → r = pass.1.record := by
  induction h with
  | last _ =>
      refine ⟨?_, .singleton _, ?_⟩
      · rintro _ hpass child hchild
        obtain rfl := List.mem_singleton.mp hpass
        exact created_of_child hplan hchild
      · rintro _ hpass r ctx hr
        obtain rfl := List.mem_singleton.mp hpass
        exact of_execute_mem_events hr
  | @next run run' x rest _ hgo hrest ih =>
      obtain ⟨child, hchild, hcanceled, hsuperseded, rfl⟩ := of_go_mem_events hgo
      have hcreated := created_of_child hplan hchild
      obtain ⟨hlater, hchain, hexecute⟩ := ih hplan
      refine ⟨?_, ?_, ?_⟩
      · rintro pass hpass c hc
        rcases List.mem_cons.mp hpass with rfl | hpass
        · exact created_of_child hplan hc
        · exact (hlater pass hpass c hc).trans hcreated
      · obtain ⟨y, tail, rfl⟩ := hrest.head
        exact hchain.cons_cons (continues_next hchild hcreated hcanceled hsuperseded)
      · rintro pass hpass r ctx hr
        rcases List.mem_cons.mp hpass with rfl | hpass
        · exact of_execute_mem_events hr
        · exact hexecute pass hpass r ctx hr

/-! ### A retry that runs -/

def retriedPlan : Domain.PlanSchedule :=
  { minutePlan 0 with execution := some ⟨some ⟨60, 3, 1800⟩, none, none, none⟩ }

def retriedFile : Durable :=
  ⟨.empty, fun _ => none, some ⟨1, 1, 1, [], ⟨1, 65536⟩, [retriedPlan]⟩⟩

def retriedProcess : Process := ⟨retriedFile, [], 0, .initial⟩

/-- The run of a slot at second 1, with a deadline at second 1000. -/
def retriedRun : Run :=
  ⟨State.slotRecord (.of retriedPlan) 0x01890000000050008000000000000004 second second .run,
    retriedPlan, 1000 * second, [0], [(0x01890000000050008000000000000004, [0])]⟩

/-- The Gateway is busy at second 2; the retry is due at second 62. -/
def busyRound : Round where
  started := true
  outcome := { OperationOutcome.zero with errorCode := .gatewayBusy }
  logged := true
  finishedAt := 2 * second
  done := false
  commit := some ⟨retriedFile, 2 * second, 0x01890000000070008000000000000005⟩
  ctx := [1, 0]
  canceled := false
  later := retriedFile
  laterAt := 62 * second
  closedAt := 0
  closed := false

def retriedChild : OperationRecord := (busyRound.child retriedRun).getD retriedRun.record

theorem busyRound_reply : busyRound.reply retriedRun = some (some retriedChild) := by
  decide +kernel

theorem busyRound_child : busyRound.child retriedRun = some retriedChild :=
  congrArg Option.join busyRound_reply

/-- The log of the retry cannot be written, nor the file. -/
def failedRound : Round := { busyRound with started := false, commit := none }

def retriedAnswer : Answer := ⟨false, 0, 0, false, .zero, 0⟩

theorem busyRound_current :
    busyRound.superseded (busyRound.next retriedRun retriedChild) = false := by
  decide +kernel

theorem answered_finishWithRetry (site : Site) :
    Answered site (.finishWithRetry retriedPlan (busyRound.ended retriedRun) retriedRun.deadline true)
      (some (some retriedChild)) := by
  rw [← busyRound_reply]
  exact ⟨0, { retriedAnswer with now := 2 * second, newID := 0x01890000000070008000000000000005 },
    retriedProcess, _, rfl⟩

theorem answered_now (site : Site) {t : Stamp} (h : 0 ≤ t) : Answered site .now t := by
  refine ⟨0, { retriedAnswer with now := t }, retriedProcess, { retriedProcess with clock := t }, ?_⟩
  have hclock : retriedProcess.clock ≤ t := h
  simp [Process.perform, hclock]

theorem trace_busyRound (site : Site) :
    (work retriedRun).Trace (Answered site) (busyRound.events retriedRun) () := by
  have hchoose : Answered site .choose true :=
    ⟨0, { retriedAnswer with flag := true }, retriedProcess, _, rfl⟩
  have houtcome : Answered site .outcome busyRound.outcome :=
    ⟨0, { retriedAnswer with outcome := busyRound.outcome }, retriedProcess, _, rfl⟩
  rw [Round.events, busyRound_child, busyRound_reply]
  refine ⟨true, _, hchoose, rfl, ?_⟩
  refine ⟨(), _, ⟨0, retriedAnswer, retriedProcess, _, rfl⟩, rfl, ?_⟩
  refine ⟨busyRound.outcome, _, houtcome, rfl, ?_⟩
  refine ⟨true, _, hchoose, rfl, ?_⟩
  refine ⟨2 * second, _, answered_now site (by decide), rfl, ?_⟩
  refine ⟨false, _, ⟨0, retriedAnswer, retriedProcess, _, rfl⟩, rfl, ?_⟩
  refine ⟨some (some retriedChild), _, answered_finishWithRetry site, rfl, ?_⟩
  refine ⟨[1, 0], _, ⟨0, retriedAnswer, retriedProcess, _, rfl⟩, rfl, ?_⟩
  refine ⟨false, _, ⟨0, retriedAnswer, retriedProcess, _, rfl⟩, rfl, ?_⟩
  refine ⟨retriedFile, _, ⟨0, retriedAnswer, retriedProcess, _, rfl⟩, rfl, ?_⟩
  refine ⟨62 * second, _, answered_now site (by decide), rfl, ?_⟩
  change (if busyRound.superseded (busyRound.next retriedRun retriedChild) = true then
      Agent.closeRetry (busyRound.next retriedRun retriedChild) .configSuperseded
      else go (busyRound.next retriedRun retriedChild)).Trace _
    (if busyRound.superseded (busyRound.next retriedRun retriedChild) = true then _ else _) ()
  rw [busyRound_current]
  exact ⟨(), [], ⟨0, retriedAnswer, retriedProcess, _, rfl⟩, rfl, rfl, rfl⟩

theorem trace_failedRound (site : Site) :
    (work (busyRound.next retriedRun retriedChild)).Trace (Answered site)
      (failedRound.events (busyRound.next retriedRun retriedChild)) () := by
  refine ⟨false, _, ⟨0, retriedAnswer, retriedProcess, _, rfl⟩, rfl, ?_⟩
  refine ⟨true, _, ⟨0, { retriedAnswer with flag := true }, retriedProcess, _, rfl⟩, rfl, ?_⟩
  refine ⟨2 * second, _, answered_now site (by decide), rfl, ?_⟩
  refine ⟨false, _, ⟨0, retriedAnswer, retriedProcess, _, rfl⟩, rfl, ?_⟩
  refine ⟨none, _, ⟨0, { retriedAnswer with fails := true }, retriedProcess, _, rfl⟩, rfl, ?_⟩
  refine ⟨(), _, ⟨0, retriedAnswer, retriedProcess, _, rfl⟩, rfl, ?_⟩
  exact ⟨(), [], ⟨0, retriedAnswer, retriedProcess, _, rfl⟩, rfl, rfl, rfl⟩

/-- The run, and after a minute its retry. -/
theorem retry_chain_busy :
    Created retriedRun (retriedRun, busyRound) retriedChild ∧
      Continues (retriedRun, busyRound) (busyRound.next retriedRun retriedChild, failedRound) ∧
      retriedChild.attempt = 2 ∧ retriedChild.retryAt = some (62 * second) := by
  have hgo : ⟨.go (busyRound.next retriedRun retriedChild), ()⟩ ∈ busyRound.events retriedRun := by
    have hcanceled : busyRound.canceled = false := rfl
    simp only [Round.events, busyRound_child, Round.waiting, busyRound_current, hcanceled,
      Bool.false_eq_true, if_false]
    exact List.mem_append_right _ (by simp)
  have hlife : Life minuteSite retriedRun
      [(retriedRun, busyRound), (busyRound.next retriedRun retriedChild, failedRound)] :=
    .next (trace_busyRound minuteSite) hgo (.last (trace_failedRound minuteSite))
  obtain ⟨hcreated, hchain, -⟩ := retry_chain minuteSite retriedRun rfl _ hlife
  exact ⟨hcreated _ List.mem_cons_self _ busyRound_child, (List.isChain_cons_cons.mp hchain).1, by decide +kernel,
    by decide +kernel⟩

/-! ### The runs that a worker ends -/

def begunRun : Effected → Option (UUID × Ctx)
  | ⟨.beginOperation _ id, ctx⟩ => some (id, ctx)
  | _ => none

def endedRun : Effected → Option (UUID × Ctx)
  | ⟨.endRun id ctx, _⟩ => some (id, ctx)
  | _ => none

/-- What a worker does until a pass hands on nothing. -/
inductive Worked (site : Site) : Run → List Effected → Prop where
  | stop {run es} (h : (work run).Trace (Answered site) es ())
      (hstop : ∀ run', ⟨.go run', ()⟩ ∉ es) : Worked site run es
  | next {run run' es rest} (h : (work run).Trace (Answered site) es ())
      (hgo : ⟨.go run', ()⟩ ∈ es) (hrest : Worked site run' rest) : Worked site run (es ++ rest)

section

variable (x : Round) (run : Run)

theorem endedRun_ending : (Round.ending run).filterMap endedRun = run.opened := by
  rw [Round.ending, List.filterMap_map]
  exact List.filterMap_some

theorem begunRun_ending : (Round.ending run).filterMap begunRun = [] := by
  simp [Round.ending, begunRun]

theorem runs_executing : (x.executing run).filterMap begunRun = [] ∧
    (x.executing run).filterMap endedRun = [] := by
  unfold Round.executing
  split_ifs <;> exact ⟨rfl, rfl⟩

theorem runs_waiting : (x.waiting run).filterMap begunRun = [] ∧ (x.waiting run).filterMap endedRun =
    if x.canceled || x.superseded run then run.opened else [] := by
  unfold Round.waiting
  cases x.canceled with
  | true => exact ⟨begunRun_ending run, endedRun_ending run⟩
  | false =>
      cases x.superseded run with
      | true => exact ⟨begunRun_ending run, endedRun_ending run⟩
      | false => exact ⟨rfl, rfl⟩

/-- A pass begins a run with the retry that it creates. -/
theorem begunRun_events : (x.events run).filterMap begunRun =
    ((x.child run).map fun child => (child.id, x.ctx)).toList := by
  rw [Round.events, List.filterMap_append, List.filterMap_append, (runs_executing x run).1]
  cases x.child run with
  | none => exact begunRun_ending run
  | some child => exact congrArg (List.cons _) (runs_waiting x (x.next run child)).1

theorem endedRun_events : (x.events run).filterMap endedRun = match x.child run with
    | none => run.opened
    | some child => (x.waiting (x.next run child)).filterMap endedRun := by
  rw [Round.events, List.filterMap_append, List.filterMap_append, (runs_executing x run).2]
  cases x.child run with
  | none => exact endedRun_ending run
  | some child => rfl

end

theorem go_mem_events {x : Round} {run : Run} {child : OperationRecord}
    (hchild : x.child run = some child) (hcanceled : x.canceled = false)
    (hsuperseded : x.superseded (x.next run child) = false) :
    ⟨.go (x.next run child), ()⟩ ∈ x.events run := by
  simp [Round.events, hchild, Round.waiting, hcanceled, hsuperseded]

/-- A worker ends every run that it was given or has begun, once each and the last one first. -/
theorem worker_ends_runs {site : Site} {run : Run} {es : List Effected} (h : Worked site run es) :
    es.filterMap endedRun = (es.filterMap begunRun).reverse ++ run.opened := by
  induction h with
  | @stop run es h hstop =>
      obtain ⟨x, rfl⟩ := exists_round h
      rw [begunRun_events, endedRun_events]
      cases hchild : x.child run with
      | none => rfl
      | some child =>
          dsimp only
          rw [(runs_waiting x (x.next run child)).2, if_pos ?_]
          · rfl
          · by_contra hgo
            simp only [Bool.or_eq_true, not_or, Bool.not_eq_true] at hgo
            exact hstop (x.next run child) (go_mem_events hchild hgo.1 hgo.2)
  | @next run run' es rest h hgo _ ih =>
      obtain ⟨x, rfl⟩ := exists_round h
      obtain ⟨child, hchild, hcanceled, hsuperseded, rfl⟩ := of_go_mem_events hgo
      have hended : (x.events run).filterMap endedRun = [] := by
        simp [endedRun_events, hchild, runs_waiting, hcanceled, hsuperseded]
      rw [List.filterMap_append, List.filterMap_append, hended, ih, begunRun_events, hchild]
      simp [Round.next]

/-- The runs of the retry and of the slot. -/
theorem worker_ends_runs_busy : ∃ es, Worked minuteSite retriedRun es ∧
    es.filterMap endedRun = [(retriedChild.id, [1, 0]), (retriedRun.record.id, [0])] := by
  have hgo : ⟨.go (busyRound.next retriedRun retriedChild), ()⟩ ∈ busyRound.events retriedRun :=
    go_mem_events busyRound_child rfl busyRound_current
  have hstop : ∀ run', ⟨.go run', ()⟩ ∉ failedRound.events (busyRound.next retriedRun retriedChild) := by
    intro run' hgo
    obtain ⟨child, hchild, -⟩ := of_go_mem_events hgo
    cases hchild
  have hworked := Worked.next (trace_busyRound minuteSite) hgo (.stop (trace_failedRound minuteSite) hstop)
  refine ⟨_, hworked, ?_⟩
  rw [worker_ends_runs hworked, List.filterMap_append, begunRun_events, begunRun_events, busyRound_child]
  rfl

end RestFleet.Agent
