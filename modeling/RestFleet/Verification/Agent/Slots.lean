import RestFleet.Verification.Agent.Schedule

/-! # The slots of one plan

A plan whose configuration stays the same, at the ticks of the scheduler that have capacity for it. -/

namespace RestFleet.Agent

open Schedule (Scheduler operationID)
open Schedule.Scheduler (horizon)

/-- What the rest of the Agent does to the file: the runtime of the plan stays, a record keeps its
plan and its scheduled time, and none appears under the identifier of a slot of the plan. -/
structure Elsewhere (site : Site) (p : Domain.PlanSchedule) (d d' : Durable) : Prop where
  runtime : d'.runtimes p.planID = d.runtimes p.planID
  kept : ∀ id r, d.records.row id = some r →
    ∃ r', d'.records.row id = some r' ∧ r'.planID = r.planID ∧ r'.scheduledAt = r.scheduledAt
  slots : ∀ x, d.records.row (operationID site p.planID x) = none →
    d'.records.row (operationID site p.planID x) = none

/-- The runs of a plan from `d₀`: the instants of its ticks and the records that they stored. -/
inductive PlanRun (site : Site) (p : Domain.PlanSchedule) (d₀ : Durable) :
    List ℤ → List OperationRecord → Durable → Prop where
  | start : PlanRun site p d₀ [] [] d₀
  | tick {ts log d} (k : TickState) (now : ℤ) (busy : Bool) (h : PlanRun site p d₀ ts log d) :
      PlanRun site p d₀ (ts ++ [now]) (log ++ (d.advancePlan site k p now busy).2.toList)
        (d.advancePlan site k p now busy).1
  | other {ts log d d'} (h : PlanRun site p d₀ ts log d) (he : Elsewhere site p d d') :
      PlanRun site p d₀ ts log d'

/-- The file right after the plan was activated at `t₀`. -/
structure Activated (site : Site) (s : Scheduler) (p : Domain.PlanSchedule) (t₀ : ℤ)
    (d : Durable) : Prop where
  runtime : ∃ rt : PlanRuntime,
    d.runtimes p.planID = some { rt.adopt p with nextRunAt := s.nextRun site t₀ }
  slots : ∀ x, t₀ < x → d.records.row (operationID site p.planID x) = none

namespace Schedule.Scheduler

variable (site : Site) (s : Scheduler) (t₀ : ℤ) (ts : List ℤ)

/-- A slot after the activation that has come due by a tick. -/
def Past (c : ℤ) : Prop := s.Slot c ∧ t₀ < c ∧ ∃ n ∈ ts, s.due site c ≤ n

/-- A slot that was in view: at the activation, or at a tick before it, every slot before it had
come due, and the search looks as far. -/
def InView (c : ℤ) : Prop :=
  ∃ n ∈ t₀ :: ts, n < c ∧ c ≤ horizon n ∧
    ∀ c', s.Slot c' → t₀ < c' → c' < c → s.due site c' ≤ n

/-- The names of the slots that have come due do not collide. -/
def DistinctNames (planID : UUID) : Prop :=
  ∀ c c', s.Past site t₀ ts c → s.Past site t₀ ts c' →
    operationID site planID (s.due site c) = operationID site planID (s.due site c') →
    s.due site c = s.due site c'

end Schedule.Scheduler

section

variable {site : Site} {s : Scheduler} {p : Domain.PlanSchedule} {t₀ last now c : ℤ}
  {ts : List ℤ} {log : List OperationRecord} {d d' : Durable}

theorem inView_of_append (h : s.InView site t₀ (ts ++ [now]) c) (hc : c ≤ now) :
    s.InView site t₀ ts c := by
  obtain ⟨n, hn, hlt, hview⟩ := h
  have hmem : n ∈ (t₀ :: ts) ++ [now] := hn
  rcases List.mem_append.mp hmem with hmem | hmem
  · exact ⟨n, hmem, hlt, hview⟩
  · rw [List.mem_singleton.mp hmem] at hlt
    omega

theorem distinctNames_of_append {planID : UUID} (h : s.DistinctNames site t₀ (ts ++ [now]) planID) :
    s.DistinctNames site t₀ ts planID := by
  have hpast : ∀ c, s.Past site t₀ ts c → s.Past site t₀ (ts ++ [now]) c := by
    rintro c ⟨hslot, ht, n, hn, hdue⟩
    exact ⟨hslot, ht, n, List.mem_append_left _ hn, hdue⟩
  exact fun c c' hc hc' => h c c' (hpast c hc) (hpast c' hc')

/-- A slot has its record, unless it was never in view. -/
def Settled (site : Site) (s : Scheduler) (t₀ : ℤ) (ts : List ℤ) (log : List OperationRecord)
    (c : ℤ) : Prop :=
  s.InView site t₀ ts c → ∃ r ∈ log, r.scheduledAt = s.due site c

/-- What the next run of the runtime says after the tick at `last`: either no slot is near, or the
next run is that of the first slot that is not settled, and is still to come. -/
def Pending (site : Site) (s : Scheduler) (t₀ : ℤ) (ts : List ℤ) (log : List OperationRecord)
    (last : ℤ) : Option ℤ → Prop
  | none => (∀ c, s.Slot c → last < c → horizon last < c) ∧
      ∀ c, s.Slot c → t₀ < c → c ≤ last → Settled site s t₀ ts log c
  | some x => ∃ c, x = s.due site c ∧ s.Slot c ∧ t₀ < c ∧ last < x ∧
      ∀ c', s.Slot c' → c' < c → c' ≤ last ∧ (t₀ < c' → Settled site s t₀ ts log c')

structure SlotEntry (site : Site) (s : Scheduler) (p : Domain.PlanSchedule) (t₀ last : ℤ)
    (d : Durable) (r : OperationRecord) : Prop where
  slot : ∃ c, s.Slot c ∧ t₀ < c ∧ r.scheduledAt = s.due site c
  past : r.scheduledAt ≤ last
  id : r.id = operationID site p.planID r.scheduledAt
  planID : r.planID = p.planID
  status : r.status = .running ∨ r.status = .concurrencySkipped ∨ r.status = .missed
  stored : ∃ r', d.records.row r.id = some r' ∧ r'.planID = r.planID ∧
    r'.scheduledAt = r.scheduledAt

/-- The invariant of the runs of a plan; `last` is the last tick. -/
structure PlanInv (site : Site) (s : Scheduler) (p : Domain.PlanSchedule) (t₀ : ℤ) (ts : List ℤ)
    (last : ℤ) (log : List OperationRecord) (d : Durable) : Prop where
  bound : ∀ n ∈ t₀ :: ts, n ≤ last
  runtime : ∃ rt, d.runtimes p.planID = some rt ∧ rt.planRevision = p.revision ∧
    rt.configHash = p.configHash ∧ Pending site s t₀ ts log last rt.nextRunAt
  sorted : (log.map (·.scheduledAt)).Pairwise (· < ·)
  entry : ∀ r ∈ log, SlotEntry site s p t₀ last d r
  known : ∀ x, t₀ < x → (d.records.row (operationID site p.planID x)).isSome →
    ∃ r ∈ log, r.id = operationID site p.planID x

/-- When every slot up to `now` is settled, the search from `now` finds the first one that is
not. -/
theorem pending_nextRun (ht : t₀ ≤ now)
    (h : ∀ c, s.Slot c → t₀ < c → c ≤ now → Settled site s t₀ ts log c) :
    Pending site s t₀ ts log now (s.nextRun site now) := by
  cases hnext : s.nextRun site now with
  | none => exact ⟨fun c hc hlt => Scheduler.nextRun_none hnext hc hlt, h⟩
  | some x =>
      obtain ⟨c, rfl, hslot, hlt, -, hfirst⟩ := Scheduler.nextRun_some hnext
      have hdue : c ≤ s.due site c := Scheduler.le_due
      refine ⟨c, rfl, hslot, by omega, by omega, ?_⟩
      intro c' hslot' hc'
      have hle : c' ≤ now := by
        by_contra hgt
        have := hfirst c' hslot' (by omega)
        omega
      exact ⟨hle, fun ht' => h c' hslot' ht' hle⟩

theorem pending_start : Pending site s t₀ [] [] t₀ (s.nextRun site t₀) :=
  pending_nextRun le_rfl fun c _ ht hle => absurd hle (by omega)

/-! ### One tick -/

theorem pending_wait {x : ℤ} (h : Pending site s t₀ ts log last (some x)) (hle : last ≤ now)
    (hx : now < x) : Pending site s t₀ (ts ++ [now]) log now (some x) := by
  obtain ⟨c, hdue, hslot, ht, -, hbefore⟩ := h
  refine ⟨c, hdue, hslot, ht, hx, ?_⟩
  intro c' hslot' hc'
  obtain ⟨hpast, hsettled⟩ := hbefore c' hslot' hc'
  exact ⟨by omega, fun ht' hview => hsettled ht' (inView_of_append hview (by omega))⟩

/-- Without a next run no slot comes into view between two ticks. -/
theorem settled_of_none (hb : ∀ n ∈ t₀ :: ts, n ≤ last)
    (h : Pending site s t₀ ts log last none) (hslot : s.Slot c) (ht : t₀ < c) (hc : c ≤ now) :
    Settled site s t₀ (ts ++ [now]) log c := by
  intro hview
  have hview := inView_of_append hview hc
  by_cases hlast : c ≤ last
  · exact h.2 c hslot ht hlast hview
  · obtain ⟨n, hn, -, hreach, -⟩ := hview
    have hfar := h.1 c hslot (by omega)
    have hmono : horizon n ≤ horizon last := Scheduler.horizon_mono (hb n hn)
    omega

/-- A slot between the one that is handled at `now` and `now` itself was never in view: no tick
since that one came due was before it. -/
theorem settled_of_due {x : ℤ} {r : OperationRecord} (hb : ∀ n ∈ t₀ :: ts, n ≤ last)
    (h : Pending site s t₀ ts log last (some x)) (hr : r.scheduledAt = x) (hslot : s.Slot c)
    (ht : t₀ < c) (hc : c ≤ now) : Settled site s t₀ (ts ++ [now]) (log ++ [r]) c := by
  intro hview
  have hview := inView_of_append hview hc
  obtain ⟨c₀, rfl, hslot₀, ht₀, hlast, hbefore⟩ := h
  rcases lt_trichotomy c c₀ with hlt | rfl | hgt
  · obtain ⟨r', hmem, hr'⟩ := (hbefore c hslot hlt).2 ht hview
    exact ⟨r', List.mem_append_left _ hmem, hr'⟩
  · exact ⟨r, by simp, hr⟩
  · obtain ⟨n, hn, -, -, hdue⟩ := hview
    have hreached := hdue c₀ hslot₀ ht₀ hgt
    have hn := hb n hn
    omega

/-- The runtime of an unchanged plan is due exactly when its next run has passed. -/
theorem dueSlot_current {rt : PlanRuntime} (hrev : rt.planRevision = p.revision)
    (hhash : rt.configHash = p.configHash) :
    dueSlot site s p now (some rt) = match rt.nextRunAt with
      | none => .settled { rt.adopt p with nextRunAt := s.nextRun site now }
      | some x => if now < x then .waiting else .due x
          { rt.adopt p with nextRunAt := s.nextRun site now, lastScheduledAt := some x } := by
  simp only [dueSlot, Option.getD_some, PlanRuntime.adopt]
  cases rt.nextRunAt with
  | none => rfl
  | some x => simp [hrev, hhash]

theorem row_putOperation {r : OperationRecord} {id : UUID} :
    (d.putOperation r).records.row id = if id = r.id then some r else d.records.row id := by
  split
  case isTrue h =>
    subst h
    cases hrow : d.records.row r.id with
    | none => exact Table.row_upsert_none hrow
    | some _ => exact Table.row_upsert_some hrow
  case isFalse h => exact Table.row_upsert_ne h

@[simp] theorem slotRecord_id {k : TickState} {x : ℤ} {busy : Bool} :
    (slotRecord site k p now x busy).id = operationID site p.planID x := by
  unfold slotRecord
  cases slotKind k p now x busy <;> rfl

@[simp] theorem slotRecord_planID {k : TickState} {x : ℤ} {busy : Bool} :
    (slotRecord site k p now x busy).planID = p.planID := by
  unfold slotRecord
  cases slotKind k p now x busy <;> rfl

@[simp] theorem slotRecord_scheduledAt {k : TickState} {x : ℤ} {busy : Bool} :
    (slotRecord site k p now x busy).scheduledAt = x := by
  unfold slotRecord
  cases slotKind k p now x busy <;> rfl

theorem slotRecord_status {k : TickState} {x : ℤ} {busy : Bool} :
    (slotRecord site k p now x busy).status = .running ∨
      (slotRecord site k p now x busy).status = .concurrencySkipped ∨
      (slotRecord site k p now x busy).status = .missed := by
  unfold slotRecord
  cases slotKind k p now x busy
  · exact Or.inr (Or.inr rfl)
  · exact Or.inr (Or.inl rfl)
  · exact Or.inl rfl

theorem ran_nextRunAt {rt : PlanRuntime} {r : OperationRecord} :
    (rt.ran r).nextRunAt = rt.nextRunAt := by
  unfold PlanRuntime.ran
  split <;> rfl

theorem ran_adopted {rt : PlanRuntime} {r : OperationRecord} :
    (rt.ran r).planID = rt.planID ∧ (rt.ran r).planRevision = rt.planRevision ∧
      (rt.ran r).configHash = rt.configHash := by
  unfold PlanRuntime.ran
  split <;> exact ⟨rfl, rfl, rfl⟩

theorem SlotEntry.mono {r : OperationRecord} (h : SlotEntry site s p t₀ last d r)
    (hle : last ≤ now) (hkept : ∀ r', d.records.row r.id = some r' →
      ∃ r'', d'.records.row r.id = some r'' ∧ r''.planID = r'.planID ∧
        r''.scheduledAt = r'.scheduledAt) : SlotEntry site s p t₀ now d' r := by
  obtain ⟨r', hrow, hplan, hat⟩ := h.stored
  obtain ⟨r'', hrow', hplan', hat'⟩ := hkept r' hrow
  exact ⟨h.slot, le_trans h.past hle, h.id, h.planID, h.status,
    r'', hrow', hplan'.trans hplan, hat'.trans hat⟩

theorem bound_append (hb : ∀ n ∈ t₀ :: ts, n ≤ last) (hle : last ≤ now) :
    ∀ n ∈ t₀ :: (ts ++ [now]), n ≤ now := by
  intro n hn
  have hmem : n ∈ (t₀ :: ts) ++ [now] := hn
  rcases List.mem_append.mp hmem with hmem | hmem
  · exact le_trans (hb n hmem) hle
  · exact (List.mem_singleton.mp hmem).le

theorem PlanInv.tick_quiet (hi : PlanInv site s p t₀ ts last log d) (hle : last ≤ now)
    {rt : PlanRuntime} (hrecords : d'.records = d.records)
    (hrt : d'.runtimes p.planID = some rt) (hrev : rt.planRevision = p.revision)
    (hhash : rt.configHash = p.configHash)
    (hpend : Pending site s t₀ (ts ++ [now]) log now rt.nextRunAt) :
    PlanInv site s p t₀ (ts ++ [now]) now log d' where
  bound := bound_append hi.bound hle
  runtime := ⟨rt, hrt, hrev, hhash, hpend⟩
  sorted := hi.sorted
  entry := fun r hr => (hi.entry r hr).mono hle fun r' hrow =>
    ⟨r', by rw [hrecords]; exact hrow, rfl, rfl⟩
  known := by rw [hrecords]; exact hi.known

/-- The identifier of a slot that is due is not in use: it would be that of an earlier slot. -/
theorem PlanInv.row_eq_none (hi : PlanInv site s p t₀ ts last log d)
    (hnames : s.DistinctNames site t₀ (ts ++ [now]) p.planID) (hslot : s.Slot c)
    (ht : t₀ < c) (hlast : last < s.due site c) (hnow : s.due site c ≤ now) :
    d.records.row (operationID site p.planID (s.due site c)) = none := by
  by_contra hrow
  have hdue : c ≤ s.due site c := Scheduler.le_due
  obtain ⟨r, hr, hid⟩ := hi.known (s.due site c) (by omega) (Option.isSome_iff_ne_none.mpr hrow)
  have hentry := hi.entry r hr
  obtain ⟨c', hslot', ht', hat⟩ := hentry.slot
  have hpast : s.due site c' ≤ last := hat ▸ hentry.past
  have hsame : s.due site c = s.due site c' := by
    refine hnames c c' ⟨hslot, ht, now, by simp, hnow⟩
      ⟨hslot', ht', now, by simp, by omega⟩ ?_
    rw [← hid, ← hat, hentry.id]
  omega

theorem PlanInv.tick_record {x : ℤ} {rt : PlanRuntime} {r : OperationRecord}
    (hi : PlanInv site s p t₀ ts last log d) (hle : last ≤ now)
    (hpend : Pending site s t₀ ts log last (some x)) (hx : x ≤ now)
    (hfree : d.records.row r.id = none) (hid : r.id = operationID site p.planID x)
    (hplan : r.planID = p.planID) (hat : r.scheduledAt = x)
    (hstatus : r.status = .running ∨ r.status = .concurrencySkipped ∨ r.status = .missed)
    (hrt : rt.planID = p.planID) (hrev : rt.planRevision = p.revision)
    (hhash : rt.configHash = p.configHash) (hnext : rt.nextRunAt = s.nextRun site now) :
    PlanInv site s p t₀ (ts ++ [now]) now (log ++ [r]) (d.putOperationWithRuntime r rt) := by
  have hbase : t₀ ≤ now := le_trans (hi.bound t₀ (by simp)) hle
  have hrow : ∀ id, (d.putOperationWithRuntime r rt).records.row id =
      if id = r.id then some r else d.records.row id := fun _ => row_putOperation
  have hkeep : ∀ r₀ ∈ log, ∀ r', d.records.row r₀.id = some r' →
      ∃ r'', (d.putOperationWithRuntime r rt).records.row r₀.id = some r'' ∧
        r''.planID = r'.planID ∧ r''.scheduledAt = r'.scheduledAt := by
    intro r₀ _ r' hr'
    have hne : r₀.id ≠ r.id := by
      intro h
      rw [h, hfree] at hr'
      cases hr'
    exact ⟨r', by rw [hrow, if_neg hne]; exact hr', rfl, rfl⟩
  obtain ⟨c, hc, hslot, ht, hlast, -⟩ := id hpend
  constructor
  case bound => exact bound_append hi.bound hle
  case runtime =>
    refine ⟨rt, ?_, hrev, hhash, ?_⟩
    · rw [← hrt]
      exact Function.update_self ..
    · rw [hnext]
      exact pending_nextRun hbase fun c hslot ht hc => settled_of_due hi.bound hpend hat hslot ht hc
  case sorted =>
    rw [List.map_append, List.pairwise_append]
    refine ⟨hi.sorted, by simp, ?_⟩
    intro y hy z hz
    obtain ⟨r₀, hr₀, rfl⟩ := List.mem_map.mp hy
    rw [List.map_singleton, List.mem_singleton] at hz
    have hpast : r₀.scheduledAt ≤ last := (hi.entry r₀ hr₀).past
    rw [hz, hat]
    exact lt_of_le_of_lt hpast hlast
  case entry =>
    intro r₀ hr₀
    rcases List.mem_append.mp hr₀ with hr₀ | hr₀
    · exact (hi.entry r₀ hr₀).mono hle (hkeep r₀ hr₀)
    · rw [List.mem_singleton.mp hr₀]
      refine ⟨⟨c, hslot, ht, hat.trans hc⟩, hat.trans_le hx, by rw [hid, hat], hplan, hstatus, ?_⟩
      exact ⟨r, by rw [hrow, if_pos rfl], rfl, rfl⟩
  case known =>
    intro y hy hsome
    rw [hrow] at hsome
    split at hsome
    case isTrue h => exact ⟨r, by simp, h.symm⟩
    case isFalse =>
      obtain ⟨r₀, hr₀, h⟩ := hi.known y hy hsome
      exact ⟨r₀, List.mem_append_left _ hr₀, h⟩

theorem PlanInv.tick (hs : Schedule.ofPlan site p = some s)
    (hi : PlanInv site s p t₀ ts last log d) (hle : last ≤ now)
    (hnames : s.DistinctNames site t₀ (ts ++ [now]) p.planID) (k : TickState) (busy : Bool) :
    PlanInv site s p t₀ (ts ++ [now]) now (log ++ (d.advancePlan site k p now busy).2.toList)
      (d.advancePlan site k p now busy).1 := by
  have hbase : t₀ ≤ now := le_trans (hi.bound t₀ (by simp)) hle
  obtain ⟨rt, hrt, hrev, hhash, hpend⟩ := hi.runtime
  have hcase : dueSlot site s p now (some rt) = _ := dueSlot_current hrev hhash
  unfold Durable.advancePlan
  cases hnext : rt.nextRunAt with
  | none =>
      rw [hnext] at hcase hpend
      simp only [hs, hrt, hcase, Option.toList_none, List.append_nil]
      refine hi.tick_quiet hle rfl (Function.update_self ..) rfl rfl ?_
      exact pending_nextRun hbase fun c hslot ht hc => settled_of_none hi.bound hpend hslot ht hc
  | some x =>
      rw [hnext] at hcase hpend
      by_cases hx : now < x
      · simp only [hs, hrt, hcase, hx, if_true, Option.toList_none, List.append_nil]
        refine hi.tick_quiet hle rfl hrt hrev hhash ?_
        rw [hnext]
        exact pending_wait hpend hle hx
      · simp only [hs, hrt, hcase, hx, if_false]
        obtain ⟨c, rfl, hslot, ht, hlast, -⟩ := id hpend
        have hfree := hi.row_eq_none hnames hslot ht hlast (by omega)
        simp only [hfree, Option.isSome_none, Bool.false_eq_true, if_false, Option.toList_some]
        refine hi.tick_record hle hpend (by omega) ?_ slotRecord_id slotRecord_planID
          slotRecord_scheduledAt slotRecord_status ran_adopted.1 ran_adopted.2.1
          ran_adopted.2.2 ran_nextRunAt
        rw [slotRecord_id]
        exact hfree

/-! ### Runs -/

theorem PlanInv.other (hi : PlanInv site s p t₀ ts last log d) (he : Elsewhere site p d d') :
    PlanInv site s p t₀ ts last log d' where
  bound := hi.bound
  runtime := by rw [he.runtime]; exact hi.runtime
  sorted := hi.sorted
  entry := fun r hr => (hi.entry r hr).mono le_rfl (he.kept r.id)
  known := by
    intro x hx hsome
    refine hi.known x hx ?_
    by_contra hnone
    have hrow := he.slots x (Option.not_isSome_iff_eq_none.mp hnone)
    rw [hrow] at hsome
    cases hsome

theorem Activated.planInv (h : Activated site s p t₀ d) : PlanInv site s p t₀ [] t₀ [] d := by
  obtain ⟨rt, hrt⟩ := h.runtime
  constructor
  case bound => simp
  case runtime => exact ⟨_, hrt, rfl, rfl, pending_start⟩
  case sorted => simp
  case entry => simp
  case known =>
    intro x hx hsome
    rw [h.slots x hx] at hsome
    cases hsome

theorem PlanRun.planInv {d₀ : Durable} (hs : Schedule.ofPlan site p = some s)
    (h₀ : Activated site s p t₀ d₀) (hrun : PlanRun site p d₀ ts log d)
    (hts : (t₀ :: ts).Pairwise (· ≤ ·)) (hnames : s.DistinctNames site t₀ ts p.planID) :
    ∃ last ∈ t₀ :: ts, PlanInv site s p t₀ ts last log d := by
  induction hrun with
  | start => exact ⟨t₀, by simp, h₀.planInv⟩
  | @tick ts log d k now busy _ ih =>
      have hsplit : ((t₀ :: ts) ++ [now]).Pairwise (· ≤ ·) := hts
      obtain ⟨hbefore, -, hnow⟩ := List.pairwise_append.mp hsplit
      obtain ⟨last, hmem, hi⟩ := ih hbefore (distinctNames_of_append hnames)
      exact ⟨now, by simp, hi.tick hs (hnow last hmem now (by simp)) hnames k busy⟩
  | other _ he ih =>
      obtain ⟨last, hmem, hi⟩ := ih hts hnames
      exact ⟨last, hmem, hi.other he⟩

theorem PlanInv.recorded (hi : PlanInv site s p t₀ ts last log d) (hpast : s.Past site t₀ ts c)
    (hview : s.InView site t₀ ts c) : ∃ r ∈ log, r.scheduledAt = s.due site c := by
  obtain ⟨hslot, ht, n, hn, hdue⟩ := hpast
  have hn := hi.bound n (List.mem_cons_of_mem _ hn)
  have hle : c ≤ s.due site c := Scheduler.le_due
  obtain ⟨rt, -, -, -, hpend⟩ := hi.runtime
  cases hnext : rt.nextRunAt with
  | none =>
      rw [hnext] at hpend
      exact hpend.2 c hslot ht (by omega) hview
  | some x =>
      rw [hnext] at hpend
      obtain ⟨c₀, rfl, hslot₀, ht₀, hlast, hbefore⟩ := hpend
      rcases lt_trichotomy c c₀ with hlt | rfl | hgt
      · exact (hbefore c hslot hlt).2 ht hview
      · omega
      · -- A later slot is in view only after the pending one has come due.
        obtain ⟨m, hm, -, -, hreached⟩ := hview
        have hm := hi.bound m hm
        have hreached := hreached c₀ hslot₀ ht₀ hgt
        omega

theorem eq_of_sorted {log : List OperationRecord}
    (h : (log.map (·.scheduledAt)).Pairwise (· < ·)) {r r' : OperationRecord} (hr : r ∈ log)
    (hr' : r' ∈ log) (hat : r.scheduledAt = r'.scheduledAt) : r = r' := by
  have hnodup : (log.map (·.scheduledAt)).Nodup := h.imp fun hlt => ne_of_lt hlt
  exact List.inj_on_of_nodup_map hnodup hr hr' hat

end

/-- As long as every slot that has come due was in view, each has exactly one record, stored by a
tick as run, skipped or missed, and the file keeps it. -/
theorem slots_recorded_once (site : Site) (p : Domain.PlanSchedule) (s : Scheduler) (t₀ : ℤ)
    (d₀ d : Durable) (ts : List ℤ) (log : List OperationRecord)
    (hs : Schedule.ofPlan site p = some s) (h₀ : Activated site s p t₀ d₀)
    (hrun : PlanRun site p d₀ ts log d) (hts : (t₀ :: ts).Pairwise (· ≤ ·))
    (hnames : s.DistinctNames site t₀ ts p.planID)
    (hview : ∀ c, s.Past site t₀ ts c → s.InView site t₀ ts c) (c : ℤ)
    (hc : s.Past site t₀ ts c) :
    ∃! r, r ∈ log ∧ r.scheduledAt = s.due site c ∧ r.planID = p.planID ∧
      (r.status = .running ∨ r.status = .concurrencySkipped ∨ r.status = .missed) ∧
      ∃ r', d.records.row (operationID site p.planID (s.due site c)) = some r' ∧
        r'.planID = p.planID ∧ r'.scheduledAt = s.due site c := by
  obtain ⟨last, -, hi⟩ := hrun.planInv hs h₀ hts hnames
  obtain ⟨r, hr, hat⟩ := hi.recorded hc (hview c hc)
  have hentry := hi.entry r hr
  obtain ⟨r', hrow, hplan, hat'⟩ := hentry.stored
  rw [hentry.id, hat] at hrow
  refine ⟨r, ⟨hr, hat, hentry.planID, hentry.status, r', hrow, hplan.trans hentry.planID,
    hat'.trans hat⟩, ?_⟩
  rintro r₁ ⟨hr₁, hat₁, -⟩
  exact eq_of_sorted hi.sorted hr₁ hr (hat₁.trans hat.symm)

/-! ### Ticks without anything in between -/

/-- The scheduler alone, over the instants of its ticks. -/
def tickAll (site : Site) (p : Domain.PlanSchedule) (busy : Bool) (k : TickState) :
    List ℤ → List OperationRecord × Durable → List OperationRecord × Durable
  | [], x => x
  | now :: ts, (log, d) =>
    let (d', r) := d.advancePlan site k p now busy
    tickAll site p busy { k with schedulerTickAt := now } ts (log ++ r.toList, d')

theorem planRun_tickAll {site : Site} {p : Domain.PlanSchedule} {busy : Bool} {k : TickState}
    {d₀ d : Durable} {ts ts' : List ℤ} {log : List OperationRecord}
    (h : PlanRun site p d₀ ts log d) :
    PlanRun site p d₀ (ts ++ ts') (tickAll site p busy k ts' (log, d)).1
      (tickAll site p busy k ts' (log, d)).2 := by
  induction ts' generalizing ts log d k with
  | nil =>
      rw [List.append_nil]
      exact h
  | cons now ts' ih =>
      have hnext := ih (k := { k with schedulerTickAt := now }) (h.tick k now busy)
      rw [List.append_assoc] at hnext
      exact hnext

/-! ### A plan for every minute -/

def everyMinute : Text := "* * * * *".toList

def utc : Text := "UTC".toList

/-- The sums and names of two or three instants of the plan below; those of no other are used. -/
def minuteSite : Site where
  zones := fun name => if name = utc then some fun _ => 0 else none
  jitterSum := fun _ x =>
    if x = 1735689780 then 10617245252766101767
    else if x = 1735689840 then 18141601863548001524
    else if x = 1735689900 then 17253728087290039471
    else 0
  nameID := fun _ x =>
    if x = 1735689780 then 0x4252b2f839e65990835ab41b36f8312c
    else if x = 1735689840 then 0x5262afc9e18b52eeae9bf8c4e532e219
    else if x = 1735689849 then 0x00bfd99bf41457d680073bbc6657d27c
    else 0
  nameID_version := by
    intro _ x
    split_ifs <;> decide

def minutePlan (jitterSeconds : ℤ) : Domain.PlanSchedule where
  planID := 0x01890000000070008000000000000001
  revision := 1
  name := "minutes".toList
  hostID := 0x01890000000070008000000000000002
  repositoryID := 0x01890000000070008000000000000003
  cron := everyMinute
  timezone := utc
  jitterSeconds := jitterSeconds
  misfireGraceSeconds := 3600
  concurrencyPolicy := "FORBID".toList
  paths := some ["/srv".toList]
  excludePatterns := none
  excludeCaches := false
  oneFileSystem := false
  configHash := "hash".toList
  execution := none

def instant (seconds : ℤ) : ℤ := (seconds + unixEpoch) * second

def minuteScheduler (jitterSeconds : ℤ) : Scheduler where
  planID := (minutePlan jitterSeconds).planID
  spec := ⟨everyMinute, utc, jitterSeconds, 3600, "FORBID".toList⟩
  loc := fun _ => 0
  fields := ⟨2 ^ 60 - 1, 2 ^ 24 - 1, 2 ^ 31 - 1, 2 ^ 12 - 1, 2 ^ 7 - 1⟩
  domRestricted := false
  dowRestricted := false

def minuteStart : ℤ := instant 1735689730

def minuteOpening (jitterSeconds : ℤ) : Durable where
  records := .empty
  runtimes := fun _ => some { (PlanRuntime.zero 0).adopt (minutePlan jitterSeconds) with
    nextRunAt := (minuteScheduler jitterSeconds).nextRun minuteSite minuteStart }
  desired := none

theorem minute_activated {jitterSeconds : ℤ} :
    Activated minuteSite (minuteScheduler jitterSeconds) (minutePlan jitterSeconds) minuteStart
      (minuteOpening jitterSeconds) where
  runtime := ⟨.zero 0, rfl⟩
  slots := fun _ _ => rfl

theorem parse_everyMinute : (everyMinute.fields.zip Schedule.fieldBounds).mapM
    (fun f => Schedule.parseField f.1 f.2) =
      some [(2 ^ 60 - 1, true), (2 ^ 24 - 1, true), (2 ^ 31 - 1, true), (2 ^ 12 - 1, true),
        (2 ^ 7 - 1, true)] := by
  decide +kernel

theorem minute_ofPlan {jitterSeconds : ℤ} (h : 0 ≤ jitterSeconds) (h' : jitterSeconds ≤ 3600) :
    Schedule.ofPlan minuteSite (minutePlan jitterSeconds) =
      some (minuteScheduler jitterSeconds) := by
  have hzone : minuteSite.zones utc = some fun _ => 0 := by simp only [minuteSite, if_true]
  have hname : (utc.isEmpty || decide (utc = "Local".toList)) = false := by decide
  have hcount : ¬everyMinute.fields.length ≠ Schedule.fieldBounds.length := by decide
  have hrange : (decide (jitterSeconds < 0) || decide (jitterSeconds > 3600)) = false := by
    simp only [Bool.or_eq_false_iff, decide_eq_false_iff_not]
    omega
  unfold Schedule.ofPlan Schedule.new minutePlan
  simp only [hzone, hname, parse_everyMinute, hcount, hrange, if_false, Bool.false_eq_true]
  rfl

def minuteTicks : List ℤ :=
  [1735689750, 1735689780, 1735689810, 1735689840, 1735689870].map instant

def minuteRun (jitterSeconds : ℤ) : List OperationRecord × Durable :=
  tickAll minuteSite (minutePlan jitterSeconds) false ⟨minuteStart, 30 * second⟩ minuteTicks
    ([], minuteOpening jitterSeconds)

theorem minute_planRun {jitterSeconds : ℤ} :
    PlanRun minuteSite (minutePlan jitterSeconds) (minuteOpening jitterSeconds) minuteTicks
      (minuteRun jitterSeconds).1 (minuteRun jitterSeconds).2 :=
  planRun_tickAll .start

/-- The slots that come due in the run are those of 00:03 and 00:04. -/
theorem minute_past {jitterSeconds c : ℤ}
    (h : (minuteScheduler jitterSeconds).Past minuteSite minuteStart minuteTicks c) :
    c = instant 1735689780 ∨ c = instant 1735689840 := by
  obtain ⟨hslot, ht, n, hn, hdue⟩ := h
  have hwhole : c % 60000000000 = 0 := hslot.whole
  have hticks : ∀ n ∈ minuteTicks, n ≤ instant 1735689870 := by decide
  have hlast := hticks n hn
  have hle : c ≤ (minuteScheduler jitterSeconds).due minuteSite c := Scheduler.le_due
  simp only [minuteStart, instant, unixEpoch, second] at *
  omega

theorem minute_distinctNames {jitterSeconds : ℤ}
    (h : ∀ c ∈ [instant 1735689780, instant 1735689840],
      ∀ c' ∈ [instant 1735689780, instant 1735689840],
      operationID minuteSite (minutePlan jitterSeconds).planID
          ((minuteScheduler jitterSeconds).due minuteSite c) =
        operationID minuteSite (minutePlan jitterSeconds).planID
          ((minuteScheduler jitterSeconds).due minuteSite c') →
      (minuteScheduler jitterSeconds).due minuteSite c =
        (minuteScheduler jitterSeconds).due minuteSite c') :
    (minuteScheduler jitterSeconds).DistinctNames minuteSite minuteStart minuteTicks
      (minutePlan jitterSeconds).planID := by
  intro c c' hc hc'
  exact h c (by simpa using minute_past hc) c' (by simpa using minute_past hc')

/-- Without jitter the slots of 00:03 and 00:04 are in view, and each has its record. -/
theorem slots_recorded_once_unjittered : ∃! r, r ∈ (minuteRun 0).1 ∧
    r.scheduledAt = (minuteScheduler 0).due minuteSite (instant 1735689840) ∧
    r.planID = (minutePlan 0).planID ∧
    (r.status = .running ∨ r.status = .concurrencySkipped ∨ r.status = .missed) ∧
    ∃ r', (minuteRun 0).2.records.row (operationID minuteSite (minutePlan 0).planID
        ((minuteScheduler 0).due minuteSite (instant 1735689840))) = some r' ∧
      r'.planID = (minutePlan 0).planID ∧
      r'.scheduledAt = (minuteScheduler 0).due minuteSite (instant 1735689840) := by
  have hdue : ∀ c, (minuteScheduler 0).due minuteSite c = c := fun c => Int.add_zero c
  refine slots_recorded_once minuteSite (minutePlan 0) (minuteScheduler 0) minuteStart
    (minuteOpening 0) _ minuteTicks _ (minute_ofPlan le_rfl (by decide)) minute_activated
    minute_planRun (by decide) (minute_distinctNames (by decide +kernel)) ?_ _ ?_
  · intro c hpast
    rcases minute_past hpast with rfl | rfl
    · refine ⟨minuteStart, by simp, by decide, by decide, ?_⟩
      intro c' hslot ht hlt
      have hwhole : c' % 60000000000 = 0 := hslot.whole
      simp only [minuteStart, instant, unixEpoch, second] at *
      omega
    · refine ⟨instant 1735689810, by decide, by decide, by decide, ?_⟩
      intro c' hslot ht hlt
      have hwhole : c' % 60000000000 = 0 := hslot.whole
      rw [hdue]
      simp only [minuteStart, instant, unixEpoch, second] at *
      omega
  · refine ⟨⟨by decide, by decide +kernel⟩, by decide, instant 1735689870, by decide, ?_⟩
    rw [hdue]
    decide

/-- With jitter the slot of 00:03 is due at 00:04:09, and that of 00:04, which has none, before. When
the scheduler handles the first slot at 00:04:30 it goes on with 00:05. -/
theorem slot_lost_behind_jitter :
    (minutePlan 300).validate minuteSite.zones = .ok () ∧
    Schedule.ofPlan minuteSite (minutePlan 300) = some (minuteScheduler 300) ∧
    Activated minuteSite (minuteScheduler 300) (minutePlan 300) minuteStart (minuteOpening 300) ∧
    PlanRun minuteSite (minutePlan 300) (minuteOpening 300) minuteTicks (minuteRun 300).1
      (minuteRun 300).2 ∧
    (minuteStart :: minuteTicks).IsChain (fun t t' => t ≤ t' ∧ t' ≤ t + 30 * second) ∧
    (minuteScheduler 300).DistinctNames minuteSite minuteStart minuteTicks
      (minutePlan 300).planID ∧
    (minuteScheduler 300).Past minuteSite minuteStart minuteTicks (instant 1735689840) ∧
    (∀ r ∈ (minuteRun 300).1,
      r.scheduledAt ≠ (minuteScheduler 300).due minuteSite (instant 1735689840)) ∧
    (minuteRun 300).2.records.row (operationID minuteSite (minutePlan 300).planID
      ((minuteScheduler 300).due minuteSite (instant 1735689840))) = none := by
  refine ⟨by decide +kernel, minute_ofPlan (by decide) (by decide), minute_activated,
    minute_planRun, by decide, minute_distinctNames (by decide +kernel), ?_, by decide +kernel,
    by decide +kernel⟩
  exact ⟨⟨by decide, by decide +kernel⟩, by decide, instant 1735689840, by decide,
    by decide +kernel⟩

end RestFleet.Agent
