import RestFleet.Model.Agent.Config
import RestFleet.Verification.Agent.Slots
import RestFleet.Verification.Domain.Canonical

/-! # Activation of desired states -/

namespace RestFleet.Agent

open Backup (Stamp)

/-! ## `reconcilePlanRuntimes` -/

def DistinctPlans (plans : List Domain.PlanSchedule) : Prop := (plans.map (·.planID)).Nodup

/-- A plan was there before, and nothing that its next run depends on has changed. -/
def Kept (previous : List Domain.PlanSchedule) (p : Domain.PlanSchedule) : Prop :=
  ∃ old ∈ previous, old.planID = p.planID ∧ old.revision = p.revision ∧
    old.configHash = p.configHash ∧ old.cron = p.cron ∧ old.timezone = p.timezone ∧
    old.jitterSeconds = p.jitterSeconds

section

variable {site : Site} {previous next : List Domain.PlanSchedule} {p : Domain.PlanSchedule}
  {now : Stamp} {runtimes out : UUID → Option PlanRuntime}

/-- The runtimes after the loop over the plans of `next`. -/
structure Reconciled (site : Site) (previous next : List Domain.PlanSchedule) (now : Stamp)
    (runtimes out : UUID → Option PlanRuntime) : Prop where
  others : ∀ id, id ∉ next.map (·.planID) → out id = runtimes id
  present : ∀ p ∈ next, (out p.planID).isSome
  each : DistinctPlans next → ∀ p ∈ next, ∃ rt, out p.planID = some rt ∧
    reconcilePlan site previous now (runtimes p.planID) p = some rt

theorem reconciled_foldlM (h : next.foldlM (fun runtimes p => do
      let rt ← reconcilePlan site previous now (runtimes p.planID) p
      pure (Function.update runtimes p.planID (some rt))) runtimes = some out) :
    Reconciled site previous next now runtimes out := by
  induction next generalizing runtimes with
  | nil =>
      cases h
      exact ⟨fun _ _ => rfl, by simp, by simp⟩
  | cons p rest ih =>
      rw [List.foldlM_cons] at h
      obtain ⟨stored, hstored, hrest⟩ := Option.bind_eq_some_iff.mp h
      obtain ⟨rt, hrt, heq⟩ := Option.bind_eq_some_iff.mp hstored
      cases heq
      obtain ⟨hothers, hpresent, heach⟩ := ih hrest
      refine ⟨fun id hid => ?_, fun q hq => ?_, fun hd q hq => ?_⟩
      · obtain ⟨hne, hnot⟩ : id ≠ p.planID ∧ id ∉ rest.map (·.planID) := by simpa using hid
        rw [hothers id hnot, Function.update_of_ne hne]
      · by_cases hin : q.planID ∈ rest.map (·.planID)
        · obtain ⟨q', hq', hid⟩ := List.mem_map.mp hin
          exact hid ▸ hpresent q' hq'
        · rcases List.mem_cons.mp hq with rfl | hq
          · rw [hothers _ hin, Function.update_self]
            rfl
          · exact absurd (List.mem_map_of_mem hq) hin
      · obtain ⟨hnot, hd⟩ := List.nodup_cons.mp hd
        rcases List.mem_cons.mp hq with rfl | hq
        · exact ⟨rt, by rw [hothers _ hnot, Function.update_self], hrt⟩
        · have hne : q.planID ≠ p.planID := fun he => hnot (List.mem_map.mpr ⟨q, hq, he⟩)
          simpa [Function.update_of_ne hne] using heach hd q hq

/-- The loop over the plans, and after it the one that deletes. -/
theorem reconciled_of_some
    (h : reconcilePlanRuntimes site previous next now runtimes = some out) :
    ∃ stored, Reconciled site previous next now runtimes stored ∧
      out = fun id => if next.any (·.planID = id) then stored id else none := by
  obtain ⟨stored, hstored, heq⟩ := Option.bind_eq_some_iff.mp h
  cases heq
  exact ⟨stored, reconciled_foldlM hstored, rfl⟩

theorem any_planID {id : UUID} : next.any (·.planID = id) = true ↔ id ∈ next.map (·.planID) := by
  simp

theorem isSome_reconcilePlanRuntimes
    (h : reconcilePlanRuntimes site previous next now runtimes = some out) (id : UUID) :
    (out id).isSome ↔ id ∈ next.map (·.planID) := by
  obtain ⟨stored, hstored, rfl⟩ := reconciled_of_some h
  by_cases hid : id ∈ next.map (·.planID)
  · obtain ⟨p, hp, rfl⟩ := List.mem_map.mp hid
    simp only [any_planID.mpr hid, if_true, hstored.present p hp, hid]
  · simp only [mt any_planID.mp hid, if_false, Option.isSome_none, Bool.false_eq_true, hid]

end

/-- The plans of the active state have runtimes, and no others. -/
def Durable.Covered (d : Durable) : Prop :=
  ∀ id, (d.runtimes id).isSome ↔ id ∈ d.plans.map (·.planID)

section

variable {site : Site} {d : Durable} {next : List Domain.PlanSchedule} {p : Domain.PlanSchedule}
  {now : Stamp} {out : UUID → Option PlanRuntime}

def Due.runtime : Due → Option PlanRuntime
  | .settled rt | .due _ rt => some rt
  | .waiting => none

theorem planID_of_dueSlot {scheduler : Schedule.Scheduler} {found : Option PlanRuntime}
    {rt : PlanRuntime} (h : (dueSlot site scheduler p now found).runtime = some rt) :
    rt.planID = p.planID := by
  unfold dueSlot at h
  extract_lets old changed adopted at h
  split at h
  · cases h
    rfl
  · split_ifs at h <;> cases h <;> rfl

theorem runtimes_putPlanRuntime {rt : PlanRuntime} (h : rt.planID = p.planID) :
    (d.putPlanRuntime rt).runtimes = Function.update d.runtimes p.planID (some rt) := by
  rw [← h]
  rfl

theorem advancePlan_runtimes (k : TickState) (busy : Bool) :
    (d.advancePlan site k p now busy).1.desired = d.desired ∧
      ((d.advancePlan site k p now busy).1.runtimes = d.runtimes ∨ ∃ rt,
        (d.advancePlan site k p now busy).1.runtimes =
          Function.update d.runtimes p.planID (some rt)) := by
  unfold Durable.advancePlan
  cases Schedule.ofPlan site p with
  | none => exact ⟨rfl, .inl rfl⟩
  | some scheduler =>
      dsimp only
      cases hslot : dueSlot site scheduler p now (d.runtimes p.planID) with
      | settled rt =>
          have hid := planID_of_dueSlot (congrArg Due.runtime hslot)
          exact ⟨rfl, .inr ⟨rt, runtimes_putPlanRuntime hid⟩⟩
      | waiting => exact ⟨rfl, .inl rfl⟩
      | due x rt =>
          have hid := planID_of_dueSlot (congrArg Due.runtime hslot)
          have hran : ∀ r, (rt.ran r).planID = p.planID := by
            intro r
            unfold PlanRuntime.ran
            split_ifs <;> exact hid
          dsimp only
          split_ifs
          · exact ⟨rfl, .inr ⟨rt, runtimes_putPlanRuntime hid⟩⟩
          · exact ⟨rfl, .inr ⟨_, runtimes_putPlanRuntime (hran _)⟩⟩

theorem Durable.Covered.advancePlan (h : d.Covered) (hp : p ∈ d.plans) (k : TickState)
    (busy : Bool) : (d.advancePlan site k p now busy).1.Covered := by
  obtain ⟨hdesired, hruntimes⟩ := @advancePlan_runtimes site d p now k busy
  intro id
  rw [Durable.plans, hdesired]
  refine Iff.trans ?_ (h id)
  rcases hruntimes with heq | ⟨rt, heq⟩
  · rw [heq]
  · rw [heq]
    by_cases hid : id = p.planID
    · subst hid
      simpa using (h p.planID).mpr (List.mem_map_of_mem hp)
    · rw [Function.update_of_ne hid]

end

namespace Config

open Domain (DesiredState DesiredStateError Digest)

variable {digest : Digest} {site : Site} {hooks : List UUID} {agentID : UUID}
  {message : Option Message} {env : Env} {f : File} {s : DesiredState}

/-! ## Messages -/

/-- A state that is received was validated, and has the revision and the hash of its message. -/
theorem of_receive (h : receive digest site hooks agentID message = .ok s) :
    1 ≤ s.revision ∧ s.configHash = s.expectedHash digest ∧
      ∃ m, message = some m ∧ s.revision = m.snapshot.revision ∧
        s.configHash = m.snapshot.configHash := by
  obtain ⟨state, hstate, h⟩ := bind_ok.mp h
  obtain ⟨-, heq⟩ := guard_ok.mp h
  cases heq
  cases message with
  | none => cases hstate
  | some m =>
      simp only [desiredStateFromProto] at hstate
      split_ifs at hstate
      obtain ⟨built, hbuilt, h⟩ := bind_ok.mp hstate
      obtain ⟨hvalid, heq⟩ := check_ok.mp h
      cases heq
      obtain ⟨-, hrevision, -, -, -, -, hhash⟩ := Domain.DesiredState.validate_ok.mp hvalid
      unfold Domain.Snapshot.state at hbuilt
      obtain ⟨-, h⟩ := guard_ok.mp hbuilt
      obtain ⟨plans, -, heq⟩ := bind_ok.mp h
      cases heq
      exact ⟨hrevision, hhash, m, rfl, rfl, rfl⟩

/-! ## One call -/

/-- What a call answers and leaves in the file. -/
inductive Applied (digest : Digest) (site : Site) (hooks : List UUID) (agentID : UUID)
    (message : Option Message) (env : Env) (f : File) : Option PendingConfigResult × File → Prop
  | refused {x} (h : x.2.durable = f.durable) (hr : ∀ r, x.1 = some r → r.accepted = false) :
      Applied digest site hooks agentID message env f x
  | repeated {x s active} (h : x.2.durable = f.durable)
      (hs : receive digest site hooks agentID message = .ok s)
      (hactive : f.durable.desired = some active) (hrevision : s.revision = active.revision)
      (hhash : s.configHash = active.configHash) : Applied digest site hooks agentID message env f x
  | activated {x s runtimes} (hs : receive digest site hooks agentID message = .ok s)
      (hnewer : ∀ active, f.durable.desired = some active → active.revision < s.revision)
      (hruntimes : reconcilePlanRuntimes site f.durable.plans s.plans env.now f.durable.runtimes =
        some runtimes)
      (h : x.2.durable = { f.durable with desired := some s, runtimes })
      (hx : x.1 = some (acceptedConfigResult s)) : Applied digest site hooks agentID message env f x

theorem durable_storePendingConfigResult (result : PendingConfigResult) :
    (f.storePendingConfigResult env result).2.durable = f.durable := by
  unfold File.storePendingConfigResult
  split_ifs <;> rfl

theorem eq_of_storePendingConfigResult {result r : PendingConfigResult}
    (h : (f.storePendingConfigResult env result).1 = some r) : r = result := by
  unfold File.storePendingConfigResult at h
  split_ifs at h
  exact (Option.some.inj h).symm

theorem Applied.of_rejected (e : DesiredStateError) :
    Applied digest site hooks agentID message env f
      (f.storePendingConfigResult env (rejectedConfigResult message e)) :=
  .refused (durable_storePendingConfigResult _) fun _ hr => by
    rw [eq_of_storePendingConfigResult hr]
    rfl

theorem applied_activate (hs : receive digest site hooks agentID message = .ok s)
    (hnewer : ∀ active, f.durable.desired = some active → active.revision < s.revision) :
    Applied digest site hooks agentID message env f (f.activate site env s) := by
  unfold File.activate
  by_cases hstages : (!env.stages) = true
  · rw [if_pos hstages]
    exact .refused rfl (by simp)
  · rw [if_neg hstages]
    cases hruntimes : reconcilePlanRuntimes site f.durable.plans s.plans env.now
        f.durable.runtimes with
    | none => exact .refused rfl (by simp)
    | some runtimes =>
        dsimp only
        split_ifs
        · exact .refused rfl (by simp)
        · exact .activated hs hnewer hruntimes rfl rfl

theorem applied_applyDesiredState : Applied digest site hooks agentID message env f
    (f.applyDesiredState digest site hooks agentID message env) := by
  unfold File.applyDesiredState
  cases hs : receive digest site hooks agentID message with
  | error e =>
      dsimp only
      split_ifs
      · exact .refused rfl (by simp)
      · exact .of_rejected e
  | ok s =>
      dsimp only
      split_ifs
      · exact .refused rfl (by simp)
      unfold File.applyState
      cases hactive : f.durable.desired with
      | none => exact applied_activate hs (by simp [hactive])
      | some active =>
          dsimp only
          split_ifs with hlt heq hhash
          · exact .of_rejected _
          · exact .of_rejected _
          · exact .repeated (durable_storePendingConfigResult _) hs hactive heq (not_not.mp hhash)
          · refine applied_activate hs fun active' h => ?_
            cases hactive.symm.trans h
            omega

/-! ## Runs -/

/-- What an act does: it applies a message, or keeps the active state. -/
inductive Performed (digest : Digest) (site : Site) (f : File) : Act → File → Prop
  | applied {hooks agentID message env x f'} (h : Applied digest site hooks agentID message env f x)
      (hx : x.2 = f') : Performed digest site f (.apply hooks agentID message env) f'
  | others {act f'} (hdesired : f'.durable.desired = f.durable.desired)
      (hcovered : f.durable.Covered → f'.durable.Covered) : Performed digest site f act f'

theorem performed_perform (act : Act) (f : File) :
    Performed digest site f act (act.perform digest site f) := by
  cases act with
  | apply hooks agentID message env => exact .applied applied_applyDesiredState rfl
  | clear revision =>
      have hkept : (f.clearPendingConfigResult revision).durable = f.durable := by
        unfold File.clearPendingConfigResult
        split_ifs <;> rfl
      exact .others (congrArg (·.desired) hkept) fun h => by rwa [Act.perform, hkept]
  | advance p k now busy =>
      simp only [Act.perform]
      split_ifs with hp
      · exact .others (advancePlan_runtimes k busy).1 fun h => h.advancePlan hp k busy
      · exact .others rfl fun h => h
  | work records => exact .others rfl fun h => h

structure Sound (digest : Digest) (f : File) : Prop where
  covered : f.durable.Covered
  valid : ∀ s, f.durable.desired = some s → 1 ≤ s.revision ∧ s.configHash = s.expectedHash digest

theorem Sound.of_durable {f' : File} (hf : Sound digest f) (h : f'.durable = f.durable) :
    Sound digest f' :=
  ⟨by rw [h]; exact hf.covered, by rw [h]; exact hf.valid⟩

theorem Applied.sound {x : Option PendingConfigResult × File}
    (h : Applied digest site hooks agentID message env f x) (hf : Sound digest f) :
    Sound digest x.2 := by
  cases h with
  | refused h => exact hf.of_durable h
  | repeated h => exact hf.of_durable h
  | activated hs _ hruntimes h =>
      obtain ⟨hrevision, hhash, -⟩ := of_receive hs
      refine ⟨?_, ?_⟩
      · rw [h]
        exact isSome_reconcilePlanRuntimes hruntimes
      · rw [h]
        rintro _ ⟨⟩
        exact ⟨hrevision, hhash⟩

theorem Sound.perform (hf : Sound digest f) (act : Act) : Sound digest (act.perform digest site f) := by
  cases performed_perform act f with
  | applied h hx => exact hx ▸ h.sound hf
  | others hdesired hcovered =>
      refine ⟨hcovered hf.covered, ?_⟩
      rw [hdesired]
      exact hf.valid

theorem Sound.run (hf : Sound digest f) (acts : List Act) : Sound digest (run digest site f acts) := by
  induction acts generalizing f with
  | nil => exact hf
  | cons act rest ih => exact ih (hf.perform act)

/-- A state that the act applies has plans with different identifiers. -/
def Act.Distinct (digest : Digest) (site : Site) : Act → Prop
  | .apply hooks agentID message _ =>
    ∀ s, receive digest site hooks agentID message = .ok s → DistinctPlans s.plans
  | _ => True

end Config

end RestFleet.Agent
