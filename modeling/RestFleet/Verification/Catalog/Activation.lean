import RestFleet.Verification.Catalog.Overwrites
import RestFleet.Verification.Domain.Validation

/-! # Accepted plans and their schedules

The requests count the characters of a name, the schedule counts its bytes; every other check of
`PlanSchedule.Validate` follows from the checks of the requests. -/

namespace RestFleet.Catalog

open Domain

/-- What the requests have checked of every version of a plan. -/
structure Accepted (site : Site) (p : Plan) : Prop where
  id : p.id.isV7 = true
  repositoryID : p.repositoryID.isV7 = true
  name : validTemplateText p.name 1 128 = true
  config : p.effectiveConfig.validate site.zones = .ok ()
  revision : 1 ≤ p.desiredRevision

variable {site : Site} {trail : List Entry} {e : Entry} {p : Plan}

theorem NewPlan.accepted (h : NewPlan site p) : Accepted site p :=
  ⟨h.id, h.repositoryID, h.name, h.config, h.revision.ge⟩

theorem Accepted.revised {change : PlanChange} {read next : Plan} (h : Accepted site p)
    (hread : Accepted site read) (hbuilt : Built site trail change read next) :
    Accepted site (p.revised next) where
  id := h.id
  repositoryID := h.repositoryID
  name := by
    change validTemplateText next.name 1 128 = true
    rw [hbuilt.name]
    cases hname : change.name with
    | none => exact hread.name
    | some name => exact hbuilt.named name hname
  config := by
    change next.effectiveConfig.validate site.zones = .ok ()
    rcases hbuilt.config with ⟨hsame, -⟩ | ⟨-, hderived⟩
    · rw [hsame]
      exact hread.config
    · obtain ⟨base, -, hmerge⟩ := hderived.merged
      exact validate_of_merge hmerge
  revision := by
    have hrev := h.revision
    change 1 ≤ p.desiredRevision + 1
    omega

theorem Entry.Fits.accepted {i : UUID} (hf : e.Fits site trail)
    (h : ∀ n i p, planAt (trail.take n) i = some p → Accepted site p)
    (hp : e.plan i (planAt trail i) = some p) : Accepted site p := by
  have hnow : ∀ {i p}, planAt trail i = some p → Accepted site p := by
    intro i p hi
    exact h trail.length i p (by rwa [List.take_length])
  cases e with
  | planCreated new seen actor published =>
      rw [Entry.plan] at hp
      split at hp
      · cases hp
        exact hf.2.1.accepted
      · exact hnow hp
  | planRevised change expected read seen after actor published =>
      obtain ⟨-, hread, old, next, hb, -, -, -, -, hbuilt, rfl⟩ := hf
      rw [Entry.plan] at hp
      split at hp
      · cases hp
        exact (hnow hb).revised (h _ _ _ hread) hbuilt
      · exact hnow hp
  | planStatus after published =>
      obtain ⟨old, status, now, hb, rfl⟩ := hf
      rw [Entry.plan] at hp
      split at hp
      · cases hp
        obtain ⟨hid, hrepo, hname, hconfig, hrev⟩ := hnow hb
        exact ⟨hid, hrepo, hname, hconfig, hrev⟩
      · exact hnow hp
  | _ => exact hnow hp

/-- Every version of a plan that a history has contained is accepted. -/
theorem accepted_of_checked (hc : Checked (Entry.Fits site) trail) (n : ℕ) (i : UUID) (p : Plan)
    (hp : planAt (trail.take n) i = some p) : Accepted site p := by
  induction hc using Checked.induction generalizing n i p with
  | nil =>
      rw [List.take_nil] at hp
      cases hp
  | snoc trail e hb he ih =>
      by_cases hn : n ≤ trail.length
      · rw [List.take_append_of_le_length hn] at hp
        exact ih n i p hp
      · rw [List.take_of_length_le (by rw [List.length_append, List.length_singleton]; omega),
          planAt_snoc] at hp
        exact he.accepted ih hp

/-- All that can be wrong with the schedule of an accepted plan is the length of its name. -/
theorem Accepted.schedule_ok (h : Accepted site p) :
    p.schedule.validate site.zones = .ok () ↔ p.name.byteLength ≤ 128 := by
  obtain ⟨hpaths, hcron, hzone, hjitter, hmisfire, hexecution⟩ := TemplateConfig.of_validate h.config
  have hname : p.name ≠ [] := by
    have hlen := h.name
    simp only [validTemplateText, Bool.and_eq_true, decide_eq_true_eq] at hlen
    exact List.ne_nil_of_length_pos hlen.1.2
  rw [PlanSchedule.validate_ok]
  constructor
  · rintro ⟨-, -, ⟨-, hbytes⟩, -⟩
    exact hbytes
  · intro hbytes
    exact ⟨h.id, h.revision, ⟨hname, hbytes⟩, h.repositoryID, paths_of_validate hpaths, hjitter,
      hmisfire, rfl, hcron, hzone, hpaths, hexecution⟩

theorem publishRow_ok {agentID : UUID} {revision : ℤ} {policy : RuntimePolicy} {now : Stamp}
    {plans : List Plan} (hagent : agentID ≠ UUID.nil) (hrev : 1 ≤ revision) (hnow : now ≠ 0)
    (hjobs : 1 ≤ policy.maxParallelIOJobs ∧ policy.maxParallelIOJobs ≤ 16)
    (hlog : 64 * 2 ^ 10 ≤ policy.logLimitBytes ∧ policy.logLimitBytes ≤ defaultLogLimitBytes) :
    (∃ row, publishRow site agentID revision policy now plans = .ok row) ↔
      ∀ p ∈ plans, p.schedule.validate site.zones = .ok () := by
  have hvalid : (publishedState site.digest agentID revision policy now plans).validate site.digest
      site.zones = .ok () ↔ ∀ p ∈ plans, p.schedule.validate site.zones = .ok () := by
    rw [DesiredState.validate_ok]
    constructor
    · rintro ⟨-, -, -, -, -, hplans, -⟩ p hp
      exact hplans _ (List.mem_map_of_mem hp)
    · intro hplans
      refine ⟨hagent, hrev, hnow, hjobs, hlog, ?_, rfl⟩
      intro schedule hs
      obtain ⟨p, hp, rfl⟩ := List.mem_map.mp hs
      exact hplans p hp
  rw [← hvalid, publishRow]
  cases (publishedState site.digest agentID revision policy now plans).validate site.digest
    site.zones with
  | error e => simp [bind, Except.bind]
  | ok u => simp [bind, Except.bind, pure, Except.pure]

/-- In every run the schedule of a plan is valid exactly when its name has at most 128 bytes, and
the plans of an Agent are published exactly when this holds of each that is active. -/
theorem accepted_plan_publishes_iff {start : Database} (hs : start.Fresh)
    {c : Config (Tx.State schema) ℕ (Tx.Op schema) (Tx.Reply schema)}
    (hc : (server site).Reachable (Tx.State.initial start) c) :
    (∀ i p, c.state.db.plans.row i = some p →
      (p.schedule.validate site.zones = .ok () ↔ p.name.byteLength ≤ 128)) ∧
    ∀ agentID revision policy now, agentID ≠ UUID.nil → 1 ≤ revision → now ≠ 0 →
      (1 ≤ policy.maxParallelIOJobs ∧ policy.maxParallelIOJobs ≤ 16) →
      (64 * 2 ^ 10 ≤ policy.logLimitBytes ∧ policy.logLimitBytes ≤ defaultLogLimitBytes) →
      ((∃ row, publishRow site agentID revision policy now (c.state.db.activePlans agentID)
          = .ok row) ↔
        ∀ p ∈ c.state.db.activePlans agentID, p.name.byteLength ≤ 128) := by
  have hr := reaches_of_reachable hs hc
  have hrow : ∀ i p, c.state.db.plans.row i = some p →
      (p.schedule.validate site.zones = .ok () ↔ p.name.byteLength ≤ 128) := by
    intro i p hp
    rw [(replays_of_reaches hr).plans] at hp
    refine (accepted_of_checked (checked_of_reaches hr) c.state.db.trail.length i p ?_).schedule_ok
    rwa [List.take_length]
  refine ⟨hrow, ?_⟩
  intro agentID revision policy now hagent hrev hnow hjobs hlog
  rw [publishRow_ok hagent hrev hnow hjobs hlog]
  have hactive : ∀ p ∈ c.state.db.activePlans agentID, ∃ i, c.state.db.plans.row i = some p := by
    intro p hp
    rw [Database.activePlans, List.mem_insertionSort, List.mem_filter] at hp
    exact Table.mem_rows.mp hp.1
  constructor
  · intro h p hp
    obtain ⟨i, hi⟩ := hactive p hp
    exact (hrow i p hi).mp (h p hp)
  · intro h p hp
    obtain ⟨i, hi⟩ := hactive p hp
    exact (hrow i p hi).mpr (h p hp)

theorem accepted_plan_publishes_iff_renamed :
    ∃ c : Config (Tx.State schema) ℕ (Tx.Op schema) (Tx.Reply schema),
      (server sampleSite).Reachable (Tx.State.initial sampleStart) c ∧
      ∃ p, c.state.db.plans.row (sampleID 5) = some p ∧ p.name.byteLength ≤ 128 ∧
        p.schedule.validate sampleSite.zones = .ok () := by
  have hplay : (play sampleSite sampleStart renamed).any (fun m : Tx.Machine schema =>
      (m.db.plans.row (sampleID 5)).any fun p => decide (p.name.byteLength ≤ 128)) = true := by
    decide +kernel
  obtain ⟨m, hm, hany⟩ := (Option.any_eq_true _ _).mp hplay
  obtain ⟨p, hp, hbytes⟩ := (Option.any_eq_true _ _).mp hany
  rw [decide_eq_true_eq] at hbytes
  have hc := reachable_of_play hm
  exact ⟨_, hc, p, hp, hbytes,
    ((accepted_plan_publishes_iff sampleStart_fresh hc).1 _ p hp).mpr hbytes⟩

def longName : List Move :=
  sampleOpening ++
    [.call 3 (.createPlan sampleAdmin { samplePlan "" with name := List.replicate 65 'é' }),
      .go 3 50 planDraw 4]

/-- A plan is accepted whose schedule can never be published. -/
theorem accepted_plan_not_publishable :
    ∃ (start : Database) (c : Config (Tx.State schema) ℕ (Tx.Op schema) (Tx.Reply schema)),
      start.Fresh ∧ (server sampleSite).Reachable (Tx.State.initial start) c ∧
      ∃ i p, c.state.db.plans.row i = some p ∧ p.archivedAt = none ∧
        p.schedule.validate sampleSite.zones =
          .error ⟨"PLAN_NAME_INVALID".toList, "plans.name".toList⟩ := by
  have hplay : (play sampleSite sampleStart longName).any (fun m : Tx.Machine schema =>
      (m.db.plans.row (sampleID 5)).any fun p => decide (p.archivedAt = none ∧
        p.schedule.validate sampleSite.zones =
          .error ⟨"PLAN_NAME_INVALID".toList, "plans.name".toList⟩)) = true := by
    decide +kernel
  obtain ⟨m, hm, hany⟩ := (Option.any_eq_true _ _).mp hplay
  obtain ⟨p, hp, hcheck⟩ := (Option.any_eq_true _ _).mp hany
  rw [decide_eq_true_eq] at hcheck
  exact ⟨sampleStart, ⟨m.state, m.threads⟩, sampleStart_fresh, reachable_of_play hm, _, p, hp,
    hcheck⟩

end RestFleet.Catalog
