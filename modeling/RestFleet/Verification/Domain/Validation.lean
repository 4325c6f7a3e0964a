import RestFleet.Model.Domain.AgentState
import RestFleet.Shared.Checks

/-! # What the validators accept -/

namespace RestFleet.Domain

variable {zones : Zones} {digest : Digest}

theorem PlanSchedule.validate_ok {p : PlanSchedule} : p.validate zones = .ok () ↔
    p.planID.isV7 = true ∧ 1 ≤ p.revision ∧ (p.name ≠ [] ∧ p.name.byteLength ≤ 128) ∧
    p.repositoryID.isV7 = true ∧ p.paths.items ≠ [] ∧
    (0 ≤ p.jitterSeconds ∧ p.jitterSeconds ≤ 3600) ∧
    (0 ≤ p.misfireGraceSeconds ∧ p.misfireGraceSeconds ≤ 86400) ∧
    (["", "FORBID", "ALLOW"].map String.toList).contains p.concurrencyPolicy = true ∧
    validateCron p.cron = true ∧ validateTimezone zones p.timezone = true ∧
    validateBackupPaths p.paths p.excludePatterns = .ok () ∧
    validateExecution p.execution = .ok () := by
  unfold PlanSchedule.validate
  extract_lets execution paths
  iterate 7
    refine Iff.trans guard_ok (and_congr (by simp) ?_)
  iterate 3
    refine Iff.trans guard_ok (and_congr (by rw [Bool.not_eq_true', Bool.not_eq_false]) ?_)
  simp only [paths, execution]
  cases validateBackupPaths p.paths p.excludePatterns with
  | error e => simp [bind, Except.bind, throw, throwThe, MonadExceptOf.throw]
  | ok u =>
      cases validateExecution p.execution with
      | error e => simp [stateError]
      | ok u => simp [pure, Except.pure]

/-- The part of `TemplateConfig.Validate` that schedules depend on. -/
theorem TemplateConfig.of_validate {c : TemplateConfig} (h : c.validate zones = .ok ()) :
    validateBackupPaths c.paths c.excludePatterns = .ok () ∧ validateCron c.scheduleCron = true ∧
    validateTimezone zones c.scheduleTimezone = true ∧
    (0 ≤ c.jitterSeconds ∧ c.jitterSeconds ≤ 3600) ∧
    (0 ≤ c.misfireGraceSeconds ∧ c.misfireGraceSeconds ≤ 86400) ∧
    validateExecution c.backupExecution = .ok () := by
  unfold TemplateConfig.validate at h
  obtain ⟨hpaths, h⟩ := check_ok.mp h
  extract_lets at h
  obtain ⟨hcron, h⟩ := guard_ok.mp h
  obtain ⟨hzone, h⟩ := guard_ok.mp h
  obtain ⟨hjitter, h⟩ := guard_ok.mp h
  obtain ⟨hmisfire, h⟩ := guard_ok.mp h
  obtain ⟨-, h⟩ := guard_ok.mp h
  obtain ⟨-, h⟩ := guard_ok.mp h
  simp only [Bool.not_eq_true, Bool.not_eq_false', Bool.or_eq_false_iff, decide_eq_false_iff_not,
    not_lt] at hcron hzone hjitter hmisfire
  exact ⟨hpaths, hcron, hzone, hjitter, hmisfire, h⟩

theorem paths_of_validate {paths excludes : Slice Text}
    (h : validateBackupPaths paths excludes = .ok ()) : paths.items ≠ [] := by
  unfold validateBackupPaths at h
  extract_lets at h
  obtain ⟨hne, -⟩ := guard_ok.mp h
  simpa using hne

theorem DesiredState.validate_ok {s : DesiredState} : s.validate digest zones = .ok () ↔
    s.agentID ≠ UUID.nil ∧ 1 ≤ s.revision ∧ s.generatedAt ≠ 0 ∧
    (1 ≤ s.runtimePolicy.maxParallelIOJobs ∧ s.runtimePolicy.maxParallelIOJobs ≤ 16) ∧
    (64 * 2 ^ 10 ≤ s.runtimePolicy.logLimitBytes ∧
      s.runtimePolicy.logLimitBytes ≤ defaultLogLimitBytes) ∧
    (∀ p ∈ s.plans, p.validate zones = .ok ()) ∧ s.configHash = s.expectedHash digest := by
  unfold DesiredState.validate
  extract_lets
  iterate 5
    refine Iff.trans guard_ok (and_congr (by simp) ?_)
  refine Iff.trans check_ok (and_congr forM_ok ?_)
  refine Iff.trans last_guard_ok ?_
  simp

end RestFleet.Domain
