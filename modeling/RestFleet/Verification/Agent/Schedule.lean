import Mathlib.Tactic.Ring
import RestFleet.Model.Agent.Scheduler

/-! # The next run of a plan -/

namespace RestFleet.Agent.Schedule

theorem minute_eq : minute = 60000000000 := rfl

theorem second_eq : second = 1000000000 := rfl

namespace Scheduler

variable {s : Scheduler} {site : Site} {t c : ℤ}

structure Slot (s : Scheduler) (c : ℤ) : Prop where
  whole : c % minute = 0
  hit : s.matches c = true

def horizon (t : ℤ) : ℤ := t - t % minute + maxMinutesAhead * minute

theorem horizon_mono {t t' : ℤ} (h : t ≤ t') : horizon t ≤ horizon t' := by
  simp only [horizon, minute_eq, maxMinutesAhead]
  omega

theorem search_some {n : ℕ} {start : ℤ} (h : s.search n start = some c) :
    ∃ k : ℕ, k < n ∧ c = start + k * minute ∧ s.matches c = true ∧
      ∀ j : ℕ, j < k → s.matches (start + j * minute) = false := by
  induction n generalizing start with
  | zero => cases h
  | succ n ih =>
      simp only [search] at h
      split at h
      case isTrue hit =>
        cases h
        exact ⟨0, by omega, by simp, hit, nofun⟩
      case isFalse miss =>
        obtain ⟨k, hk, hc, hit, hfirst⟩ := ih h
        refine ⟨k + 1, by omega, ?_, hit, ?_⟩
        · rw [hc]
          push_cast
          ring
        · intro j hj
          cases j with
          | zero => simpa using miss
          | succ j =>
              have hstep : start + ((j + 1 : ℕ) : ℤ) * minute = start + minute + j * minute := by
                push_cast
                ring
              rw [hstep]
              exact hfirst j (by omega)

theorem search_none {n : ℕ} {start : ℤ} (h : s.search n start = none) {k : ℕ} (hk : k < n) :
    s.matches (start + k * minute) = false := by
  induction n generalizing start k with
  | zero => omega
  | succ n ih =>
      simp only [search] at h
      split at h
      case isTrue => cases h
      case isFalse miss =>
        cases k with
        | zero => simpa using miss
        | succ k =>
            have hstep : start + ((k + 1 : ℕ) : ℤ) * minute = start + minute + k * minute := by
              push_cast
              ring
            rw [hstep]
            exact ih h (by omega)

/-- The whole minutes after `t` are the candidates of its search. -/
theorem candidate_of_whole (hc : c % minute = 0) (ht : t < c) :
    ∃ k : ℕ, c = t - t % minute + minute + k * minute := by
  refine ⟨((c - (t - t % minute + minute)) / minute).toNat, ?_⟩
  simp only [minute_eq] at *
  omega

theorem nextScheduled_some (h : s.nextScheduled t = some c) :
    s.Slot c ∧ t < c ∧ c ≤ horizon t ∧ ∀ c', s.Slot c' → t < c' → c ≤ c' := by
  obtain ⟨k, hk, hc, hit, hfirst⟩ := search_some h
  have hbound : k < 527040 := hk
  refine ⟨⟨?_, hit⟩, ?_, ?_, ?_⟩
  · simp only [minute_eq] at *
    omega
  · simp only [minute_eq] at *
    omega
  · simp only [horizon, minute_eq, maxMinutesAhead] at *
    omega
  · intro c' hslot ht
    obtain ⟨j, hj⟩ := candidate_of_whole hslot.whole ht
    by_contra hlt
    have hjk : j < k := by
      simp only [minute_eq] at *
      omega
    have hmiss := hfirst j hjk
    rw [← hj, hslot.hit] at hmiss
    cases hmiss

theorem nextScheduled_none (h : s.nextScheduled t = none) (hc : s.Slot c) (ht : t < c) :
    horizon t < c := by
  obtain ⟨k, hk⟩ := candidate_of_whole hc.whole ht
  by_contra hle
  have hlt : k < maxMinutesAhead := by
    simp only [horizon, minute_eq, maxMinutesAhead] at *
    omega
  have hmiss := search_none h hlt
  rw [← hk, hc.hit] at hmiss
  cases hmiss

theorem stableJitter_nonneg {planID : UUID} {maxSeconds : ℤ} :
    0 ≤ stableJitter site planID c maxSeconds := by
  unfold stableJitter
  split
  · exact le_rfl
  · exact Int.mul_nonneg (Int.natCast_nonneg _) (by decide)

theorem le_due : c ≤ s.due site c := by
  have h : 0 ≤ stableJitter site s.planID c s.spec.jitterSeconds := stableJitter_nonneg
  unfold due
  omega

theorem nextRun_some {x : ℤ} (h : s.nextRun site t = some x) :
    ∃ c, x = s.due site c ∧ s.Slot c ∧ t < c ∧ c ≤ horizon t ∧
      ∀ c', s.Slot c' → t < c' → c ≤ c' := by
  obtain ⟨c, hc, rfl⟩ := Option.map_eq_some_iff.mp h
  exact ⟨c, rfl, nextScheduled_some hc⟩

theorem nextRun_none (h : s.nextRun site t = none) (hc : s.Slot c) (ht : t < c) : horizon t < c :=
  nextScheduled_none (Option.map_eq_none_iff.mp h) hc ht

end Scheduler

end RestFleet.Agent.Schedule
