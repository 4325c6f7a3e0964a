import RestFleet.Model.Authorization

/-! # What one call of the authorization can do -/

namespace RestFleet.Authorization

variable {S : Signing} {J : Codec GatewayStatement} {a : Authorization S}

def observed (a : Authorization S) (now : Time) : Authorization S := (a.observeClock now).1

@[simp] theorem observed_key (now : Time) : (a.observed now).key = a.key := rfl

@[simp] theorem observed_binding (now : Time) : (a.observed now).binding = a.binding := rfl

@[simp] theorem observed_current (now : Time) : (a.observed now).current = a.current := rfl

@[simp] theorem observed_lastGrant (now : Time) : (a.observed now).lastGrant = a.lastGrant := rfl

@[simp] theorem observed_deadline (now : Time) : (a.observed now).deadline = a.deadline := rfl

@[simp] theorem observed_lastWall (now : Time) : (a.observed now).lastWall = now.round0 := rfl

theorem observeClock_eq (now : Time) :
    a.observeClock now = (a.observed now, !(a.observed now).clockUnsafe) := rfl

theorem clockUnsafe_observed {now : Time} (h : (a.observed now).clockUnsafe = false) :
    a.clockUnsafe = false ∧ now.round0.before a.lastWall = false := by
  simp only [observed, observeClock] at h
  split at h
  · cases h
  · rename_i hn
    refine ⟨h, ?_⟩
    simpa using hn ∘ Or.inr

theorem validate_of_verify {wire : Bytes} {key : S.PublicKey} {s : GatewayStatement}
    (h : verifyGatewayStatement S J wire key = some s) : s.validate = true := by
  unfold verifyGatewayStatement at h
  grind

theorem revision_ne_zero {wire : Bytes} {key : S.PublicKey} {s : GatewayStatement}
    (h : verifyGatewayStatement S J wire key = some s) : s.revision ≠ 0 := by
  have hv := validate_of_verify h
  unfold GatewayStatement.validate at hv
  grind

/-- The statement passed the checks that come before the revision check. -/
structure Verified (J : Codec GatewayStatement) (a : Authorization S) (wire : Bytes) (now : Time)
    (s : GatewayStatement) : Prop where
  clock : (a.observed now).clockUnsafe = false
  verified : verifyGatewayStatement S J wire a.key = some s
  binding : s.binding = a.binding
  issued : s.issuedAt ≤ now.unixSeconds

structure Follows (s current : GatewayStatement) (now : Time) : Prop where
  open_ : current.revoked = false
  revision : current.revision < s.revision
  issuedAt : current.issuedAt ≤ s.issuedAt
  expiresAt : s.revoked = false → now.unixSeconds < s.expiresAt

def replace (a : Authorization S) (s : GatewayStatement) (now : Time) : Authorization S :=
  { a with
    current := s
    lastGrant := if s.revoked then a.lastGrant else s
    deadline := if s.revoked then a.deadline else now.add ((Time.ofUnix s.expiresAt).sub now) }

theorem acceptStatement_cases (s : GatewayStatement) (now : Time) :
    a.acceptStatement s now = (a, false) ∨
      (s = a.current ∧ a.acceptStatement s now = (a, true)) ∨
      (s ≠ a.current ∧ Follows s a.current now ∧
        a.acceptStatement s now = (a.replace s now, true)) := by
  unfold acceptStatement
  by_cases hs : s = a.current
  · exact Or.inr (Or.inl ⟨hs, if_pos hs⟩)
  rw [if_neg hs]
  split
  · exact Or.inl rfl
  rename_i hchecks
  simp only [not_or, not_and, Nat.not_le, Int.not_lt, Int.not_le, Bool.not_eq_true] at hchecks
  obtain ⟨hopen, hrevision, hissued, hexpires⟩ := hchecks
  refine Or.inr (Or.inr ⟨hs, ⟨hopen, hrevision, hissued, hexpires⟩, ?_⟩)
  cases hr : s.revoked <;> simp [replace, hr]

/-- Every call of `Accept` either rejects after its clock observation, repeats the current
statement, or replaces it by one that follows it. -/
theorem step_accept_cases (wire : Bytes) (now : Time) :
    a.step J (.accept wire now) = (a.observed now, .rejected now) ∨
      ∃ s, Verified J a wire now s ∧
        ((s = a.current ∧ a.step J (.accept wire now) = (a.observed now, .accepted s now)) ∨
          (s ≠ a.current ∧ Follows s a.current now ∧
            a.step J (.accept wire now) = ((a.observed now).replace s now, .accepted s now))) := by
  cases hclock : (a.observed now).clockUnsafe with
  | true => exact Or.inl (by simp [step, accept, observeClock_eq, hclock])
  | false =>
      cases hv : verifyGatewayStatement S J wire a.key with
      | none => exact Or.inl (by simp [step, accept, observeClock_eq, hclock, hv])
      | some s =>
          by_cases hcheck : s.binding ≠ a.binding ∨ s.issuedAt > now.unixSeconds
          · exact Or.inl (by simp [step, accept, observeClock_eq, hclock, hv, hcheck])
          · have haccept : a.accept J wire now = (a.observed now).acceptStatement s now := by
              simp [accept, observeClock_eq, hclock, hv, hcheck]
            rw [not_or, not_not, Int.not_lt] at hcheck
            rcases acceptStatement_cases (a := a.observed now) s now with
              hr | ⟨hs, hr⟩ | ⟨hs, hf, hr⟩
            · exact Or.inl (by simp [step, haccept, hr])
            · refine Or.inr ⟨s, ⟨hclock, hv, hcheck.1, hcheck.2⟩, Or.inl ⟨hs, ?_⟩⟩
              simp [step, haccept, hr, hv]
            · refine Or.inr ⟨s, ⟨hclock, hv, hcheck.1, hcheck.2⟩, Or.inr ⟨hs, hf, ?_⟩⟩
              simp [step, haccept, hr, hv]

/-- `VALID` means that every check of `Status` passed. -/
theorem step_status_valid {now : Time} {a' : Authorization S}
    (h : a.step J (.status now) = (a', .status .valid now)) :
    (a.observed now).clockUnsafe = false ∧ a.current.revoked = false ∧ a.current.revision ≠ 0 ∧
      now.unixSeconds < a.current.expiresAt ∧ now.before a.deadline = true := by
  simp only [step, status, observeClock_eq, observed_current, observed_deadline] at h
  grind

theorem step_status_fst (now : Time) : (a.step J (.status now)).1 = a.observed now := by
  simp only [step, status, observeClock_eq]
  grind

end RestFleet.Authorization
