import Mathlib.Algebra.Order.Group.Int
import Mathlib.Tactic.Common
import RestFleet.Model.Agent.Credential

/-! # The history of a credential

What the comparison with the stored credential grants is transitive. -/

namespace RestFleet.Agent.Credential

/-- What two credentials of a history have in common; `b` is the later one. -/
structure Later (a b : RepositoryCredential) : Prop where
  agentID : b.agentID = a.agentID
  hostID : b.hostID = a.hostID
  repositoryID : b.repositoryID = a.repositoryID
  gatewayID : b.gatewayID = a.gatewayID
  revision : a.revision ≤ b.revision
  gatewayRevision : a.gatewayRevision ≤ b.gatewayRevision
  resticRevision : a.resticRevision ≤ b.resticRevision
  resticPassword : b.resticRevision = a.resticRevision → b.resticPassword = a.resticPassword
  gatewayPassword : b.gatewayRevision = a.gatewayRevision →
    b.gatewayPassword = a.gatewayPassword ∨ b.gatewayPassword = []
  content : b.revision = a.revision → b = a ∨ b = { a with gatewayPassword := [] }

namespace Later

variable {a b c : RepositoryCredential}

theorem refl (a : RepositoryCredential) : Later a a where
  agentID := rfl
  hostID := rfl
  repositoryID := rfl
  gatewayID := rfl
  revision := le_rfl
  gatewayRevision := le_rfl
  resticRevision := le_rfl
  resticPassword := fun _ => rfl
  gatewayPassword := fun _ => .inl rfl
  content := fun _ => .inl rfl

/-- Revisions that are the same at both ends are the same in between. -/
theorem trans (hab : Later a b) (hbc : Later b c) : Later a c where
  agentID := hbc.agentID.trans hab.agentID
  hostID := hbc.hostID.trans hab.hostID
  repositoryID := hbc.repositoryID.trans hab.repositoryID
  gatewayID := hbc.gatewayID.trans hab.gatewayID
  revision := hab.revision.trans hbc.revision
  gatewayRevision := hab.gatewayRevision.trans hbc.gatewayRevision
  resticRevision := hab.resticRevision.trans hbc.resticRevision
  resticPassword := by
    intro hca
    have hba := le_antisymm (hbc.resticRevision.trans hca.le) hab.resticRevision
    exact (hbc.resticPassword (hca.trans hba.symm)).trans (hab.resticPassword hba)
  gatewayPassword := by
    intro hca
    have hba := le_antisymm (hbc.gatewayRevision.trans hca.le) hab.gatewayRevision
    rcases hbc.gatewayPassword (hca.trans hba.symm) with hsame | hdropped
    · rw [hsame]
      exact hab.gatewayPassword hba
    · exact .inr hdropped
  content := by
    intro hca
    have hba := le_antisymm (hbc.revision.trans hca.le) hab.revision
    rcases hab.content hba with rfl | rfl
    · exact hbc.content (hca.trans hba.symm)
    · exact .inr ((hbc.content (hca.trans hba.symm)).elim id id)

end Later

/-! ## One call -/

variable {lib : Library} {identity : Identity} {message : Option CredentialRevision} {env : Env}
  {file : Option RepositoryCredential} {previous c : RepositoryCredential}

theorem later_of_successor (h : successor previous c = true) : Later previous c := by
  unfold successor at h
  split_ifs at h with hbound hrevision
  -- The same revision: the content is the same, up to the password that may be dropped.
  · rw [of_decide_eq_true h]
    exact { Later.refl previous with
      gatewayPassword := fun _ => .inr rfl
      content := fun _ => .inr rfl }
  · rw [of_decide_eq_true h]
    exact Later.refl previous
  · simp only [Bool.or_eq_true, decide_eq_true_eq, not_or, not_not, not_lt] at hbound
    obtain ⟨⟨⟨⟨⟨⟨hagent, hhost⟩, hrepository⟩, hgateway⟩, hlower⟩, hlowerG⟩, hlowerR⟩ := hbound
    simp only [Bool.not_eq_true', Bool.or_eq_false_iff, Bool.and_eq_false_imp, decide_eq_false_iff_not,
      decide_eq_true_eq, not_not, Bool.and_eq_true, Bool.not_eq_true', and_imp] at h
    obtain ⟨⟨-, hpassword⟩, hrestic⟩ := h
    exact {
      agentID := hagent.symm
      hostID := hhost.symm
      repositoryID := hrepository.symm
      gatewayID := hgateway.symm
      revision := hlower
      gatewayRevision := hlowerG
      resticRevision := hlowerR
      resticPassword := hrestic
      gatewayPassword := fun hsame => by
        by_cases hempty : c.gatewayPassword.isEmpty = false
        · exact .inl (hpassword hsame hempty)
        · exact .inr (by simpa using hempty)
      content := fun hsame => absurd hsame hrevision }

theorem of_admitted (h : admitted lib identity message file = some c) :
    ∀ previous, file = some previous → Later previous c := by
  rintro previous rfl
  obtain ⟨m, -, h⟩ := Option.bind_eq_some_iff.mp h
  obtain ⟨d, -, h⟩ := Option.bind_eq_some_iff.mp h
  split_ifs at h with hcheck
  cases h
  exact later_of_successor hcheck.2.2

/-- What a call leaves in the file: what was there, or the credential of its message. -/
theorem file_after_call (lib : Library) (call : Call) (file : Option RepositoryCredential) :
    (applyRepositoryCredential lib call.identity call.message call.env file).2 = file ∨
      ∃ c, admitted lib call.identity call.message file = some c ∧
        (applyRepositoryCredential lib call.identity call.message call.env file).2 = some c := by
  unfold applyRepositoryCredential
  cases hc : admitted lib call.identity call.message file with
  | none => exact .inl rfl
  | some c =>
      dsimp only
      split_ifs
      · exact .inl rfl
      · cases call.env.write with
        | failed => exact .inl rfl
        | renamed => exact .inr ⟨c, rfl, rfl⟩
        | synced => exact .inr ⟨c, rfl, rfl⟩

theorem accepted_applyRepositoryCredential {ack : Accepted}
    (h : (applyRepositoryCredential lib identity message env file).1 = some ack) :
    ∃ c, admitted lib identity message file = some c ∧ env.write = .synced ∧
      (applyRepositoryCredential lib identity message env file).2 = some c ∧
      ack = ⟨c.deliveryID.text, c.revision⟩ := by
  unfold applyRepositoryCredential at h ⊢
  cases hc : admitted lib identity message file with
  | none => simp [hc] at h
  | some c =>
      simp only [hc] at h
      dsimp only
      split_ifs at h ⊢
      cases hw : env.write with
      | failed => simp [hw] at h
      | renamed => simp [hw] at h
      | synced =>
          simp only [hw, Option.some.injEq] at h
          exact ⟨c, rfl, rfl, rfl, h.symm⟩

/-- Without an acceptance the file stays, unless the write failed after its rename. -/
theorem file_of_refused (h : (applyRepositoryCredential lib identity message env file).1 = none)
    (hw : env.write ≠ .renamed) :
    (applyRepositoryCredential lib identity message env file).2 = file := by
  unfold applyRepositoryCredential at h ⊢
  cases hc : admitted lib identity message file with
  | none => rfl
  | some c =>
      simp only [hc] at h
      dsimp only
      split_ifs at h ⊢
      · rfl
      · cases hwrite : env.write with
        | failed => rfl
        | renamed => exact absurd hwrite hw
        | synced => simp [hwrite] at h

/-! ## Histories -/

/-- A stored credential stays, or a later one takes its place. -/
theorem later_run (lib : Library) (a : RepositoryCredential) (calls : List Call) :
    ∃ b, run lib (some a) calls = some b ∧ Later a b := by
  induction calls generalizing a with
  | nil => exact ⟨a, rfl, .refl a⟩
  | cons call rest ih =>
      show ∃ b, run lib (applyRepositoryCredential lib call.identity call.message call.env
        (some a)).2 rest = some b ∧ Later a b
      rcases file_after_call lib call (some a) with hfile | ⟨c, hc, hfile⟩
      · rw [hfile]
        exact ih a
      · rw [hfile]
        obtain ⟨b, hb, hlater⟩ := ih c
        exact ⟨b, hb, (of_admitted hc a rfl).trans hlater⟩

/-- Any two credentials of a history have the same bindings, and no revision decreases. Under one
Restic revision there is one password; under one Gateway revision there is one, which may only be
dropped for good. A message is accepted after its credential was synced; any other leaves the file as
it is, unless the write failed after its rename. -/
theorem credential_history (lib : Library) (file : Option RepositoryCredential)
    (before between after : List Call) (call : Call) :
    let first := run lib file before
    let second := run lib first between
    let third := run lib second after
    let x := applyRepositoryCredential lib call.identity call.message call.env third
    (∀ a, first = some a → ∃ b c, second = some b ∧ third = some c ∧ Later a b ∧
        (b.gatewayPassword = [] → c.gatewayRevision = b.gatewayRevision →
          c.gatewayPassword = [])) ∧
      (∀ ack, x.1 = some ack → ∃ c, admitted lib call.identity call.message third = some c ∧
        call.env.write = .synced ∧ x.2 = some c ∧ ack = ⟨c.deliveryID.text, c.revision⟩) ∧
      (admitted lib call.identity call.message third = none → x.1 = none ∧ x.2 = third) ∧
      (x.1 = none → call.env.write ≠ .renamed → x.2 = third) := by
  intro first second third x
  refine ⟨fun a ha => ?_, fun ack hack => accepted_applyRepositoryCredential hack,
    fun hnone => ?_, file_of_refused⟩
  · obtain ⟨b, hb, hab⟩ := later_run lib a between
    obtain ⟨c, hc, hbc⟩ := later_run lib b after
    have hsecond : second = some b := by
      show run lib first between = some b
      rw [ha, hb]
    have hthird : third = some c := by
      show run lib second after = some c
      rw [hsecond, hc]
    refine ⟨b, c, hsecond, hthird, hab, fun hempty hsame => ?_⟩
    exact (hbc.gatewayPassword hsame).elim (·.trans hempty) id
  · show (applyRepositoryCredential _ _ _ _ _).1 = none ∧
      (applyRepositoryCredential _ _ _ _ _).2 = third
    rw [applyRepositoryCredential, hnone]
    exact ⟨rfl, rfl⟩

/-! ### A password that is dropped -/

/-- Every bundle is one certificate, and every origin is that of the sample. -/
def sampleLibrary : Library where
  parseURL := fun origin => some ⟨"https".toList, "gw".toList, "gw".toList, [], false, [], [], [],
    false, [], [], [], origin⟩
  trimSpace := id
  decodePEM := fun _ => some (⟨"CERTIFICATE".toList, [], []⟩, [])
  parseCertificate := fun _ => some ⟨true, true⟩

def sampleUUID (n : ℕ) : UUID := 0x01890000000070008000000000000000 + BitVec.ofNat 128 n

def sampleMessage (gatewayPassword : Bytes) : CredentialRevision where
  deliveryID := (sampleUUID 1).text
  agentID := (sampleUUID 2).text
  hostID := (sampleUUID 3).text
  repositoryID := (sampleUUID 4).text
  gatewayID := (sampleUUID 5).text
  revision := 1
  gatewayRevision := 1
  resticRevision := 1
  endpoint := "https://gw/restic/".toList ++ (sampleUUID 5).text ++ "/".toList ++
    (sampleUUID 4).text ++ "/".toList
  caBundlePEM := certificateHeader
  gatewayPassword := gatewayPassword
  resticPassword := List.replicate 43 65
  validFrom := some 1

def sampleCall (gatewayPassword : Bytes) : Call :=
  ⟨⟨sampleUUID 2, sampleUUID 3⟩, some (sampleMessage gatewayPassword), ⟨true, true, .synced⟩⟩

/-- A credential with the password of the Gateway, and then the same without it. -/
theorem credential_history_dropped :
    ((run sampleLibrary none [sampleCall (List.replicate 43 81)]).bind fun a =>
        (run sampleLibrary (some a) [sampleCall []]).map fun b =>
          decide (b = { a with gatewayPassword := [] } ∧ b ≠ a)) = some true ∧
      ∀ a, run sampleLibrary none [sampleCall (List.replicate 43 81)] = some a →
        ∃ b, run sampleLibrary (run sampleLibrary none [sampleCall (List.replicate 43 81)])
          [sampleCall []] = some b ∧ Later a b := by
  refine ⟨by decide +kernel, fun a ha => ?_⟩
  obtain ⟨b, -, hb, -, hlater, -⟩ := (credential_history sampleLibrary none
    [sampleCall (List.replicate 43 81)] [sampleCall []] [] (sampleCall [])).1 a ha
  exact ⟨b, hb, hlater⟩

end RestFleet.Agent.Credential
