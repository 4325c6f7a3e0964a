import RestFleet.Verification.Catalog.Overwrites
import RestFleet.Verification.Domain.Delivery

/-! # Published states reach their Agent -/

namespace RestFleet.Catalog

open Domain

variable {site : Site} {agentID : UUID} {revision : ℤ} {policy : RuntimePolicy} {now : Stamp}
  {plans : List Plan} {row : DesiredStateRow}

theorem publishRow_eq_ok (h : publishRow site agentID revision policy now plans = .ok row) :
    (publishedState site.digest agentID revision policy now plans).validate site.digest site.zones =
        .ok () ∧
      row = stateRow (publishedState site.digest agentID revision policy now plans) := by
  unfold publishRow at h
  extract_lets state at h
  cases hs : state.validate site.digest site.zones with
  | error e =>
      rw [hs] at h
      cases h
  | ok u =>
      rw [hs] at h
      cases h
      exact ⟨rfl, rfl⟩

/-- A state that was published, stored and sent reaches the Agent with the canonical JSON of its
hash exactly when no plan has an empty list of exclude patterns and the time of publication can be
sent. An Agent with the capability is always sent the state. -/
theorem published_state_delivered_iff
    (hpublished : publishRow site agentID revision policy now plans = .ok row)
    (hint : ∀ p ∈ plans, p.desiredRevision ≤ 2 ^ 63 - 1) {stored : Json}
    (hstored : Json.Same row.configJSON stored) :
    ∃ state, ({ row with configJSON := stored } : DesiredStateRow).load site.digest site.zones =
        some state ∧
      (∃ snapshot, sendDesiredState true state = .sent snapshot) ∧
      ∀ capable snapshot, sendDesiredState capable state = .sent snapshot →
        ((∃ received, snapshot.state agentID = .ok received ∧ received.canonicalJSON =
            (publishedState site.digest agentID revision policy now plans).canonicalJSON) ↔
          timestampValid now = true ∧ ∀ p ∈ plans, p.effectiveConfig.excludePatterns ≠ some []) ∧
        (timestampValid now = true →
          (∀ p ∈ plans, p.effectiveConfig.excludePatterns ≠ some []) →
          ∃ received, desiredStateFromProto site.digest site.zones agentID snapshot = .ok received ∧
            received.configHash = row.configHash) := by
  obtain ⟨hvalid, rfl⟩ := publishRow_eq_ok hpublished
  have hplans : ∀ q ∈ (publishedState site.digest agentID revision policy now plans).plans,
      ∃ p ∈ plans, p.schedule = q := fun q hq => List.mem_map.mp hq
  have hcond : (∀ q ∈ (publishedState site.digest agentID revision policy now plans).plans,
      q.excludePatterns ≠ some []) ↔ ∀ p ∈ plans, p.effectiveConfig.excludePatterns ≠ some [] :=
    List.forall_mem_map
  refine ⟨_, load_same hvalid ?_ hstored, sent_capable (validate_reloaded hvalid), ?_⟩
  · intro q hq
    obtain ⟨p, hp, rfl⟩ := hplans q hq
    exact hint p hp
  intro capable snapshot hsent
  have hstate : snapshot.state agentID = if timestampValid now then
      .ok (publishedState site.digest agentID revision policy now plans).received
      else .error ⟨"SNAPSHOT_INVALID".toList, []⟩ := state_of_sent hvalid hsent
  refine ⟨⟨?_, ?_⟩, ?_⟩
  · rintro ⟨received, hr, hcanonical⟩
    rw [hstate] at hr
    split at hr
    · rename_i ht
      cases hr
      exact ⟨ht, hcond.mp ((canonicalJSON_received_iff hvalid).mp hcanonical)⟩
    · cases hr
  · rintro ⟨ht, h⟩
    rw [hstate, if_pos ht]
    exact ⟨_, rfl, (canonicalJSON_received_iff hvalid).mpr (hcond.mpr h)⟩
  · intro ht h
    have hreceived := validate_received hvalid (hcond.mpr h)
    rw [if_pos ht] at hstate
    refine ⟨(publishedState site.digest agentID revision policy now plans).received, ?_, rfl⟩
    rw [desiredStateFromProto, hstate]
    change (DesiredState.validate _ _ _ >>= fun _ => pure _) = _
    rw [hreceived]
    rfl

def sampleRow : Plan :=
  { id := sampleID 5, name := "nightly".toList, hostID := sampleID 2, agentID := sampleID 1
    repositoryID := sampleID 3, templateID := sampleID 4, templateRevision := 1
    overrides := .obj [], effectiveConfig := sampleConfig
    configHash := sampleConfig.configHash sampleDigest, status := .active, desiredRevision := 1
    archivedAt := none, createdAt := 1, updatedAt := 1 }

theorem published_state_delivered_iff_sample :
    ∃ row state snapshot received,
      publishRow sampleSite (sampleID 1) 2 ⟨1, defaultLogLimitBytes⟩ 5 [sampleRow] = .ok row ∧
      row.load sampleSite.digest sampleSite.zones = some state ∧
      sendDesiredState true state = .sent snapshot ∧
      desiredStateFromProto sampleSite.digest sampleSite.zones (sampleID 1) snapshot =
        .ok received ∧ received.configHash = row.configHash := by
  have hok : (publishRow sampleSite (sampleID 1) 2 ⟨1, defaultLogLimitBytes⟩ 5
      [sampleRow]).isOk = true := by
    decide +kernel
  cases hrow : publishRow sampleSite (sampleID 1) 2 ⟨1, defaultLogLimitBytes⟩ 5 [sampleRow] with
  | error e =>
      rw [hrow] at hok
      cases hok
  | ok row =>
      obtain ⟨state, hload, ⟨snapshot, hsent⟩, hall⟩ :=
        published_state_delivered_iff hrow (by decide) (Json.Same.refl _)
      obtain ⟨received, hreceived, hhash⟩ := (hall true snapshot hsent).2 (by decide) (by decide)
      exact ⟨row, state, snapshot, received, rfl, hload, hsent, hreceived, hhash⟩

/-! ### A plan with an empty list of exclude patterns -/

def emptyPatterns : List Move :=
  sampleOpening ++
    [.call 3 (.createPlan sampleAdmin
        { samplePlan "old" with overrides := .value (.obj [("exclude_patterns".toList, .arr [])]) }),
      .go 3 50 planDraw 4,
      .call 4 (.applyPlan sampleAdmin (sampleID 5) 1),
      .go 4 50 spareDraw 5]

def refused (site : Site) (row : DesiredStateRow) : Bool :=
  match row.load site.digest site.zones with
  | none => false
  | some state =>
    match sendDesiredState true state with
    | .sent snapshot => decide (desiredStateFromProto site.digest site.zones row.agentID snapshot =
        .error ⟨"CONFIG_HASH_MISMATCH".toList, "config_hash".toList⟩)
    | _ => false

theorem refused_spec (h : refused site row = true) :
    ∃ state snapshot, row.load site.digest site.zones = some state ∧
      sendDesiredState true state = .sent snapshot ∧
      desiredStateFromProto site.digest site.zones row.agentID snapshot =
        .error ⟨"CONFIG_HASH_MISMATCH".toList, "config_hash".toList⟩ := by
  unfold refused at h
  split at h
  · cases h
  · rename_i state hload
    split at h
    · rename_i snapshot hsent
      exact ⟨state, snapshot, hload, hsent, of_decide_eq_true h⟩
    · cases h

/-- A run commits a state that its Agent refuses. -/
theorem published_state_refused :
    ∃ (start : Database) (c : Config (Tx.State schema) ℕ (Tx.Op schema) (Tx.Reply schema)),
      start.Fresh ∧ (server sampleSite).Reachable (Tx.State.initial start) c ∧
      ∃ row state snapshot, c.state.db.states.row (sampleID 1, 3) = some row ∧
        row.load sampleSite.digest sampleSite.zones = some state ∧
        sendDesiredState true state = .sent snapshot ∧
        desiredStateFromProto sampleSite.digest sampleSite.zones row.agentID snapshot =
          .error ⟨"CONFIG_HASH_MISMATCH".toList, "config_hash".toList⟩ := by
  have hplay : (play sampleSite sampleStart emptyPatterns).any (fun m : Tx.Machine schema =>
      (m.db.states.row (sampleID 1, 3)).any (refused sampleSite)) = true := by
    decide +kernel
  obtain ⟨m, hm, hany⟩ := (Option.any_eq_true _ _).mp hplay
  obtain ⟨row, hrow, hrefused⟩ := (Option.any_eq_true _ _).mp hany
  obtain ⟨state, snapshot, hrest⟩ := refused_spec hrefused
  exact ⟨sampleStart, ⟨m.state, m.threads⟩, sampleStart_fresh, reachable_of_play hm, row, state,
    snapshot, hrow, hrest⟩

end RestFleet.Catalog
