import Mathlib.Algebra.BigOperators.Group.List.Basic
import RestFleet.Verification.Domain.Codec

/-! # From publication to the Agent -/

namespace RestFleet.Domain

/-! ## The size of an execution -/

theorem byteLength_le (s : Text) : s.byteLength ≤ 4 * s.length := by
  induction s with
  | nil => simp [Text.byteLength]
  | cons c rest ih =>
      have hc := c.utf8Size_le_four
      simp only [Text.byteLength, List.map_cons, List.sum_cons, List.length_cons] at *
      omega

theorem length_digits {n : ℤ} (hl : 0 ≤ n) (hh : n < 10 ^ 10) : (Json.digits n).length ≤ 10 := by
  rw [Json.digits, if_neg (by omega)]
  refine (Nat.length_toDigits_le_iff (by omega) (by omega)).mpr ?_
  omega

theorem length_render_uuid (i : UUID) : (Json.render (encodeUUID i)).length = 38 := by
  have hplain : ∀ c ∈ i.text, (Json.escape c).length = 1 := i.forall_mem_text (by decide) (by decide)
  have hlen : i.text.length = 36 := rfl
  have hflat : (i.text.flatMap Json.escape).length = 36 := by
    rw [List.length_flatMap, List.map_congr_left hplain]
    simp [hlen]
  simp [encodeUUID, Json.render, Json.quote, hflat]

theorem length_render_hooks {ids : Slice UUID} (h : ids.items.length ≤ 16) :
    (Json.render (Json.encodeSlice encodeUUID ids)).length ≤ 625 := by
  cases ids with
  | none => simp [Json.encodeSlice, Json.render]
  | some ids =>
      have hsum : ((ids.map encodeUUID).map fun j => (Json.render j).length).sum = ids.length * 38 := by
        rw [List.map_map]
        have hconst : ((fun j => (Json.render j).length) ∘ encodeUUID) = fun _ : UUID => 38 :=
          funext length_render_uuid
        simp [hconst]
      have hle : ids.length ≤ 16 := h
      rw [Json.encodeSlice, Json.length_render_arr, hsum, List.length_map]
      omega

theorem memberLength_int {name : Text} {n : ℤ} {k : ℕ} (hk : (Json.quote name).length ≤ k)
    (hl : 0 ≤ n) (hh : n < 10 ^ 10) : Json.memberLength (name, .int n) ≤ k + 11 := by
  have hd := length_digits hl hh
  simp only [Json.memberLength, Json.render]
  omega

theorem length_render_retryPolicy {p : BackupRetryPolicy} (hp : p.validate = .ok ()) :
    (Json.render p.encode).length ≤ 120 := by
  unfold BackupRetryPolicy.validate at hp
  extract_lets at hp
  obtain ⟨hrange, -⟩ := guard_ok.mp hp
  simp only [Bool.or_eq_true, decide_eq_true_eq, not_or, not_lt] at hrange
  have hsparse := Json.length_render_sparse p.members
  have h₁ : Json.memberLength ("initial_backoff_seconds".toList, .int p.initialBackoffSeconds) ≤ 36 :=
    memberLength_int (k := 25) (by decide) (by omega) (by omega)
  have h₂ : Json.memberLength ("max_attempts".toList, .int p.maxAttempts) ≤ 36 :=
    memberLength_int (k := 25) (by decide) (by omega) (by omega)
  have h₃ : Json.memberLength ("max_backoff_seconds".toList, .int p.maxBackoffSeconds) ≤ 36 :=
    memberLength_int (k := 25) (by decide) (by omega) (by omega)
  simp only [BackupRetryPolicy.members, List.map_cons, List.map_nil, List.sum_cons, List.sum_nil,
    List.length_cons, List.length_nil] at hsparse
  refine Nat.le_trans hsparse ?_
  omega

theorem length_render_resourceLimits {p : BackupResourceLimits} (hp : p.validate = .ok ()) :
    (Json.render p.encode).length ≤ 160 := by
  have hrange := last_guard_ok.mp hp
  simp only [Bool.or_eq_true, decide_eq_true_eq, not_or, not_lt] at hrange
  have hsparse := Json.length_render_sparse p.members
  have h₁ : Json.memberLength ("limit_download_kib".toList, .int p.limitDownloadKiB) ≤ 36 :=
    memberLength_int (k := 25) (by decide) (by omega) (by omega)
  have h₂ : Json.memberLength ("limit_upload_kib".toList, .int p.limitUploadKiB) ≤ 36 :=
    memberLength_int (k := 25) (by decide) (by omega) (by omega)
  have h₃ : Json.memberLength ("max_duration_seconds".toList, .int p.maxDurationSeconds) ≤ 36 :=
    memberLength_int (k := 25) (by decide) (by omega) (by omega)
  have h₄ : Json.memberLength ("read_concurrency".toList, .int p.readConcurrency) ≤ 36 :=
    memberLength_int (k := 25) (by decide) (by omega) (by omega)
  simp only [BackupResourceLimits.members, List.map_cons, List.map_nil, List.sum_cons,
    List.sum_nil, List.length_cons, List.length_nil] at hsparse
  refine Nat.le_trans hsparse ?_
  omega

theorem length_render_pointer {α : Type} {encode : α → Json} {pointer : Option α} {k : ℕ}
    (hk : 4 ≤ k) (h : ∀ a, pointer = some a → (Json.render (encode a)).length ≤ k) :
    (Json.render (Json.encodePointer encode pointer)).length ≤ k := by
  cases pointer with
  | none => exact hk
  | some a => exact h a rfl

theorem hooks_of_validate {ids : Slice UUID} (h : validateHooks ids = .ok ()) :
    ids.items.length ≤ 16 := by
  unfold validateHooks at h
  extract_lets at h
  obtain ⟨hlen, -⟩ := guard_ok.mp h
  simp only [Bool.or_eq_true, decide_eq_true_eq, not_or, not_lt] at hlen
  exact hlen.1

/-- A valid execution is far below the limit. -/
theorem not_oversized {e : BackupExecution} (he : e.validate = .ok ()) :
    oversized e.encode = false := by
  obtain ⟨hretry, hlimits, hpre, hpost⟩ := BackupExecution.validate_ok.mp he
  have h₁ : (Json.render (Json.encodePointer BackupRetryPolicy.encode e.retryPolicy)).length ≤ 120 :=
    length_render_pointer (by omega) fun p hp => length_render_retryPolicy (hretry p hp)
  have h₂ : (Json.render (Json.encodePointer BackupResourceLimits.encode e.resourceLimits)).length
      ≤ 160 :=
    length_render_pointer (by omega) fun p hp => length_render_resourceLimits (hlimits p hp)
  have h₃ := length_render_hooks (hooks_of_validate hpre)
  have h₄ := length_render_hooks (hooks_of_validate hpost)
  have hquote : (Json.quote "retry_policy".toList).length = 14 ∧
      (Json.quote "resource_limits".toList).length = 17 ∧
      (Json.quote "pre_hook_ids".toList).length = 14 ∧
      (Json.quote "post_hook_ids".toList).length = 15 := by decide
  have hsparse := Json.length_render_sparse e.members
  simp only [BackupExecution.members, List.map_cons, List.map_nil, List.sum_cons,
    List.sum_nil, List.length_cons, List.length_nil, Json.memberLength] at hsparse
  have hbytes := byteLength_le (Json.render e.encode)
  have htotal : (Json.render e.encode).length ≤ 2000 := Nat.le_trans hsparse (by omega)
  refine decide_eq_false ?_
  rw [executionLimit]
  omega

/-! ## The state that is read back -/

/-- A published state as the column gives it back. -/
def DesiredState.reloaded (s : DesiredState) : DesiredState :=
  { s with plans := (sortPlans s.plans).map PlanSchedule.normal }

variable {zones : Zones} {digest : Digest} {s : DesiredState} {p : PlanSchedule}

/-- Plans that are encoded alike and sorted alike have the same canonical JSON. -/
theorem canonicalJSON_map {f : PlanSchedule → PlanSchedule}
    (hf : ∀ p, (f p).planID = p.planID ∧ (f p).revision = p.revision) (s : DesiredState) :
    ({ s with plans := (sortPlans s.plans).map f } : DesiredState).canonicalJSON =
      Json.render (.obj [("plans".toList, .arr ((sortPlans s.plans).map fun p => (f p).encode)),
        ("repositories".toList, .arr []), ("runtime_policy".toList, s.runtimePolicy.encode)]) := by
  simp only [DesiredState.canonicalJSON, DesiredState.encode, DesiredState.members]
  rw [sortPlans_map hf, sortPlans_sortPlans, List.map_map]
  rfl

theorem canonicalJSON_reloaded (s : DesiredState) : s.reloaded.canonicalJSON = s.canonicalJSON := by
  rw [DesiredState.reloaded, canonicalJSON_map (f := PlanSchedule.normal) fun p => ⟨rfl, rfl⟩]
  simp only [PlanSchedule.encode_normal]
  rfl

theorem validate_reloaded (hs : s.validate digest zones = .ok ()) :
    s.reloaded.validate digest zones = .ok () := by
  rw [DesiredState.validate_ok] at *
  obtain ⟨hagent, hrev, hat, hjobs, hlog, hplans, hhash⟩ := hs
  have hexpected : s.reloaded.expectedHash digest = s.expectedHash digest :=
    congrArg (fun text => "sha256:".toList ++ digest text) (canonicalJSON_reloaded s)
  refine ⟨hagent, hrev, hat, hjobs, hlog, ?_, hhash.trans hexpected.symm⟩
  intro q hq
  obtain ⟨p, hp, rfl⟩ := List.mem_map.mp hq
  exact PlanSchedule.validate_normal (hplans p ((List.mem_insertionSort _).mp hp))

theorem load_same {j : Json} (hs : s.validate digest zones = .ok ())
    (hrev : ∀ p ∈ s.plans, p.revision ≤ 2 ^ 63 - 1) (h : Json.Same s.encode j) :
    DesiredStateRow.load digest zones ⟨s.agentID, s.revision, s.generatedAt, s.configHash, j⟩ =
      some s.reloaded := by
  have hdecoded := decodeState_same hs hrev h
  have hvalid := validate_reloaded hs
  rw [DesiredState.reloaded] at hvalid
  simp only [DesiredStateRow.load, hdecoded, Option.bind_eq_bind, Option.bind_some, hvalid]
  rfl

/-! ## The message -/

/-- A plan as the Agent decodes it: a repeated field has no empty list. -/
def PlanSchedule.received (p : PlanSchedule) : PlanSchedule :=
  { p with
    paths := repeatedField p.paths.items
    excludePatterns := repeatedField p.excludePatterns.items }

theorem decodeExecution_encode {e : BackupExecution} (he : e.validate = .ok ()) :
    decodeExecution (some e.encode) = .ok (some e.normal) := by
  have hdec := BackupExecution.decode_same true he (Json.Same.refl _)
  have hvalid := BackupExecution.validate_normal he
  obtain ⟨ms, hms⟩ := e.encode_obj
  have hsize := not_oversized he
  rw [hms] at hdec hsize ⊢
  simp [decodeExecution, hsize, Json.decodePointer, hdec, hvalid]

theorem toInt32_of_range {n : ℤ} (hl : 0 ≤ n) (hh : n ≤ 86400) : toInt32 n = n := by
  exact Int.bmod_eq_of_le_mul_two (by omega) (by omega)

theorem schedule_message (hp : p.validate zones = .ok ()) :
    p.message.schedule = .ok p.normal.received := by
  obtain ⟨-, -, -, -, -, hjitter, hmisfire, -, -, -, -, hvalid⟩ := PlanSchedule.validate_ok.mp hp
  have hj : toInt32 p.jitterSeconds = p.jitterSeconds := toInt32_of_range (by omega) (by omega)
  have hm : toInt32 p.misfireGraceSeconds = p.misfireGraceSeconds :=
    toInt32_of_range (by omega) (by omega)
  have hexec : decodeExecution (p.execution.map BackupExecution.encode) =
      .ok (p.execution.map BackupExecution.normal) := by
    cases he : p.execution with
    | none => rfl
    | some e =>
        rw [he] at hvalid
        exact decodeExecution_encode hvalid
  simp only [PlanMessage.schedule, PlanSchedule.message, UUID.parse_text, hexec, hj, hm]
  rfl

/-- The state that the Agent decodes, before it validates it. -/
def DesiredState.received (s : DesiredState) : DesiredState :=
  { s with plans := (sortPlans s.plans).map fun p => p.normal.normal.received }

theorem state_message {plans : List PlanSchedule}
    (h : ∀ p ∈ plans, p.validate zones = .ok ()) :
    (plans.map PlanSchedule.message).mapM PlanMessage.schedule =
      .ok (plans.map fun p => p.normal.received) := by
  induction plans with
  | nil => rfl
  | cons p rest ih =>
      have hp := schedule_message (h p List.mem_cons_self)
      have hrest := ih fun q hq => h q (List.mem_cons_of_mem p hq)
      simp [List.mapM_cons, hp, hrest, bind, Except.bind, pure, Except.pure]

theorem sent_capable (hs : s.validate digest zones = .ok ()) :
    ∃ snapshot, sendDesiredState true s = .sent snapshot := by
  obtain ⟨-, -, -, -, -, hplans, -⟩ := DesiredState.validate_ok.mp hs
  have hnone : s.plans.find? (fun p => p.execution.any fun e => !true || oversized e.encode) =
      none := by
    rw [List.find?_eq_none]
    intro p hp hany
    obtain ⟨e, he, hover⟩ := (Option.any_eq_true _ _).mp hany
    obtain ⟨-, -, -, -, -, -, -, -, -, -, -, hvalid⟩ := PlanSchedule.validate_ok.mp (hplans p hp)
    rw [he] at hvalid
    rw [not_oversized hvalid] at hover
    cases hover
  rw [sendDesiredState, hnone]
  exact ⟨_, rfl⟩

/-- What the Agent makes of a state that was read back and sent. -/
theorem state_of_sent {capable : Bool} {snapshot : Snapshot} (hs : s.validate digest zones = .ok ())
    (hsent : sendDesiredState capable s.reloaded = .sent snapshot) :
    snapshot.state s.agentID =
      if timestampValid s.generatedAt then .ok s.received
      else .error ⟨"SNAPSHOT_INVALID".toList, []⟩ := by
  obtain ⟨-, -, -, -, -, hplans, -⟩ := DesiredState.validate_ok.mp (validate_reloaded hs)
  have hmessages := state_message hplans
  have hreceived : (s.reloaded.plans.map fun p => p.normal.received) = s.received.plans := by
    simp only [DesiredState.reloaded, DesiredState.received, List.map_map]
    rfl
  unfold sendDesiredState at hsent
  split at hsent
  · split at hsent
    · cases hsent
    · cases hsent
  · cases hsent
    rw [hreceived] at hmessages
    cases ht : timestampValid s.generatedAt with
    | false => simp [Snapshot.state, DesiredState.reloaded, ht, throw, throwThe, MonadExceptOf.throw, bind, Except.bind]
    | true =>
        have ht' : timestampValid s.reloaded.generatedAt = true := ht
        simp only [Snapshot.state, ht', hmessages]
        rfl

/-! ## The canonical JSON that the Agent recomputes -/

namespace PlanSchedule

theorem encode_received_normal (p : PlanSchedule) : p.normal.received.encode = p.received.encode :=
  encode_normal p.received

theorem paths_received (hpaths : p.paths.items ≠ []) : repeatedField p.paths.items = p.paths := by
  cases hp : p.paths with
  | none => simp [hp, Slice.items] at hpaths
  | some xs =>
      cases xs with
      | nil => simp [hp, Slice.items] at hpaths
      | cons x rest => rfl

theorem received_eq (hpaths : p.paths.items ≠ []) (hpatterns : p.excludePatterns ≠ some []) :
    p.received = p := by
  have hrepeated : repeatedField p.excludePatterns.items = p.excludePatterns := by
    match hp : p.excludePatterns with
    | none => rfl
    | some [] => exact absurd hp hpatterns
    | some (x :: rest) => rfl
  rw [received, paths_received hpaths, hrepeated]

/-- An empty list of patterns costs two characters as a nil one. -/
theorem length_received (hpaths : p.paths.items ≠ []) :
    (Json.render p.received.encode).length =
      (Json.render p.encode).length + if p.excludePatterns = some [] then 2 else 0 := by
  by_cases hpatterns : p.excludePatterns = some []
  · rw [if_pos hpatterns]
    have hlen : ∀ ms : List (Text × Json), (Json.render (.obj ms)).length =
        (ms.map Json.memberLength).sum + (ms.length - 1) + 2 := Json.length_render_obj
    rw [received, paths_received hpaths, hpatterns]
    simp only [encode, members, hlen, fixedMembers, List.map_append, List.sum_append, List.map_cons,
      List.sum_cons, List.length_append, List.length_cons, hpatterns]
    have hnull : Json.memberLength ("exclude_patterns".toList,
        Json.encodeSlice .str (repeatedField (Slice.items (some [])))) = 23 := by decide
    have hempty : Json.memberLength ("exclude_patterns".toList,
        Json.encodeSlice .str (some [])) = 21 := by decide
    rw [hnull, hempty]
    omega
  · rw [if_neg hpatterns, received_eq hpaths hpatterns]
    rfl

end PlanSchedule

/-- The sizes of the plans determine the size of the canonical JSON. -/
theorem sum_of_render_eq {f g : PlanSchedule → Json} {plans : List PlanSchedule} {policy : Json}
    (h : Json.render (.obj [("plans".toList, .arr (plans.map f)), ("repositories".toList, .arr []),
        ("runtime_policy".toList, policy)]) =
      Json.render (.obj [("plans".toList, .arr (plans.map g)), ("repositories".toList, .arr []),
        ("runtime_policy".toList, policy)])) :
    (plans.map fun p => (Json.render (f p)).length).sum =
      (plans.map fun p => (Json.render (g p)).length).sum := by
  have hlen := congrArg List.length h
  simp only [Json.length_render_obj, Json.memberLength, Json.length_render_arr, List.map_cons,
    List.map_nil, List.sum_cons, List.sum_nil, List.map_map, List.length_map, List.length_cons,
    List.length_nil] at hlen
  have hf : (plans.map ((fun j => (Json.render j).length) ∘ f)) =
      plans.map fun p => (Json.render (f p)).length := rfl
  have hg : (plans.map ((fun j => (Json.render j).length) ∘ g)) =
      plans.map fun p => (Json.render (g p)).length := rfl
  rw [hf, hg] at hlen
  omega

theorem canonicalJSON_received_iff (hs : s.validate digest zones = .ok ()) :
    s.received.canonicalJSON = s.canonicalJSON ↔ ∀ p ∈ s.plans, p.excludePatterns ≠ some [] := by
  obtain ⟨-, -, -, -, -, hplans, -⟩ := DesiredState.validate_ok.mp hs
  have hpaths : ∀ p ∈ sortPlans s.plans, p.paths.items ≠ [] := by
    intro p hp
    obtain ⟨-, -, -, -, h, -⟩ :=
      PlanSchedule.validate_ok.mp (hplans p ((List.mem_insertionSort _).mp hp))
    exact h
  rw [DesiredState.received,
    canonicalJSON_map (f := fun p => p.normal.normal.received) fun p => ⟨rfl, rfl⟩]
  simp only [PlanSchedule.encode_received_normal]
  change Json.render _ = Json.render (.obj s.members) ↔ _
  rw [DesiredState.members]
  constructor
  · intro h p hp hempty
    have hmem : p ∈ sortPlans s.plans := (List.mem_insertionSort _).mpr hp
    have hsum := sum_of_render_eq h
    rw [List.map_congr_left fun q hq => PlanSchedule.length_received (hpaths q hq),
      List.sum_map_add] at hsum
    have hzero : ((sortPlans s.plans).map fun q =>
        if q.excludePatterns = some [] then 2 else 0).sum = 0 := by omega
    have hp := List.sum_eq_zero_iff_forall_eq_nat.mp hzero _ (List.mem_map_of_mem hmem)
    rw [if_pos hempty] at hp
    cases hp
  · intro h
    rw [List.map_congr_left fun p hp => by
      rw [PlanSchedule.received_eq (hpaths p hp) (h p ((List.mem_insertionSort _).mp hp))]]

theorem validate_received (hs : s.validate digest zones = .ok ())
    (h : ∀ p ∈ s.plans, p.excludePatterns ≠ some []) : s.received.validate digest zones = .ok () := by
  have hcanonical := (canonicalJSON_received_iff hs).mpr h
  rw [DesiredState.validate_ok] at *
  obtain ⟨hagent, hrev, hat, hjobs, hlog, hplans, hhash⟩ := hs
  have hexpected : s.received.expectedHash digest = s.expectedHash digest :=
    congrArg (fun text => "sha256:".toList ++ digest text) hcanonical
  refine ⟨hagent, hrev, hat, hjobs, hlog, ?_, hhash.trans hexpected.symm⟩
  intro q hq
  obtain ⟨p, hp, rfl⟩ := List.mem_map.mp hq
  have hmem : p ∈ s.plans := (List.mem_insertionSort _).mp hp
  have hnormal := PlanSchedule.validate_normal (PlanSchedule.validate_normal (hplans p hmem))
  obtain ⟨-, -, -, -, hpaths, -⟩ := PlanSchedule.validate_ok.mp hnormal
  rw [PlanSchedule.received_eq hpaths (h p hmem)]
  exact hnormal

end RestFleet.Domain
