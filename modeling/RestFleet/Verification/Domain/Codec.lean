import Mathlib.Data.Char
import Mathlib.Data.List.Lex
import Mathlib.Data.Prod.Lex
import RestFleet.Verification.Domain.Validation

/-! # Records read back from a JSON column

The column does not keep the order of members, and an empty list of hooks is omitted like a nil one. -/

namespace RestFleet.Domain

/-- A slice as it is read back from a member that is omitted when empty. -/
def Slice.normal {α : Type} (s : Slice α) : Slice α := repeatedField s.items

def BackupExecution.normal (e : BackupExecution) : BackupExecution :=
  { e with preHookIDs := Slice.normal e.preHookIDs, postHookIDs := Slice.normal e.postHookIDs }

def PlanSchedule.normal (p : PlanSchedule) : PlanSchedule :=
  { p with execution := p.execution.map BackupExecution.normal }

section Fields

variable {members stored : List (Text × Json)} {name : Text}

theorem isEmpty_int {n : ℤ} : (Json.int n).isEmpty = true ↔ n = 0 := by
  match n with
  | .ofNat 0 => exact ⟨fun _ => rfl, fun _ => rfl⟩
  | .ofNat (_ + 1) => exact ⟨nofun, nofun⟩
  | .negSucc _ => exact ⟨nofun, nofun⟩

theorem field_int {n : ℤ} (h : Json.Carries (Json.sparse members) stored)
    (hd : Json.Distinct members) (hm : (name, .int n) ∈ members) (hl : -(2 ^ 63) ≤ n)
    (hh : n ≤ 2 ^ 63 - 1) : Json.field name decodeInt 0 stored = some n :=
  h.field_sparse hd hm (fun he => isEmpty_int.mp he)
    fun _ _ hsame => Json.decodeInt_same hl hh hsame

theorem decodeUUID_same {i x : UUID} {j : Json} (h : Json.Same (encodeUUID i) j) :
    decodeUUID x j = some i :=
  Json.decodeText_same (UUID.parse_text i) h

theorem decodeUUIDs_same {ids x : Slice UUID} {j : Json}
    (h : Json.Same (Json.encodeSlice encodeUUID ids) j) : decodeUUIDs x j = some ids := by
  have hdec : decodeUUIDs x j = some (ids.map (List.map fun i => i)) :=
    Json.decodeSlice_same (fun _ _ _ _ _ hj => decodeUUID_same hj) h
  simpa using hdec

theorem decodeTexts_same {texts x : Slice Text} {j : Json}
    (h : Json.Same (Json.encodeSlice .str texts) j) : decodeTexts x j = some texts := by
  have hdec : decodeTexts x j = some (texts.map (List.map fun text => text)) :=
    Json.decodeSlice_same (fun _ _ _ _ _ hj => Json.decodeStr_same hj) h
  simpa using hdec

/-- Hooks are read back as nil when there are none. -/
theorem field_hooks {ids : Slice UUID} (h : Json.Carries (Json.sparse members) stored)
    (hd : Json.Distinct members) (hm : (name, Json.encodeSlice encodeUUID ids) ∈ members) :
    Json.field name decodeUUIDs none stored = some (Slice.normal ids) := by
  refine h.field_sparse hd hm ?_ ?_
  · intro he
    match ids with
    | none => rfl
    | some [] => rfl
    | some (_ :: _) => simp [Json.encodeSlice, Json.isEmpty] at he
  · intro he j hsame
    rw [decodeUUIDs_same hsame]
    match ids with
    | none => simp [Json.encodeSlice, Json.isEmpty] at he
    | some [] => simp [Json.encodeSlice, Json.isEmpty] at he
    | some (_ :: _) => rfl

theorem field_pointer {α : Type} {zero : α} {encode : α → Json} {decode : α → Json → Option α}
    {normal : α → α} {pointer : Option α} (h : Json.Carries (Json.sparse members) stored)
    (hd : Json.Distinct members) (hm : (name, Json.encodePointer encode pointer) ∈ members)
    (hobj : ∀ a, ∃ ms, encode a = .obj ms)
    (hdec : ∀ a, pointer = some a → ∀ j, Json.Same (encode a) j → decode zero j = some (normal a)) :
    Json.field name (Json.decodePointer zero decode) none stored = some (pointer.map normal) := by
  cases pointer with
  | none =>
      refine h.field_sparse hd hm (fun _ => rfl) ?_
      intro he
      simp [Json.encodePointer, Json.isEmpty] at he
  | some a =>
      obtain ⟨ms, hms⟩ := hobj a
      refine h.field_sparse hd hm ?_ ?_
      · intro he
        simp [Json.encodePointer, hms, Json.isEmpty] at he
      · intro _ j hsame
        have ha := hdec a rfl j hsame
        rw [Json.encodePointer, hms] at hsame
        obtain ⟨ms', rfl, -⟩ := hsame.of_obj
        simp [Json.decodePointer, ha]

/-- A decoder that refuses unknown fields accepts what was encoded. -/
theorem objectOf_carries (strict : Bool) (h : Json.Carries (Json.sparse members) stored)
    {names : List Text} (hn : members.map Prod.fst = names) :
    objectOf strict names (.obj stored) = some stored := by
  have hall : stored.all (fun m => names.any fun name => Json.sameKey name m.1) = true := by
    rw [List.all_eq_true]
    intro m hm
    have hkey : m.1 ∈ (Json.sparse members).map Prod.fst :=
      h.keys.mem_iff.mp (List.mem_map_of_mem hm)
    have hname : m.1 ∈ names := by
      rw [← hn]
      exact (List.filter_sublist.map Prod.fst).subset hkey
    exact List.any_eq_true.mpr ⟨m.1, hname, by simp [Json.sameKey]⟩
  simp [objectOf, hall]

end Fields

/-! ## Executions -/

namespace BackupRetryPolicy

theorem encode_obj (p : BackupRetryPolicy) : ∃ ms, p.encode = .obj ms := ⟨_, rfl⟩

theorem distinct (p : BackupRetryPolicy) : Json.Distinct p.members :=
  (by decide +kernel : Json.Distinct zero.members)

theorem decode_same (strict : Bool) {p : BackupRetryPolicy} {j : Json} (hp : p.validate = .ok ())
    (h : Json.Same p.encode j) : decode strict zero j = some p := by
  unfold validate at hp
  extract_lets at hp
  obtain ⟨hrange, -⟩ := guard_ok.mp hp
  simp only [Bool.or_eq_true, decide_eq_true_eq, not_or, not_lt] at hrange
  obtain ⟨stored, rfl, hc⟩ := h.of_obj
  have hinitial : Json.field "initial_backoff_seconds".toList decodeInt zero.initialBackoffSeconds stored =
      some p.initialBackoffSeconds :=
    field_int hc p.distinct (by simp [members]) (by omega) (by omega)
  have hattempts : Json.field "max_attempts".toList decodeInt zero.maxAttempts stored = some p.maxAttempts :=
    field_int hc p.distinct (by simp [members]) (by omega) (by omega)
  have hmax : Json.field "max_backoff_seconds".toList decodeInt zero.maxBackoffSeconds stored =
      some p.maxBackoffSeconds :=
    field_int hc p.distinct (by simp [members]) (by omega) (by omega)
  have hobj := objectOf_carries strict hc (rfl : _ = zero.members.map Prod.fst)
  simp only [decode, hobj, hinitial, hattempts, hmax, Option.bind_eq_bind, Option.bind_some]
  rfl

end BackupRetryPolicy

namespace BackupResourceLimits

theorem encode_obj (p : BackupResourceLimits) : ∃ ms, p.encode = .obj ms := ⟨_, rfl⟩

theorem distinct (p : BackupResourceLimits) : Json.Distinct p.members :=
  (by decide +kernel : Json.Distinct zero.members)

theorem decode_same (strict : Bool) {p : BackupResourceLimits} {j : Json} (hp : p.validate = .ok ())
    (h : Json.Same p.encode j) : decode strict zero j = some p := by
  have hrange := last_guard_ok.mp hp
  simp only [Bool.or_eq_true, decide_eq_true_eq, not_or, not_lt] at hrange
  obtain ⟨stored, rfl, hc⟩ := h.of_obj
  have hdown : Json.field "limit_download_kib".toList decodeInt zero.limitDownloadKiB stored = some p.limitDownloadKiB :=
    field_int hc p.distinct (by simp [members]) (by omega) (by omega)
  have hup : Json.field "limit_upload_kib".toList decodeInt zero.limitUploadKiB stored = some p.limitUploadKiB :=
    field_int hc p.distinct (by simp [members]) (by omega) (by omega)
  have hduration : Json.field "max_duration_seconds".toList decodeInt zero.maxDurationSeconds stored =
      some p.maxDurationSeconds :=
    field_int hc p.distinct (by simp [members]) (by omega) (by omega)
  have hread : Json.field "read_concurrency".toList decodeInt zero.readConcurrency stored = some p.readConcurrency :=
    field_int hc p.distinct (by simp [members]) (by omega) (by omega)
  have hobj := objectOf_carries strict hc (rfl : _ = zero.members.map Prod.fst)
  simp only [decode, hobj, hdown, hup, hduration, hread, Option.bind_eq_bind, Option.bind_some]
  rfl

end BackupResourceLimits

theorem forM_pointer_ok {α ε : Type} {f : α → Except ε Unit} {x : Option α} :
    x.forM f = .ok () ↔ ∀ a, x = some a → f a = .ok () := by
  cases x with
  | none => simp [Option.forM, pure, Except.pure]
  | some a => simp [Option.forM]

namespace BackupExecution

theorem validate_ok {c : BackupExecution} : c.validate = .ok () ↔
    (∀ p, c.retryPolicy = some p → p.validate = .ok ()) ∧
    (∀ p, c.resourceLimits = some p → p.validate = .ok ()) ∧
    validateHooks c.preHookIDs = .ok () ∧ validateHooks c.postHookIDs = .ok () := by
  refine Iff.trans check_ok (and_congr forM_pointer_ok ?_)
  refine Iff.trans check_ok (and_congr forM_pointer_ok ?_)
  exact check_ok

theorem encode_obj (p : BackupExecution) : ∃ ms, p.encode = .obj ms := ⟨_, rfl⟩

theorem distinct (p : BackupExecution) : Json.Distinct p.members :=
  (by decide +kernel : Json.Distinct zero.members)

theorem decode_same (strict : Bool) {p : BackupExecution} {j : Json} (hp : p.validate = .ok ())
    (h : Json.Same p.encode j) : decode strict zero j = some p.normal := by
  obtain ⟨hretryOk, hlimitsOk, -, -⟩ := validate_ok.mp hp
  obtain ⟨stored, rfl, hc⟩ := h.of_obj
  have hretry : Json.field "retry_policy".toList (Json.decodePointer BackupRetryPolicy.zero
      (BackupRetryPolicy.decode strict)) zero.retryPolicy stored = some (p.retryPolicy.map id) :=
    field_pointer hc p.distinct (by simp [members]) BackupRetryPolicy.encode_obj
      fun a ha _ hj => BackupRetryPolicy.decode_same strict (hretryOk a ha) hj
  have hlimits : Json.field "resource_limits".toList (Json.decodePointer BackupResourceLimits.zero
      (BackupResourceLimits.decode strict)) zero.resourceLimits stored = some (p.resourceLimits.map id) :=
    field_pointer hc p.distinct (by simp [members]) BackupResourceLimits.encode_obj
      fun a ha _ hj => BackupResourceLimits.decode_same strict (hlimitsOk a ha) hj
  have hpre : Json.field "pre_hook_ids".toList decodeUUIDs zero.preHookIDs stored =
      some (Slice.normal p.preHookIDs) := field_hooks hc p.distinct (by simp [members])
  have hpost : Json.field "post_hook_ids".toList decodeUUIDs zero.postHookIDs stored =
      some (Slice.normal p.postHookIDs) := field_hooks hc p.distinct (by simp [members])
  rw [Option.map_id] at hretry hlimits
  have hobj := objectOf_carries strict hc (rfl : _ = zero.members.map Prod.fst)
  simp only [decode, hobj, hretry, hlimits, hpre, hpost, Option.bind_eq_bind, Option.bind_some]
  rfl

end BackupExecution

/-! ## Schedules -/

namespace PlanSchedule

variable {p : PlanSchedule} {stored : List (Text × Json)}

theorem fixed_keys (p : PlanSchedule) :
    p.fixedMembers.map Prod.fst = zero.fixedMembers.map Prod.fst := by
  simp only [fixedMembers, List.map_cons, List.map_nil]

theorem distinct (p : PlanSchedule) : Json.Distinct p.members := by
  have hzero : Json.Distinct (zero.fixedMembers ++ [("execution".toList, .null)]) := by
    decide +kernel
  rw [Json.Distinct, List.map_append, ← p.fixed_keys] at hzero
  rw [Json.Distinct, members, List.map_append]
  cases p.execution with
  | none => exact List.Nodup.sublist ((List.Sublist.append_left (List.nil_sublist _) _).map _) hzero
  | some e => exact hzero

theorem field_fixed {α : Type} {name : Text} {decode : α → Json → Option α} {start x : α} {j : Json}
    (h : Json.Carries p.members stored) (hm : (name, j) ∈ p.fixedMembers)
    (hx : ∀ j', Json.Same j j' → decode start j' = some x) :
    Json.field name decode start stored = some x :=
  h.field p.distinct (List.mem_append_left _ hm) hx

theorem field_execution (hp : validateExecution p.execution = .ok ())
    (h : Json.Carries p.members stored) :
    Json.field "execution".toList (Json.decodePointer BackupExecution.zero
      (BackupExecution.decode false)) none stored = some (p.execution.map BackupExecution.normal) := by
  cases he : p.execution with
  | none =>
      refine h.field_absent fun m hm => ?_
      have habsent : (zero.fixedMembers.map Prod.fst).all
          (fun key => !Json.sameKey "execution".toList key) = true := by decide +kernel
      have hfixed : m ∈ p.fixedMembers := by
        rw [members, he] at hm
        exact (List.append_nil p.fixedMembers) ▸ hm
      have hkey : m.1 ∈ zero.fixedMembers.map Prod.fst := by
        rw [← p.fixed_keys]
        exact List.mem_map_of_mem hfixed
      have hnot := List.all_eq_true.mp habsent m.1 hkey
      rwa [Bool.not_eq_true'] at hnot
  | some e =>
      have hm : ("execution".toList, e.encode) ∈ p.members := by
        rw [members, he]
        exact List.mem_append_right _ List.mem_cons_self
      refine h.field p.distinct hm fun j hj => ?_
      have hvalid : e.validate = .ok () := by
        rw [he] at hp
        exact hp
      have hdec := BackupExecution.decode_same false hvalid hj
      obtain ⟨ms, rfl, -⟩ := hj.of_obj
      simp [Json.decodePointer, hdec]

theorem decode_same {zones : Zones} {j : Json} (hp : p.validate zones = .ok ())
    (hrev : p.revision ≤ 2 ^ 63 - 1) (h : Json.Same p.encode j) : decode zero j = some p.normal := by
  obtain ⟨-, hpos, -, -, -, hjitter, hmisfire, -, -, -, -, hvalid⟩ := validate_ok.mp hp
  obtain ⟨stored, rfl, hc⟩ := h.of_obj
  have hplanID : Json.field "plan_id".toList decodeUUID zero.planID stored = some p.planID :=
    field_fixed hc (by simp [fixedMembers]) fun _ hj => decodeUUID_same hj
  have hrevision : Json.field "revision".toList decodeInt zero.revision stored = some p.revision :=
    field_fixed hc (by simp [fixedMembers]) fun _ hj => Json.decodeInt_same (by omega) (by omega) hj
  have hname : Json.field "name".toList Json.decodeStr zero.name stored = some p.name :=
    field_fixed hc (by simp [fixedMembers]) fun _ hj => Json.decodeStr_same hj
  have hhostID : Json.field "host_id".toList decodeUUID zero.hostID stored = some p.hostID :=
    field_fixed hc (by simp [fixedMembers]) fun _ hj => decodeUUID_same hj
  have hrepositoryID : Json.field "repository_id".toList decodeUUID zero.repositoryID stored = some p.repositoryID :=
    field_fixed hc (by simp [fixedMembers]) fun _ hj => decodeUUID_same hj
  have hcron : Json.field "cron".toList Json.decodeStr zero.cron stored = some p.cron :=
    field_fixed hc (by simp [fixedMembers]) fun _ hj => Json.decodeStr_same hj
  have htimezone : Json.field "timezone".toList Json.decodeStr zero.timezone stored = some p.timezone :=
    field_fixed hc (by simp [fixedMembers]) fun _ hj => Json.decodeStr_same hj
  have hjitterSeconds : Json.field "jitter_seconds".toList decodeInt zero.jitterSeconds stored = some p.jitterSeconds :=
    field_fixed hc (by simp [fixedMembers]) fun _ hj => Json.decodeInt_same (by omega) (by omega) hj
  have hmisfireGraceSeconds : Json.field "misfire_grace_seconds".toList decodeInt zero.misfireGraceSeconds stored = some p.misfireGraceSeconds :=
    field_fixed hc (by simp [fixedMembers]) fun _ hj => Json.decodeInt_same (by omega) (by omega) hj
  have hconcurrencyPolicy : Json.field "concurrency_policy".toList Json.decodeStr zero.concurrencyPolicy stored = some p.concurrencyPolicy :=
    field_fixed hc (by simp [fixedMembers]) fun _ hj => Json.decodeStr_same hj
  have hpaths : Json.field "paths".toList decodeTexts zero.paths stored = some p.paths :=
    field_fixed hc (by simp [fixedMembers]) fun _ hj => decodeTexts_same hj
  have hexcludePatterns : Json.field "exclude_patterns".toList decodeTexts zero.excludePatterns stored = some p.excludePatterns :=
    field_fixed hc (by simp [fixedMembers]) fun _ hj => decodeTexts_same hj
  have hexcludeCaches : Json.field "exclude_caches".toList Json.decodeBool zero.excludeCaches stored = some p.excludeCaches :=
    field_fixed hc (by simp [fixedMembers]) fun _ hj => Json.decodeBool_same hj
  have honeFileSystem : Json.field "one_file_system".toList Json.decodeBool zero.oneFileSystem stored = some p.oneFileSystem :=
    field_fixed hc (by simp [fixedMembers]) fun _ hj => Json.decodeBool_same hj
  have hconfigHash : Json.field "config_hash".toList Json.decodeStr zero.configHash stored = some p.configHash :=
    field_fixed hc (by simp [fixedMembers]) fun _ hj => Json.decodeStr_same hj
  have hexecution := field_execution hvalid hc
  simp only [decode, hplanID, hrevision, hname, hhostID, hrepositoryID,
    hcron, htimezone, hjitterSeconds, hmisfireGraceSeconds,
    hconcurrencyPolicy, hpaths, hexcludePatterns, hexcludeCaches,
    honeFileSystem, hconfigHash, Option.bind_eq_bind, Option.bind_some]
  rw [show zero.execution = none from rfl, hexecution]
  rfl

/-! ### The order of plans -/

def sortKey (p : PlanSchedule) : Lex (Text × ℤ) := toLex (p.planID.text, p.revision)

theorem less_eq_false {p q : PlanSchedule} : q.less p = false ↔ p.sortKey ≤ q.sortKey := by
  rw [sortKey, sortKey, Prod.Lex.toLex_le_toLex, less]
  by_cases hid : q.planID = p.planID
  · simp [hid]
  · have hne : p.planID.text ≠ q.planID.text := fun h => hid (UUID.text_injective h).symm
    simp [hid, hne, le_iff_lt_or_eq]

instance : Std.Total fun p q : PlanSchedule => q.less p = false :=
  ⟨fun p q => by
    rw [less_eq_false, less_eq_false]
    exact le_total _ _⟩

instance : IsTrans PlanSchedule fun p q => q.less p = false :=
  ⟨fun p q r hpq hqr => by
    rw [less_eq_false] at *
    exact hpq.trans hqr⟩

end PlanSchedule

theorem sortPlans_sortPlans (plans : List PlanSchedule) :
    sortPlans (sortPlans plans) = sortPlans plans :=
  (List.pairwise_insertionSort _ plans).insertionSort_eq

theorem sortPlans_map {f : PlanSchedule → PlanSchedule}
    (hf : ∀ p, (f p).planID = p.planID ∧ (f p).revision = p.revision) (plans : List PlanSchedule) :
    sortPlans (plans.map f) = (sortPlans plans).map f := by
  refine (List.map_insertionSort _ _ f plans fun p _ q _ => ?_).symm
  simp [PlanSchedule.less, hf]

/-! ## What the encoding does not tell apart -/

@[simp] theorem Slice.items_normal {α : Type} (s : Slice α) : (Slice.normal s).items = s.items := by
  match s with
  | none => rfl
  | some [] => rfl
  | some (_ :: _) => rfl

/-- A member for hooks is the same for a nil and an empty list. -/
theorem sparse_hooks (name : Text) (ids : Slice UUID) :
    Json.sparse [(name, Json.encodeSlice encodeUUID (Slice.normal ids))] =
      Json.sparse [(name, Json.encodeSlice encodeUUID ids)] := by
  match ids with
  | none => rfl
  | some [] => rfl
  | some (_ :: _) => rfl

namespace BackupExecution

theorem encode_normal (e : BackupExecution) : e.normal.encode = e.encode := by
  have hsplit : ∀ a b c d : Text × Json,
      Json.sparse [a, b, c, d] = Json.sparse [a, b] ++ (Json.sparse [c] ++ Json.sparse [d]) := by
    intro a b c d
    simp only [Json.sparse, ← List.filter_append]
    rfl
  simp only [encode, members, hsplit]
  rw [normal, sparse_hooks, sparse_hooks]

theorem validate_normal {e : BackupExecution} (h : e.validate = .ok ()) :
    e.normal.validate = .ok () := by
  rw [validate_ok] at *
  simpa [normal, validateHooks, duplicateUUID] using h

end BackupExecution

namespace PlanSchedule

theorem encode_normal (p : PlanSchedule) : p.normal.encode = p.encode := by
  have he : Json.encodePointer BackupExecution.encode p.normal.execution =
      Json.encodePointer BackupExecution.encode p.execution := by
    rw [normal]
    cases p.execution with
    | none => rfl
    | some e => exact e.encode_normal
  rw [encode, members, he]
  rfl

theorem validate_normal {zones : Zones} {p : PlanSchedule} (h : p.validate zones = .ok ()) :
    p.normal.validate zones = .ok () := by
  rw [validate_ok] at *
  obtain ⟨hid, hrev, hname, hrepo, hitems, hjitter, hmisfire, hpolicy, hcron, hzone, hpaths, hexec⟩ := h
  refine ⟨hid, hrev, hname, hrepo, hitems, hjitter, hmisfire, hpolicy, hcron, hzone, hpaths, ?_⟩
  rw [normal]
  cases he : p.execution with
  | none => rfl
  | some e =>
      rw [he] at hexec
      exact BackupExecution.validate_normal hexec

end PlanSchedule

/-! ## States -/

theorem RuntimePolicy.decode_same {p x : RuntimePolicy} {j : Json}
    (hjobs : 1 ≤ p.maxParallelIOJobs ∧ p.maxParallelIOJobs ≤ 16)
    (hlog : 64 * 2 ^ 10 ≤ p.logLimitBytes ∧ p.logLimitBytes ≤ defaultLogLimitBytes)
    (h : Json.Same p.encode j) : x.decode j = some p := by
  have hd : Json.Distinct p.members := (by decide +kernel : Json.Distinct zero.members)
  have hlimit : defaultLogLimitBytes = 10485760 := by decide
  obtain ⟨stored, rfl, hc⟩ := h.of_obj
  have hmax : Json.field "max_parallel_io_jobs".toList (Json.decodeInt 0 (2 ^ 32 - 1))
      x.maxParallelIOJobs stored = some p.maxParallelIOJobs :=
    hc.field hd (by simp [members]) fun _ hj => Json.decodeInt_same (by omega) (by omega) hj
  have hbytes : Json.field "log_limit_bytes".toList (Json.decodeInt 0 (2 ^ 64 - 1))
      x.logLimitBytes stored = some p.logLimitBytes :=
    hc.field hd (by simp [members]) fun _ hj => Json.decodeInt_same (by omega) (by omega) hj
  simp only [decode, hmax, hbytes, Option.bind_eq_bind, Option.bind_some]
  rfl

variable {zones : Zones} {digest : Digest} {s : DesiredState} {j : Json}

theorem decodeState_same (hs : s.validate digest zones = .ok ())
    (hrev : ∀ p ∈ s.plans, p.revision ≤ 2 ^ 63 - 1) (h : Json.Same s.encode j) :
    decodeState j = some (s.runtimePolicy, (sortPlans s.plans).map PlanSchedule.normal) := by
  obtain ⟨-, -, -, hjobs, hlog, hplans, -⟩ := DesiredState.validate_ok.mp hs
  have hd : Json.Distinct s.members :=
    (by decide +kernel : Json.Distinct (DesiredState.members ⟨0, 0, 0, [], .zero, []⟩))
  obtain ⟨stored, rfl, hc⟩ := h.of_obj
  have hpolicy : Json.field "runtime_policy".toList RuntimePolicy.decode .zero stored =
      some s.runtimePolicy :=
    hc.field hd (by simp [DesiredState.members]) fun _ hj =>
      RuntimePolicy.decode_same hjobs hlog hj
  have hlist : Json.field "plans".toList (Json.decodeSlice (PlanSchedule.decode .zero)) none stored =
      some (some ((sortPlans s.plans).map PlanSchedule.normal)) := by
    refine hc.field hd (j := Json.encodeSlice PlanSchedule.encode (some (sortPlans s.plans)))
      (by simp [DesiredState.members, Json.encodeSlice]) fun _ hj => ?_
    refine Json.decodeSlice_same ?_ hj
    rintro _ ⟨⟩ p hp j' hj'
    have hmem : p ∈ s.plans := (List.mem_insertionSort _).mp hp
    exact PlanSchedule.decode_same (hplans p hmem) (hrev p hmem) hj'
  simp only [decodeState, hpolicy, hlist, Option.bind_eq_bind, Option.bind_some]
  rfl

end RestFleet.Domain
