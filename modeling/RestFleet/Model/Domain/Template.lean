import RestFleet.Model.Strings
import RestFleet.Shared.Json

/-! # Template bodies

`domain.TemplateConfig` with its validation, its canonical JSON and its hash. The IANA zones and
SHA-256 are parameters. A slice is an optional list, `none` being the nil slice. -/

namespace RestFleet.Domain

abbrev Slice (α : Type) := Option (List α)

def Slice.items {α : Type} (s : Slice α) : List α := s.getD []

abbrev Location := ℤ → ℤ

abbrev Zones := Text → Option Location

abbrev Digest := Text → Text

structure TemplateError where
  field : Text
  code : Text
  deriving DecidableEq

def templateError (field code : String) : Except TemplateError Unit :=
  .error ⟨field.toList, code.toList⟩

structure BackupRetryPolicy where
  initialBackoffSeconds : ℤ
  maxAttempts : ℤ
  maxBackoffSeconds : ℤ
  deriving DecidableEq

structure BackupResourceLimits where
  limitDownloadKiB : ℤ
  limitUploadKiB : ℤ
  maxDurationSeconds : ℤ
  readConcurrency : ℤ
  deriving DecidableEq

structure BackupExecution where
  retryPolicy : Option BackupRetryPolicy
  resourceLimits : Option BackupResourceLimits
  preHookIDs : Slice UUID
  postHookIDs : Slice UUID
  deriving DecidableEq

structure TemplateConfig where
  paths : Slice Text
  excludePatterns : Slice Text
  excludeCaches : Bool
  oneFileSystem : Bool
  scheduleCron : Text
  scheduleTimezone : Text
  jitterSeconds : ℤ
  misfireGraceSeconds : ℤ
  retryPolicy : Option BackupRetryPolicy
  retentionPolicyID : Option UUID
  preHookIDs : Slice UUID
  postHookIDs : Slice UUID
  resourceLimits : Option BackupResourceLimits
  enabledByDefault : Bool
  deriving DecidableEq

/-! ## Validation -/

def pathInvalid (path : Text) : Bool :=
  path.trimSpace.isEmpty || 4096 < path.byteLength || !path.isAbs || path.cleanAbs ≠ path ||
    path.hasControl

def patternInvalid (pattern : Text) : Bool := 4096 < pattern.byteLength || pattern.hasControl

/-- The loops of `ValidateBackupPaths`: the first invalid element, from index `i` on. -/
def firstInvalid (field : String) (invalid : Text → Bool) (i : ℕ) :
    List Text → Except TemplateError Unit
  | [] => .ok ()
  | x :: rest =>
    if invalid x then .error ⟨field.toList ++ '.' :: Nat.toDigits 10 i, "INVALID".toList⟩
    else firstInvalid field invalid (i + 1) rest

def validateBackupPaths (paths excludes : Slice Text) : Except TemplateError Unit := do
  if paths.items.isEmpty then templateError "paths" "REQUIRED"
  firstInvalid "paths" pathInvalid 0 paths.items
  firstInvalid "exclude_patterns" patternInvalid 0 excludes.items

/-- `duplicateUUID`, after the elements `seen`. -/
def duplicateFrom (seen : List UUID) : List UUID → Bool
  | [] => false
  | id :: rest => seen.contains id || duplicateFrom (id :: seen) rest

def duplicateUUID (ids : Slice UUID) : Bool := duplicateFrom [] ids.items

def validateTimezone (zones : Zones) (name : Text) : Bool :=
  !(name.isEmpty || name = "Local".toList) && (zones name).isSome

def cronFields : List (ℤ × ℤ) := [(0, 59), (0, 23), (1, 31), (1, 12), (0, 6)]

def validateCronPart (low high : ℤ) (part : Text) : Bool :=
  if part.isEmpty then false
  else
    let stepped : Option (Text × ℤ) := match part.cut '/' with
      | some (base, raw) => match raw.atoi with
        | some parsed => if parsed < 1 then none else some (base, parsed)
        | none => none
      | none => some (part, 1)
    match stepped with
    | none => false
    | some (base, step) =>
      if base = ['*'] then true
      else match base.cut '-' with
        | some (first, last) => match first.atoi, last.atoi with
          | some first, some last =>
            !(first < low || last > high || first > last) && !(step > last - first + 1)
          | _, _ => false
        | none => match base.atoi with
          | some value => !(value < low || value > high)
          | none => false

def validateCronField (field : Text) (low high : ℤ) : Bool :=
  (field.split ',').all (validateCronPart low high)

def validateCron (expr : Text) : Bool :=
  expr.fields.length = cronFields.length &&
    (expr.fields.zip cronFields).all fun f => validateCronField f.1 f.2.1 f.2.2

def TemplateConfig.backupExecution (c : TemplateConfig) : Option BackupExecution :=
  if c.retryPolicy.isNone && c.resourceLimits.isNone && c.preHookIDs.items.isEmpty &&
      c.postHookIDs.items.isEmpty then none
  else some ⟨c.retryPolicy, c.resourceLimits, c.preHookIDs, c.postHookIDs⟩

def BackupRetryPolicy.validate (p : BackupRetryPolicy) : Except TemplateError Unit := do
  if p.maxAttempts < 0 || p.maxAttempts > 10 || p.initialBackoffSeconds < 0 ||
      p.initialBackoffSeconds > 86400 || p.maxBackoffSeconds < 0 || p.maxBackoffSeconds > 86400 then
    templateError "retry_policy" "OUT_OF_RANGE"
  let initial := if p.initialBackoffSeconds = 0 then 60 else p.initialBackoffSeconds
  let maximum := if p.maxBackoffSeconds = 0 then 1800 else p.maxBackoffSeconds
  if initial > maximum then templateError "retry_policy" "INVALID_BACKOFF"

def BackupResourceLimits.validate (p : BackupResourceLimits) : Except TemplateError Unit := do
  if p.limitDownloadKiB < 0 || p.limitDownloadKiB > 2 ^ 30 || p.limitUploadKiB < 0 ||
      p.limitUploadKiB > 2 ^ 30 || p.readConcurrency < 0 || p.readConcurrency > 64 ||
      p.maxDurationSeconds < 0 || p.maxDurationSeconds > 86400 then
    templateError "resource_limits" "OUT_OF_RANGE"

def validateHooks (ids : Slice UUID) : Except TemplateError Unit := do
  if ids.items.length > 16 || duplicateUUID ids then templateError "hook_ids" "INVALID"
  if ids.items.any fun id => !id.isV7 then templateError "hook_ids" "INVALID"

def BackupExecution.validate (c : BackupExecution) : Except TemplateError Unit := do
  c.retryPolicy.forM BackupRetryPolicy.validate
  c.resourceLimits.forM BackupResourceLimits.validate
  validateHooks c.preHookIDs
  validateHooks c.postHookIDs

/-- The same on a nil receiver. -/
def validateExecution (c : Option BackupExecution) : Except TemplateError Unit :=
  c.forM BackupExecution.validate

def TemplateConfig.validate (zones : Zones) (c : TemplateConfig) : Except TemplateError Unit := do
  validateBackupPaths c.paths c.excludePatterns
  if !validateCron c.scheduleCron then templateError "schedule_cron" "INVALID"
  if !validateTimezone zones c.scheduleTimezone then templateError "schedule_timezone" "INVALID"
  if c.jitterSeconds < 0 || c.jitterSeconds > 3600 then
    templateError "jitter_seconds" "OUT_OF_RANGE"
  if c.misfireGraceSeconds < 0 || c.misfireGraceSeconds > 86400 then
    templateError "misfire_grace_seconds" "OUT_OF_RANGE"
  if duplicateUUID c.preHookIDs || duplicateUUID c.postHookIDs then
    templateError "hook_ids" "DUPLICATE"
  if c.retentionPolicyID = some UUID.nil then templateError "retention_policy_id" "INVALID"
  validateExecution c.backupExecution

/-! ## JSON -/

def decodeInt : ℤ → Json → Option ℤ := Json.decodeInt (-(2 ^ 63)) (2 ^ 63 - 1)

def encodeUUID (id : UUID) : Json := .str id.text

def decodeUUID : UUID → Json → Option UUID := Json.decodeText UUID.parse

def decodeTexts : Slice Text → Json → Option (Slice Text) :=
  Json.decodeSlice (Json.decodeStr [])

def decodeUUIDs : Slice UUID → Json → Option (Slice UUID) :=
  Json.decodeSlice (decodeUUID UUID.nil)

/-- The fields of an object; with `DisallowUnknownFields` every key names one of them. -/
def objectOf (strict : Bool) (names : List Text) : Json → Option (List (Text × Json))
  | .obj members =>
    if strict && !members.all (fun m => names.any fun name => Json.sameKey name m.1) then none
    else some members
  | _ => none

namespace BackupRetryPolicy

def zero : BackupRetryPolicy := ⟨0, 0, 0⟩

def members (p : BackupRetryPolicy) : List (Text × Json) :=
  [("initial_backoff_seconds".toList, .int p.initialBackoffSeconds),
    ("max_attempts".toList, .int p.maxAttempts),
    ("max_backoff_seconds".toList, .int p.maxBackoffSeconds)]

def encode (p : BackupRetryPolicy) : Json := .obj (Json.sparse p.members)

def decode (strict : Bool) (p : BackupRetryPolicy) (j : Json) : Option BackupRetryPolicy := do
  let ms ← objectOf strict (zero.members.map Prod.fst) j
  let initialBackoffSeconds ←
    Json.field "initial_backoff_seconds".toList decodeInt p.initialBackoffSeconds ms
  let maxAttempts ← Json.field "max_attempts".toList decodeInt p.maxAttempts ms
  let maxBackoffSeconds ← Json.field "max_backoff_seconds".toList decodeInt p.maxBackoffSeconds ms
  pure ⟨initialBackoffSeconds, maxAttempts, maxBackoffSeconds⟩

end BackupRetryPolicy

namespace BackupResourceLimits

def zero : BackupResourceLimits := ⟨0, 0, 0, 0⟩

def members (p : BackupResourceLimits) : List (Text × Json) :=
  [("limit_download_kib".toList, .int p.limitDownloadKiB),
    ("limit_upload_kib".toList, .int p.limitUploadKiB),
    ("max_duration_seconds".toList, .int p.maxDurationSeconds),
    ("read_concurrency".toList, .int p.readConcurrency)]

def encode (p : BackupResourceLimits) : Json := .obj (Json.sparse p.members)

def decode (strict : Bool) (p : BackupResourceLimits) (j : Json) : Option BackupResourceLimits := do
  let ms ← objectOf strict (zero.members.map Prod.fst) j
  let limitDownloadKiB ← Json.field "limit_download_kib".toList decodeInt p.limitDownloadKiB ms
  let limitUploadKiB ← Json.field "limit_upload_kib".toList decodeInt p.limitUploadKiB ms
  let maxDurationSeconds ← Json.field "max_duration_seconds".toList decodeInt p.maxDurationSeconds ms
  let readConcurrency ← Json.field "read_concurrency".toList decodeInt p.readConcurrency ms
  pure ⟨limitDownloadKiB, limitUploadKiB, maxDurationSeconds, readConcurrency⟩

end BackupResourceLimits

namespace BackupExecution

def zero : BackupExecution := ⟨none, none, none, none⟩

def members (c : BackupExecution) : List (Text × Json) :=
  [("retry_policy".toList, Json.encodePointer BackupRetryPolicy.encode c.retryPolicy),
    ("resource_limits".toList, Json.encodePointer BackupResourceLimits.encode c.resourceLimits),
    ("pre_hook_ids".toList, Json.encodeSlice encodeUUID c.preHookIDs),
    ("post_hook_ids".toList, Json.encodeSlice encodeUUID c.postHookIDs)]

def encode (c : BackupExecution) : Json := .obj (Json.sparse c.members)

def decode (strict : Bool) (c : BackupExecution) (j : Json) : Option BackupExecution := do
  let ms ← objectOf strict (zero.members.map Prod.fst) j
  let retryPolicy ← Json.field "retry_policy".toList
    (Json.decodePointer BackupRetryPolicy.zero (BackupRetryPolicy.decode strict)) c.retryPolicy ms
  let resourceLimits ← Json.field "resource_limits".toList
    (Json.decodePointer BackupResourceLimits.zero (BackupResourceLimits.decode strict))
    c.resourceLimits ms
  let preHookIDs ← Json.field "pre_hook_ids".toList decodeUUIDs c.preHookIDs ms
  let postHookIDs ← Json.field "post_hook_ids".toList decodeUUIDs c.postHookIDs ms
  pure ⟨retryPolicy, resourceLimits, preHookIDs, postHookIDs⟩

end BackupExecution

namespace TemplateConfig

def zero : TemplateConfig :=
  ⟨none, none, false, false, [], [], 0, 0, none, none, none, none, none, false⟩

def members (c : TemplateConfig) : List (Text × Json) :=
  [("paths".toList, Json.encodeSlice .str c.paths),
    ("exclude_patterns".toList, Json.encodeSlice .str c.excludePatterns),
    ("exclude_caches".toList, .bool c.excludeCaches),
    ("one_file_system".toList, .bool c.oneFileSystem),
    ("schedule_cron".toList, .str c.scheduleCron),
    ("schedule_timezone".toList, .str c.scheduleTimezone),
    ("jitter_seconds".toList, .int c.jitterSeconds),
    ("misfire_grace_seconds".toList, .int c.misfireGraceSeconds),
    ("retry_policy".toList, Json.encodePointer BackupRetryPolicy.encode c.retryPolicy),
    ("retention_policy_id".toList, Json.encodePointer encodeUUID c.retentionPolicyID),
    ("pre_hook_ids".toList, Json.encodeSlice encodeUUID c.preHookIDs),
    ("post_hook_ids".toList, Json.encodeSlice encodeUUID c.postHookIDs),
    ("resource_limits".toList, Json.encodePointer BackupResourceLimits.encode c.resourceLimits),
    ("enabled_by_default".toList, .bool c.enabledByDefault)]

def encode (c : TemplateConfig) : Json := .obj c.members

/-- `json.Unmarshal`, or a decoder with `DisallowUnknownFields`, over `c`. -/
def decode (strict : Bool) (c : TemplateConfig) (j : Json) : Option TemplateConfig := do
  let ms ← objectOf strict (zero.members.map Prod.fst) j
  let paths ← Json.field "paths".toList decodeTexts c.paths ms
  let excludePatterns ← Json.field "exclude_patterns".toList decodeTexts c.excludePatterns ms
  let excludeCaches ← Json.field "exclude_caches".toList Json.decodeBool c.excludeCaches ms
  let oneFileSystem ← Json.field "one_file_system".toList Json.decodeBool c.oneFileSystem ms
  let scheduleCron ← Json.field "schedule_cron".toList Json.decodeStr c.scheduleCron ms
  let scheduleTimezone ← Json.field "schedule_timezone".toList Json.decodeStr c.scheduleTimezone ms
  let jitterSeconds ← Json.field "jitter_seconds".toList decodeInt c.jitterSeconds ms
  let misfireGraceSeconds ←
    Json.field "misfire_grace_seconds".toList decodeInt c.misfireGraceSeconds ms
  let retryPolicy ← Json.field "retry_policy".toList
    (Json.decodePointer BackupRetryPolicy.zero (BackupRetryPolicy.decode strict)) c.retryPolicy ms
  let retentionPolicyID ← Json.field "retention_policy_id".toList
    (Json.decodePointer UUID.nil decodeUUID) c.retentionPolicyID ms
  let preHookIDs ← Json.field "pre_hook_ids".toList decodeUUIDs c.preHookIDs ms
  let postHookIDs ← Json.field "post_hook_ids".toList decodeUUIDs c.postHookIDs ms
  let resourceLimits ← Json.field "resource_limits".toList
    (Json.decodePointer BackupResourceLimits.zero (BackupResourceLimits.decode strict))
    c.resourceLimits ms
  let enabledByDefault ← Json.field "enabled_by_default".toList Json.decodeBool c.enabledByDefault ms
  pure { paths, excludePatterns, excludeCaches, oneFileSystem, scheduleCron, scheduleTimezone,
         jitterSeconds, misfireGraceSeconds, retryPolicy, retentionPolicyID, preHookIDs,
         postHookIDs, resourceLimits, enabledByDefault }

def canonicalJSON (c : TemplateConfig) : Text := Json.render c.encode

def configHash (digest : Digest) (c : TemplateConfig) : Text := digest c.canonicalJSON

end TemplateConfig

end RestFleet.Domain
