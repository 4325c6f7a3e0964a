import RestFleet.Model.Domain.Template

/-! # Plan overrides

`domain.NormalizeOverrides` and `domain.MergePlanConfig`. -/

namespace RestFleet.Domain

/-- A `json.RawMessage`: no bytes, bytes that are no JSON, or a value. -/
inductive RawMessage where
  | empty
  | malformed
  | value (j : Json)

/-- `planOverrideKeys`, in the order in which a map is encoded. -/
def planOverrideKeys : List Text :=
  ["enabled_by_default", "exclude_caches", "exclude_patterns", "jitter_seconds",
    "misfire_grace_seconds", "one_file_system", "paths", "post_hook_ids", "pre_hook_ids",
    "resource_limits", "retention_policy_id", "retry_policy", "schedule_cron",
    "schedule_timezone"].map String.toList

/-- The value of a key in a decoded map: the last one counts. -/
def mapValue (key : Text) (members : List (Text × Json)) : Option Json :=
  (members.filter fun m => m.1 = key).getLast?.map Prod.snd

/-- `NormalizeOverrides`; of several unknown keys the first one is reported. -/
def normalizeOverrides : RawMessage → Except TemplateError Json
  | .empty => .ok (.obj [])
  | .value .null => .ok .null
  | .value (.obj members) =>
    match members.find? fun m => !planOverrideKeys.contains m.1 with
    | some m => .error ⟨"overrides.".toList ++ m.1, "UNKNOWN".toList⟩
    | none => .ok (.obj (planOverrideKeys.filterMap fun key =>
        (mapValue key members).map fun j => (key, j)))
  | _ => .error ⟨"overrides".toList, "INVALID".toList⟩

def patchMembers : Json → List (Text × Json)
  | .obj members => members
  | _ => []

def mergePlanConfig (zones : Zones) (base : TemplateConfig) (overrides : RawMessage) :
    Except TemplateError TemplateConfig := do
  let patch ← normalizeOverrides overrides
  let merged := base.members.map fun m => (m.1, (mapValue m.1 (patchMembers patch)).getD m.2)
  match TemplateConfig.decode true .zero (.obj merged) with
  | none => throw ⟨"overrides".toList, "INVALID".toList⟩
  | some config =>
    config.validate zones
    pure config

end RestFleet.Domain
