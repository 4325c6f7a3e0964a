import RestFleet.Model.Catalog.Store

/-! # The requests on templates and plans

`template.go` and `plan.go` of the control plane. A request reads the rows that it builds on
with queries of their own, before the transaction that writes. -/

namespace RestFleet.Catalog

open Domain

structure Actor where
  id : UUID
  admin : Bool

def invalid {α : Type} (field code : String) : CatalogM α :=
  throw (.validation field.toList code.toList)

def templateValidation {α : Type} : Except TemplateError α → CatalogM α
  | .ok a => return a
  | .error e => throw (.validation e.field e.code)

def validTemplateText (value : Text) (low high : ℕ) : Bool :=
  !value.hasControl && low ≤ value.length && value.length ≤ high

def runTx {α : Type} (body : CatalogM α) : CatalogM α := ExceptT.mk (Tx.transaction body)

/-- A template and how much was committed when it was read. -/
def readTemplate (id : UUID) : CatalogM (Template × ℕ) :=
  queryRow fun db => (db.template? id).map fun t => (t, db.trail.length)

def readPlan (id : UUID) : CatalogM (Plan × ℕ) :=
  queryRow fun db => (db.plans.row id).map fun p => (p, db.trail.length)

def readRevisionConfig (templateID : UUID) (revision : ℤ) : CatalogM TemplateConfig :=
  queryRow fun db => (db.templateRevisions.row (templateID, revision)).map RevisionRow.config

/-! ## Templates -/

def createTemplate (site : Site) (actor : Actor) (name description : Text) (config : TemplateConfig) :
    CatalogM Template := do
  if !actor.admin then throw .forbidden
  else if !validTemplateText name.trimSpace 1 128 then invalid "name" "INVALID_NAME"
  else if !validTemplateText description.trimSpace 0 1024 then
    invalid "description" "INVALID_DESCRIPTION"
  else
    templateValidation (config.validate site.zones)
    let id ← newV7
    let now ← clock
    runTx (createTemplateTx site
      ⟨id, name.trimSpace, description.trimSpace, 1, config, none, now, now⟩ actor.id)

def checkTemplateChange (site : Site) (change : TemplateChange) : CatalogM Unit := do
  if (change.description.map Text.trimSpace).any fun d => !validTemplateText d 0 1024 then
    invalid "description" "INVALID_DESCRIPTION"
  else match change.config with
    | some config => templateValidation (config.validate site.zones)
    | none => return ()

def TemplateChange.apply (change : TemplateChange) (t : Template) (now : Stamp) : Template :=
  { t with
    description := (change.description.map Text.trimSpace).getD t.description
    config := change.config.getD t.config
    updatedAt := now }

def updateTemplate (site : Site) (actor : Actor) (id : UUID) (expected : ℤ)
    (change : TemplateChange) : CatalogM Template := do
  if !actor.admin then throw .forbidden
  else if !id.isV7 then invalid "id" "INVALID_ID"
  else if expected < 1 then invalid "revision" "INVALID_REVISION"
  else
    let (current, seen) ← readTemplate id
    checkTemplateChange site change
    let now ← clock
    runTx (saveTemplateRevisionTx site (change.apply current now) expected actor.id change
      current seen)

def archiveTemplate (actor : Actor) (id : UUID) (expected : ℤ) : CatalogM Template := do
  if !actor.admin then throw .forbidden
  else if !id.isV7 then invalid "id" "INVALID_ID"
  else if expected < 1 then invalid "revision" "INVALID_REVISION"
  else
    let now ← clock
    runTx (archiveTemplateTx id expected now)
    queryRow (·.template? id)

/-! ## Plans -/

structure PlanRequest where
  name : Text
  hostID : UUID
  agentID : UUID
  repositoryID : UUID
  templateID : UUID
  templateRevision : ℤ
  overrides : RawMessage

/-- The identifiers of a request; of several invalid ones the first is reported. -/
def PlanRequest.invalidID (r : PlanRequest) : Option String :=
  ([("host_id", r.hostID), ("agent_id", r.agentID), ("repository_id", r.repositoryID),
    ("template_id", r.templateID)].find? fun f => !f.2.isV7).map Prod.fst

def createPlan (site : Site) (actor : Actor) (r : PlanRequest) : CatalogM Plan := do
  if !actor.admin then throw .forbidden
  else if !validTemplateText r.name.trimSpace 1 128 then invalid "name" "INVALID_NAME"
  else match r.invalidID with
  | some field => invalid field "INVALID_ID"
  | none =>
    let (template, seen) ← readTemplate r.templateID
    if template.archivedAt.isSome then invalid "template_id" "TEMPLATE_ARCHIVED"
    else if r.templateRevision < 1 || r.templateRevision > template.currentRevision then
      invalid "template_revision" "INVALID_REVISION"
    else
      let base ← readRevisionConfig r.templateID r.templateRevision
      let config ← templateValidation (mergePlanConfig site.zones base r.overrides)
      let overrides ← templateValidation (normalizeOverrides r.overrides)
      let id ← newV7
      let now ← clock
      runTx (createPlanTx site
        { id, name := r.name.trimSpace, hostID := r.hostID, agentID := r.agentID
          repositoryID := r.repositoryID, templateID := r.templateID
          templateRevision := r.templateRevision, overrides, effectiveConfig := config
          configHash := config.configHash site.digest, status := .draft, desiredRevision := 1
          archivedAt := none, createdAt := now, updatedAt := now } actor.id seen)

/-- A new configuration leaves a running plan waiting for an explicit apply. -/
def PlanStatus.afterChange : PlanStatus → PlanStatus
  | .active | .paused => .pendingApply
  | status => status

/-- The plan with a new configuration, its hash and the status that follows. -/
def Plan.reconfigure (digest : Digest) (p : Plan) (config : TemplateConfig) : Plan :=
  { p with effectiveConfig := config, configHash := config.configHash digest
           status := p.status.afterChange }

/-- The revision of the template that an update asks for, checked against the template. -/
def checkTemplateRevision (p : Plan) : Option ℤ → CatalogM ℤ
  | none => return p.templateRevision
  | some revision => do
    if revision < 1 then invalid "template_revision" "INVALID_REVISION"
    else
      let (template, _) ← readTemplate p.templateID
      if revision > template.currentRevision then invalid "template_revision" "INVALID_REVISION"
      else return revision

def checkName (p : Plan) : Option Text → CatalogM Text
  | none => return p.name
  | some name =>
    if !validTemplateText name.trimSpace 1 128 then invalid "name" "INVALID_NAME"
    else return name.trimSpace

def checkOverrides (p : Plan) : Option RawMessage → CatalogM Json
  | none => return p.overrides
  | some raw => templateValidation (normalizeOverrides raw)

/-- The part of `UpdatePlan` between the read and the transaction. -/
def PlanChange.build (site : Site) (change : PlanChange) (p : Plan) : CatalogM Plan := do
  let name ← checkName p change.name
  let overrides ← checkOverrides p change.overrides
  let templateRevision ← checkTemplateRevision p change.templateRevision
  let next := { p with name, overrides, templateRevision }
  if change.overrides.isSome || templateRevision ≠ p.templateRevision then
    let base ← readRevisionConfig p.templateID templateRevision
    let config ← templateValidation (mergePlanConfig site.zones base (.value overrides))
    return next.reconfigure site.digest config
  else return next

def updatePlan (site : Site) (actor : Actor) (id : UUID) (expected : ℤ) (change : PlanChange) :
    CatalogM Plan := do
  if !actor.admin then throw .forbidden
  else if !id.isV7 then invalid "id" "INVALID_ID"
  else if expected < 1 then invalid "revision" "INVALID_REVISION"
  else
    let (current, seen) ← readPlan id
    let next ← change.build site current
    let now ← clock
    runTx (savePlanRevisionTx site { next with updatedAt := now } expected current.status actor.id
      change current seen)

/-- `planStatus`, which `PausePlan`, `ResumePlan` and `ApplyPlan` call. -/
def planStatus (site : Site) (actor : Actor) (id : UUID) (expected : ℤ) (target : PlanStatus)
    (allowed : List PlanStatus) : CatalogM Plan := do
  if !actor.admin then throw .forbidden
  else if !id.isV7 then invalid "id" "INVALID_ID"
  else if expected < 1 then invalid "revision" "INVALID_REVISION"
  else
    let (plan, _) ← readPlan id
    if !allowed.contains plan.status then throw .planStateInvalid
    else
      let now ← clock
      runTx (updatePlanStatusTx site { plan with status := target, updatedAt := now } expected
        plan.status)

def pausePlan (site : Site) (actor : Actor) (id : UUID) (expected : ℤ) : CatalogM Plan :=
  planStatus site actor id expected .paused [.active]

def resumePlan (site : Site) (actor : Actor) (id : UUID) (expected : ℤ) : CatalogM Plan :=
  planStatus site actor id expected .active [.paused]

def applyPlan (site : Site) (actor : Actor) (id : UUID) (expected : ℤ) : CatalogM Plan :=
  planStatus site actor id expected .active [.draft, .pendingApply, .invalid]

/-! ## `ApplyTemplateToPlans` -/

structure PlanApplyTarget where
  planID : UUID
  expectedRevision : ℤ

/-- `domain.PlanApplyResult`: applied, or a conflict with its code. -/
structure PlanApplyResult where
  planID : UUID
  conflict : Option Text

def applyChange (revision : ℤ) : PlanChange := ⟨none, some revision, none⟩

def attempt {α : Type} (request : CatalogM α) : CatalogProgram (Option Text) := do
  match ← request.run with
  | .ok _ => return none
  | .error _ => return some "SAVE_FAILED".toList

/-- One target of the batch with its conflict, if the plan is found. -/
def applyToPlan (site : Site) (actor : Actor) (templateID : UUID) (revision : ℤ)
    (base : TemplateConfig) (target : PlanApplyTarget) : CatalogM (Option Text) := do
  let (plan, seen) ← readPlan target.planID
  if plan.archivedAt.isSome then return some "PLAN_ARCHIVED".toList
  else if plan.templateID ≠ templateID then return some "NOT_USING_TEMPLATE".toList
  else if plan.desiredRevision ≠ target.expectedRevision then return some "REVISION_CONFLICT".toList
  else match mergePlanConfig site.zones base (.value plan.overrides) with
    | .error _ => return some "INVALID_CONFIG".toList
    | .ok config =>
      let now ← clock
      let next := { plan with templateRevision := revision, updatedAt := now }
      ExceptT.lift (attempt (runTx (savePlanRevisionTx site (next.reconfigure site.digest config)
        target.expectedRevision plan.status actor.id (applyChange revision) plan seen)))

/-- The result of one target; a plan that cannot be read counts as missing. -/
def applyResult (target : PlanApplyTarget) : Except CatalogError (Option Text) → PlanApplyResult
  | .ok conflict => ⟨target.planID, conflict⟩
  | .error _ => ⟨target.planID, some "NOT_FOUND".toList⟩

def applyToPlans (site : Site) (actor : Actor) (templateID : UUID) (revision : ℤ)
    (base : TemplateConfig) : List PlanApplyTarget → CatalogProgram (List PlanApplyResult)
  | [] => return []
  | target :: rest => do
    let result ← (applyToPlan site actor templateID revision base target).run
    let results ← applyToPlans site actor templateID revision base rest
    return applyResult target result :: results

def applyTemplateToPlans (site : Site) (actor : Actor) (templateID : UUID) (revision : ℤ)
    (targets : List PlanApplyTarget) : CatalogM (List PlanApplyResult) := do
  if !actor.admin then throw .forbidden
  else if revision < 1 then invalid "template_revision" "INVALID_REVISION"
  else
    let (template, _) ← readTemplate templateID
    if template.archivedAt.isSome then invalid "template_id" "TEMPLATE_ARCHIVED"
    else if revision > template.currentRevision then invalid "template_revision" "INVALID_REVISION"
    else
      let base ← readRevisionConfig templateID revision
      ExceptT.lift (applyToPlans site actor templateID revision base targets)

/-! ## The server -/

inductive Call where
  | createTemplate (actor : Actor) (name description : Text) (config : TemplateConfig)
  | updateTemplate (actor : Actor) (id : UUID) (expected : ℤ) (change : TemplateChange)
  | archiveTemplate (actor : Actor) (id : UUID) (expected : ℤ)
  | createPlan (actor : Actor) (request : PlanRequest)
  | updatePlan (actor : Actor) (id : UUID) (expected : ℤ) (change : PlanChange)
  | pausePlan (actor : Actor) (id : UUID) (expected : ℤ)
  | resumePlan (actor : Actor) (id : UUID) (expected : ℤ)
  | applyPlan (actor : Actor) (id : UUID) (expected : ℤ)
  | applyTemplateToPlans (actor : Actor) (templateID : UUID) (revision : ℤ)
      (targets : List PlanApplyTarget)
  | fleet (change : FleetChange)

def report {α : Type} (request : CatalogM α) : CatalogProgram Unit := do
  let _ ← request.run
  return ()

def Call.program (site : Site) : Call → CatalogProgram Unit
  | .createTemplate actor name description config =>
    report (Catalog.createTemplate site actor name description config)
  | .updateTemplate actor id expected change =>
    report (Catalog.updateTemplate site actor id expected change)
  | .archiveTemplate actor id expected => report (Catalog.archiveTemplate actor id expected)
  | .createPlan actor request => report (Catalog.createPlan site actor request)
  | .updatePlan actor id expected change => report (Catalog.updatePlan site actor id expected change)
  | .pausePlan actor id expected => report (Catalog.pausePlan site actor id expected)
  | .resumePlan actor id expected => report (Catalog.resumePlan site actor id expected)
  | .applyPlan actor id expected => report (Catalog.applyPlan site actor id expected)
  | .applyTemplateToPlans actor templateID revision targets =>
    report (Catalog.applyTemplateToPlans site actor templateID revision targets)
  | .fleet change => report (runTx (changeFleetTx change))

def arrivals (site : Site) (p : CatalogProgram Unit) : Prop := ∃ c : Call, p = c.program site

abbrev server (site : Site) : System (Tx.State schema) ℕ (Tx.Op schema) (Tx.Reply schema) :=
  Tx.system (M := schema) (arrivals site)

structure Database.Fresh (db : Database) : Prop where
  templates : db.templates = Table.empty
  templateRevisions : db.templateRevisions = Table.empty
  plans : db.plans = Table.empty
  planRevisions : db.planRevisions = Table.empty
  trail : db.trail = []

end RestFleet.Catalog
