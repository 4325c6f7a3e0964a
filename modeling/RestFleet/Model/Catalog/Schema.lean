import RestFleet.Model.Domain.AgentState
import RestFleet.Model.Domain.Plan
import RestFleet.Shared.Journal
import RestFleet.Shared.Table

/-! # The tables of templates and plans

`templates`, `template_revisions`, `plans` and `plan_revisions`, with the other rows that the
transactions on plans read and lock. JSON columns are given by their validated bodies. -/

namespace RestFleet.Catalog

open Domain

abbrev Stamp := ℤ

/-- What the control plane is built with: the zones, SHA-256 and the `lower` of the database. -/
structure Site where
  zones : Zones
  digest : Digest
  lower : Text → Text

inductive PlanStatus where
  | draft | pendingApply | active | paused | invalid
  deriving DecidableEq

structure TemplateRow where
  name : Text
  description : Text
  currentRevision : ℤ
  archivedAt : Option Stamp
  createdAt : Stamp
  updatedAt : Stamp
  deriving DecidableEq

structure RevisionRow where
  config : TemplateConfig
  configHash : Text
  createdBy : UUID
  createdAt : Stamp
  deriving DecidableEq

structure Template where
  id : UUID
  name : Text
  description : Text
  currentRevision : ℤ
  config : TemplateConfig
  archivedAt : Option Stamp
  createdAt : Stamp
  updatedAt : Stamp
  deriving DecidableEq

def TemplateRow.joined (row : TemplateRow) (id : UUID) (revision : RevisionRow) : Template :=
  ⟨id, row.name, row.description, row.currentRevision, revision.config, row.archivedAt,
    row.createdAt, row.updatedAt⟩

structure Plan where
  id : UUID
  name : Text
  hostID : UUID
  agentID : UUID
  repositoryID : UUID
  templateID : UUID
  templateRevision : ℤ
  overrides : Json
  effectiveConfig : TemplateConfig
  configHash : Text
  status : PlanStatus
  desiredRevision : ℤ
  archivedAt : Option Stamp
  createdAt : Stamp
  updatedAt : Stamp

structure AgentRow where
  hostID : UUID
  active : Bool
  desiredRevision : ℤ
  deriving DecidableEq

structure RepositoryRow where
  hostID : UUID
  archivedAt : Option Stamp
  deriving DecidableEq

structure TemplateChange where
  description : Option Text
  config : Option TemplateConfig
  deriving DecidableEq

structure PlanChange where
  name : Option Text
  templateRevision : Option ℤ
  overrides : Option RawMessage

/-- What the fleet does to the rows that plans depend on. -/
inductive FleetChange where
  | enrolled (agentID hostID : UUID) (state : DesiredStateRow)
  | revoked (agentID : UUID)
  | repositoryCreated (id hostID : UUID)
  | repositoryArchived (id : UUID) (now : Stamp)

/-- What the committed transactions did, in order. The entry of a revision carries what its
request asked for, the row that it was built from and how much had been committed when that row
was read. -/
inductive Entry where
  | templateCreated (t : Template) (hash : Text) (actor : UUID)
  | templateRevised (change : TemplateChange) (expected : ℤ) (read : Template) (seen : ℕ)
      (after : Template) (hash : Text) (actor : UUID)
  | templateArchived (id : UUID) (now : Stamp)
  | planCreated (p : Plan) (seen : ℕ) (actor : UUID) (published : Option DesiredStateRow)
  | planRevised (change : PlanChange) (expected : ℤ) (read : Plan) (seen : ℕ) (after : Plan)
      (actor : UUID) (published : Option DesiredStateRow)
  | planStatus (after : Plan) (published : Option DesiredStateRow)
  | fleet (change : FleetChange)

structure Database where
  templates : Table UUID TemplateRow
  templateRevisions : Table (UUID × ℤ) RevisionRow
  plans : Table UUID Plan
  planRevisions : Table (UUID × ℤ) RevisionRow
  agents : Table UUID AgentRow
  states : Table (UUID × ℤ) DesiredStateRow
  repositories : Table UUID RepositoryRow
  trail : List Entry

/-- The locks: rows, the share of a template row that a foreign key takes for a transaction, and
the entries of the unique indexes. -/
inductive Key where
  | template (id : UUID)
  | share (id : UUID) (t : ℕ)
  | templateName (name : Text)
  | plan (id : UUID)
  | planName (hostID : UUID) (name : Text)
  | agent (id : UUID)
  | repository (id : UUID)
  deriving DecidableEq

inductive Choice where
  | uuid
  | clock

abbrev Answer : Choice → Type
  | .uuid => { id : UUID // id.isV7 = true }
  | .clock => Stamp

def present : Key → Database → Bool
  | .template id, db => (db.templates.row id).isSome
  | .plan id, db => (db.plans.row id).isSome
  | .agent id, db => (db.agents.row id).isSome
  | .repository id, db => (db.repositories.row id).isSome
  | _, _ => false

/-- `for key share` and `for update` of one row. -/
def conflicts : Key → Key → Prop
  | .share id _, .template id' => id = id'
  | _, _ => False

instance : DecidableRel conflicts
  | .share id _, .template id' => inferInstanceAs (Decidable (id = id'))
  | .template _, _ | .templateName _, _ | .plan _, _ | .planName _ _, _ | .agent _, _
  | .repository _, _ => inferInstanceAs (Decidable False)
  | .share _ _, .share _ _ | .share _ _, .templateName _ | .share _ _, .plan _
  | .share _ _, .planName _ _ | .share _ _, .agent _ | .share _ _, .repository _ =>
    inferInstanceAs (Decidable False)

abbrev schema : Tx.Schema where
  Db := Database
  Key := Key
  Choice := Choice
  Answer := Answer
  present := present
  conflicts := conflicts

inductive CatalogError where
  | forbidden
  | validation (field code : Text)
  | notFound | alreadyExists | revisionConflict
  | templateNameTaken | templateArchived | templateInUse
  | planNameTaken | planBindingInvalid | planTemplateStale | planStateInvalid
  | desiredState (e : DesiredStateError)
  | database
  deriving DecidableEq

abbrev CatalogM := Tx.Action schema CatalogError

abbrev CatalogProgram := Program (Tx.Op schema) (Tx.Reply schema)

def clock : CatalogM Stamp := Tx.choose (M := schema) .clock

def newV7 : CatalogM UUID := do
  let id ← Tx.choose (M := schema) .uuid
  return id.val

def Database.note (db : Database) (e : Entry) : Database := { db with trail := db.trail ++ [e] }

/-! ## Queries and updates -/

namespace Database

/-- `Store.Template`: the row joined with its current revision. -/
def template? (db : Database) (id : UUID) : Option Template :=
  match db.templates.row id with
  | none => none
  | some row => (db.templateRevisions.row (id, row.currentRevision)).map (row.joined id)

def liveTemplateNamed (lower : Text → Text) (name : Text) (db : Database) : Bool :=
  db.templates.rows.any fun t => t.archivedAt.isNone && lower t.name = lower name

def livePlanNamed (lower : Text → Text) (hostID : UUID) (name : Text) (db : Database) : Bool :=
  db.plans.rows.any fun p => p.archivedAt.isNone && p.hostID = hostID && lower p.name = lower name

def otherPlanNamed (lower : Text → Text) (id hostID : UUID) (name : Text) (db : Database) : Bool :=
  db.plans.rows.any fun p =>
    p.id ≠ id && p.archivedAt.isNone && p.hostID = hostID && lower p.name = lower name

def dependents (db : Database) (templateID : UUID) : ℕ :=
  db.plans.rows.countP fun p => p.templateID = templateID && p.archivedAt.isNone

def activePlans (db : Database) (agentID : UUID) : List Plan :=
  (db.plans.rows.filter fun p => p.agentID = agentID && p.archivedAt.isNone &&
    p.status = .active).insertionSort fun p q => p.id ≤ q.id

def insertTemplate (db : Database) (t : Template) (hash : Text) (actor : UUID) : Database :=
  { db with
    templates := db.templates.insert t.id
      ⟨t.name, t.description, 1, none, t.createdAt, t.createdAt⟩
    templateRevisions := db.templateRevisions.insert (t.id, 1) ⟨t.config, hash, actor, t.createdAt⟩ }

def reviseTemplate (db : Database) (t : Template) (hash : Text) (actor : UUID) : Database :=
  { db with
    templateRevisions :=
      db.templateRevisions.insert (t.id, t.currentRevision) ⟨t.config, hash, actor, t.updatedAt⟩
    templates := db.templates.modify t.id fun row =>
      { row with description := t.description, currentRevision := t.currentRevision,
                 updatedAt := t.updatedAt } }

def archiveTemplate (db : Database) (id : UUID) (now : Stamp) : Database :=
  { db with
    templates := db.templates.modify id fun row =>
      { row with archivedAt := some now, updatedAt := now } }

def insertPlan (db : Database) (p : Plan) : Database := { db with plans := db.plans.insert p.id p }

def updatePlan (db : Database) (p : Plan) : Database :=
  { db with plans := db.plans.modify p.id fun _ => p }

def insertPlanRevision (db : Database) (p : Plan) (actor : UUID) (now : Stamp) : Database :=
  { db with
    planRevisions :=
      db.planRevisions.insert (p.id, p.desiredRevision) ⟨p.effectiveConfig, p.configHash, actor, now⟩ }

def insertState (db : Database) (row : DesiredStateRow) : Database :=
  { db with
    states := db.states.insert (row.agentID, row.revision) row
    agents := db.agents.modify row.agentID fun a => { a with desiredRevision := row.revision } }

def insertState? (db : Database) (published : Option DesiredStateRow) : Database :=
  published.elim db db.insertState

def changeFleet (db : Database) : FleetChange → Database
  | .enrolled agentID hostID state =>
    { db with
      agents := db.agents.insert agentID ⟨hostID, true, state.revision⟩
      states := db.states.insert (agentID, state.revision) state }
  | .revoked agentID => { db with agents := db.agents.modify agentID fun a => { a with active := false } }
  | .repositoryCreated id hostID =>
    { db with repositories := db.repositories.insert id ⟨hostID, none⟩ }
  | .repositoryArchived id now =>
    { db with repositories := db.repositories.modify id fun r => { r with archivedAt := some now } }

end Database

def Plan.schedule (p : Plan) : PlanSchedule where
  planID := p.id
  revision := p.desiredRevision
  name := p.name
  hostID := p.hostID
  repositoryID := p.repositoryID
  cron := p.effectiveConfig.scheduleCron
  timezone := p.effectiveConfig.scheduleTimezone
  jitterSeconds := p.effectiveConfig.jitterSeconds
  misfireGraceSeconds := p.effectiveConfig.misfireGraceSeconds
  concurrencyPolicy := "FORBID".toList
  paths := p.effectiveConfig.paths
  excludePatterns := p.effectiveConfig.excludePatterns
  excludeCaches := p.effectiveConfig.excludeCaches
  oneFileSystem := p.effectiveConfig.oneFileSystem
  configHash := p.configHash
  execution := p.effectiveConfig.backupExecution

/-- The state that is published for a list of plans, with its hash. -/
def publishedState (digest : Digest) (agentID : UUID) (revision : ℤ) (policy : RuntimePolicy)
    (now : Stamp) (plans : List Plan) : DesiredState :=
  let state : DesiredState := ⟨agentID, revision, now, [], policy, plans.map Plan.schedule⟩
  { state with configHash := state.expectedHash digest }

def stateRow (s : DesiredState) : DesiredStateRow :=
  ⟨s.agentID, s.revision, s.generatedAt, s.configHash, s.encode⟩

/-- The row that `publishAgentDesiredState` inserts, once the state is valid. -/
def publishRow (site : Site) (agentID : UUID) (revision : ℤ) (policy : RuntimePolicy)
    (now : Stamp) (plans : List Plan) : Except DesiredStateError DesiredStateRow := do
  let state := publishedState site.digest agentID revision policy now plans
  state.validate site.digest site.zones
  pure (stateRow state)

def storedPolicy : Json → Option RuntimePolicy
  | .null => some .zero
  | .obj ms => Json.field "runtime_policy".toList RuntimePolicy.decode .zero ms
  | _ => none

end RestFleet.Catalog
