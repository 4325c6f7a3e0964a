import RestFleet.Model.Catalog.Schema

/-! # The transactions on templates and plans

`template.go` and `plan.go` of the store. Audit events and the outbox are left out. -/

namespace RestFleet.Catalog

open Domain
open Tx (view write lock claim self commit)

def query {α : Type} (f : Database → α) : CatalogM α :=
  ExceptT.mk (Tx.transaction do
    let db ← view
    return f db)

def queryRow {α : Type} (f : Database → Option α) : CatalogM α := do
  match ← query f with
  | none => throw .notFound
  | some a => return a

/-! ## Templates -/

def createTemplateTx (site : Site) (t : Template) (actor : UUID) : CatalogM Template := do
  if (← view).liveTemplateNamed site.lower t.name then throw .templateNameTaken
  else
    claim (.template t.id)
    claim (.templateName (site.lower t.name))
    let db ← view
    if (db.templates.row t.id).isSome || db.liveTemplateNamed site.lower t.name then
      throw .alreadyExists
    else
      let hash := t.config.configHash site.digest
      write fun db => (db.insertTemplate t hash actor).note (.templateCreated t hash actor)
      commit
      return { t with currentRevision := 1 }

/-- `select current_revision,archived_at from templates where id=$1 for update`, and the checks
of both writers. -/
def lockTemplate (id : UUID) (expected : ℤ) : CatalogM TemplateRow := do
  if ← lock (.template id) then
    match (← view).templates.row id with
    | none => throw .notFound
    | some current =>
      if current.archivedAt.isSome then throw .templateArchived
      else if current.currentRevision ≠ expected then throw .revisionConflict
      else return current
  else throw .notFound

def TemplateRow.revised (before : TemplateRow) (t : Template) : Template :=
  ⟨t.id, before.name, t.description, before.currentRevision + 1, t.config, before.archivedAt,
    before.createdAt, t.updatedAt⟩

/-- The transaction of `Store.SaveTemplateRevision`. What the request asked for and read is only
noted. -/
def saveTemplateRevisionTx (site : Site) (t : Template) (expected : ℤ) (actor : UUID)
    (change : TemplateChange) (read : Template) (seen : ℕ) : CatalogM Template := do
  let before ← lockTemplate t.id expected
  let hash := t.config.configHash site.digest
  let after := before.revised t
  if ((← view).templateRevisions.row (t.id, after.currentRevision)).isSome then throw .alreadyExists
  else
    write fun db => (db.reviseTemplate after hash actor).note
      (.templateRevised change expected read seen after hash actor)
    commit
    return { t with currentRevision := after.currentRevision }

def archiveTemplateTx (id : UUID) (expected : ℤ) (now : Stamp) : CatalogM Unit := do
  let _ ← lockTemplate id expected
  if (← view).dependents id > 0 then throw .templateInUse
  else
    write fun db => (db.archiveTemplate id now).note (.templateArchived id now)
    commit

/-! ## Publication -/

/-- `publishAgentDesiredState`; none for an Agent that is not ACTIVE. -/
def publishAgentDesiredState (site : Site) (agentID : UUID) (now : Stamp) :
    CatalogM (Option DesiredStateRow) := do
  if ← lock (.agent agentID) then
    match (← view).agents.row agentID with
    | none => throw .notFound
    | some agent =>
      if !agent.active then return none
      else
        match (← view).states.row (agentID, agent.desiredRevision) with
        | none => throw .notFound
        | some current =>
          match storedPolicy current.configJSON with
          | none => throw .database
          | some policy =>
            let plans := (← view).activePlans agentID
            match publishRow site agentID (agent.desiredRevision + 1) policy now plans with
            | .error e => throw (.desiredState e)
            | .ok row =>
              if ((← view).states.row (row.agentID, row.revision)).isSome then throw .database
              else
                write (·.insertState row)
                return some row
  else throw .notFound

/-! ## Plans -/

def lockBinding (p : Plan) : CatalogM Unit := do
  if ← lock (.agent p.agentID) then
    match (← view).agents.row p.agentID with
    | none => throw .notFound
    | some agent =>
      if agent.hostID ≠ p.hostID || !agent.active then throw .planBindingInvalid
      else if ← lock (.repository p.repositoryID) then
        match (← view).repositories.row p.repositoryID with
        | none => throw .notFound
        | some repository =>
          if repository.archivedAt.isSome then throw .notFound
          else if repository.hostID ≠ p.hostID then throw .planBindingInvalid
          else return ()
      else throw .notFound
  else throw .notFound

def templateRevisionExists (p : Plan) : CatalogM Unit := do
  if ((← view).templateRevisions.row (p.templateID, p.templateRevision)).isSome then return ()
  else throw .planTemplateStale

/-- `insert into plans`, with its unique indexes and the foreign key on the template. -/
def insertPlan (site : Site) (p : Plan) : CatalogM Unit := do
  claim (.plan p.id)
  claim (.planName p.hostID (site.lower p.name))
  let db ← view
  if (db.plans.row p.id).isSome || db.livePlanNamed site.lower p.hostID p.name then
    throw .alreadyExists
  else
    claim (.share p.templateID (← self))
    if ((← view).templates.row p.templateID).isSome then write (·.insertPlan p)
    else throw .database

def createPlanTx (site : Site) (p : Plan) (actor : UUID) (seen : ℕ) : CatalogM Plan := do
  lockBinding p
  templateRevisionExists p
  if (← view).livePlanNamed site.lower p.hostID p.name then throw .planNameTaken
  else
    insertPlan site p
    write (·.insertPlanRevision p actor p.createdAt)
    let published ← publishAgentDesiredState site p.agentID p.createdAt
    write (·.note (.planCreated p seen actor published))
    commit
    return p

def lockPlanAgent (planID expectedAgentID : UUID) : CatalogM Unit := do
  match (← view).plans.row planID with
  | none => throw .notFound
  | some p =>
    if ← lock (.agent p.agentID) then
      if p.agentID ≠ expectedAgentID then throw .planBindingInvalid else return ()
    else throw .notFound

def lockPlan (id agentID : UUID) (expected : ℤ) (expectedStatus : PlanStatus) : CatalogM Plan := do
  lockPlanAgent id agentID
  if ← lock (.plan id) then
    match (← view).plans.row id with
    | none => throw .notFound
    | some current =>
      if current.archivedAt.isSome then throw .notFound
      else if current.desiredRevision ≠ expected then throw .revisionConflict
      else if current.status ≠ expectedStatus then throw .planStateInvalid
      else return current
  else throw .notFound

def Plan.revised (before p : Plan) : Plan :=
  { before with
    name := p.name, templateID := p.templateID, templateRevision := p.templateRevision
    overrides := p.overrides, effectiveConfig := p.effectiveConfig, configHash := p.configHash
    status := p.status, desiredRevision := before.desiredRevision + 1, updatedAt := p.updatedAt }

def updatePlanRow (site : Site) (after : Plan) : CatalogM Unit := do
  claim (.planName after.hostID (site.lower after.name))
  if (← view).otherPlanNamed site.lower after.id after.hostID after.name then throw .alreadyExists
  else write (·.updatePlan after)

def savePlanRevisionTx (site : Site) (p : Plan) (expected : ℤ) (expectedStatus : PlanStatus)
    (actor : UUID) (change : PlanChange) (read : Plan) (seen : ℕ) : CatalogM Plan := do
  let before ← lockPlan p.id p.agentID expected expectedStatus
  templateRevisionExists p
  let after := before.revised p
  if ((← view).planRevisions.row (p.id, after.desiredRevision)).isSome then throw .alreadyExists
  else
    write (·.insertPlanRevision after actor p.updatedAt)
    updatePlanRow site after
    let published ← publishAgentDesiredState site p.agentID p.updatedAt
    write (·.note (.planRevised change expected read seen after actor published))
    commit
    return { p with desiredRevision := after.desiredRevision }

def updatePlanStatusTx (site : Site) (p : Plan) (expected : ℤ) (expectedStatus : PlanStatus) :
    CatalogM Plan := do
  let before ← lockPlan p.id p.agentID expected expectedStatus
  let after := { before with status := p.status, updatedAt := p.updatedAt }
  write (·.updatePlan after)
  let published ← publishAgentDesiredState site p.agentID p.updatedAt
  write (·.note (.planStatus after published))
  commit
  return { p with desiredRevision := before.desiredRevision }

/-! ## The fleet -/

def FleetChange.key : FleetChange → Key
  | .enrolled id _ _ | .revoked id => .agent id
  | .repositoryCreated id _ | .repositoryArchived id _ => .repository id

/-- Whether the change inserts a row that exists already. -/
def FleetChange.taken (db : Database) : FleetChange → Bool
  | .enrolled id _ state =>
    (db.agents.row id).isSome || (db.states.row (id, state.revision)).isSome
  | .repositoryCreated id _ => (db.repositories.row id).isSome
  | .revoked _ | .repositoryArchived _ _ => false

/-- A transaction of the fleet, reduced to the rows that plans depend on. -/
def changeFleetTx (change : FleetChange) : CatalogM Unit := do
  claim change.key
  if change.taken (← view) then throw .alreadyExists
  else
    write fun db => (db.changeFleet change).note (.fleet change)
    commit

end RestFleet.Catalog
