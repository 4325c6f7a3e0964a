import RestFleet.Shared.History
import RestFleet.Model.Catalog.Server

/-! # The history of templates and plans

Every commit is one entry, which fits when it is what a request may append. -/

namespace RestFleet.Catalog

open Domain

namespace Entry

def effect : Entry → Database → Database
  | .templateCreated t hash actor, db => db.insertTemplate t hash actor
  | .templateRevised _ _ _ _ after hash actor, db => db.reviseTemplate after hash actor
  | .templateArchived id now, db => db.archiveTemplate id now
  | .planCreated p _ actor published, db =>
    ((db.insertPlan p).insertPlanRevision p actor p.createdAt).insertState? published
  | .planRevised _ _ _ _ after actor published, db =>
    ((db.insertPlanRevision after actor after.updatedAt).updatePlan after).insertState? published
  | .planStatus after published, db => (db.updatePlan after).insertState? published
  | .fleet change, db => db.changeFleet change

def commit (e : Entry) (db : Database) : Database := (e.effect db).note e

def plan (id : UUID) : Entry → Option Plan → Option Plan
  | .planCreated p _ _ _, x => if p.id = id then some p else x
  | .planRevised _ _ _ _ after _ _, x | .planStatus after _, x => if after.id = id then some after else x
  | _, x => x

def template (id : UUID) : Entry → Option Template → Option Template
  | .templateCreated t _ _, x => if t.id = id then some t else x
  | .templateRevised _ _ _ _ after _ _, x => if after.id = id then some after else x
  | .templateArchived i now, x =>
    if i = id then x.map fun t => { t with archivedAt := some now, updatedAt := now } else x
  | _, x => x

/-- The body of a template revision after an entry. -/
def revision (key : UUID × ℤ) : Entry → Option TemplateConfig → Option TemplateConfig
  | .templateCreated t _ _, x => if (t.id, 1) = key then some t.config else x
  | .templateRevised _ _ _ _ after _ _, x =>
    if (after.id, after.currentRevision) = key then some after.config else x
  | _, x => x

/-- The rows that an entry may change. A new plan counts as a change of its template. -/
def touches : Entry → Key → Prop
  | .templateCreated t _ _, k => k = .template t.id
  | .templateRevised _ _ _ _ after _ _, k => k = .template after.id
  | .templateArchived id _, k => k = .template id
  | .planCreated p _ _ _, k => k = .plan p.id ∨ k = .template p.templateID
  | .planRevised _ _ _ _ after _ _, k | .planStatus after _, k => k = .plan after.id
  | .fleet _, _ => False

def archives (id : UUID) : Entry → Bool
  | .templateArchived i _ => i = id
  | _ => false

end Entry

def planAt (trail : List Entry) (id : UUID) : Option Plan :=
  trail.foldl (fun x e => e.plan id x) none

def templateAt (trail : List Entry) (id : UUID) : Option Template :=
  trail.foldl (fun x e => e.template id x) none

def revisionAt (trail : List Entry) (key : UUID × ℤ) : Option TemplateConfig :=
  trail.foldl (fun x e => e.revision key x) none

section Snoc

variable {trail : List Entry} {e : Entry}

@[simp] theorem planAt_snoc {id : UUID} :
    planAt (trail ++ [e]) id = e.plan id (planAt trail id) := by
  simp [planAt]

@[simp] theorem templateAt_snoc {id : UUID} :
    templateAt (trail ++ [e]) id = e.template id (templateAt trail id) := by
  simp [templateAt]

@[simp] theorem revisionAt_snoc {key : UUID × ℤ} :
    revisionAt (trail ++ [e]) key = e.revision key (revisionAt trail key) := by
  simp [revisionAt]

end Snoc

/-! ## Entries that fit -/

/-- A configuration that follows from a template revision and overrides. -/
structure Derived (site : Site) (trail : List Entry) (read next : Plan) : Prop where
  merged : ∃ base, revisionAt trail (read.templateID, next.templateRevision) = some base ∧
    mergePlanConfig site.zones base (.value next.overrides) = .ok next.effectiveConfig
  hash : next.configHash = next.effectiveConfig.configHash site.digest
  status : next.status = read.status.afterChange

/-- The version that a request builds from the row that it has read. -/
structure Built (site : Site) (trail : List Entry) (change : PlanChange) (read next : Plan) :
    Prop where
  template : next.templateID = read.templateID
  name : next.name = (change.name.map Text.trimSpace).getD read.name
  named : ∀ name, change.name = some name → validTemplateText name.trimSpace 1 128 = true
  revision : next.templateRevision = change.templateRevision.getD read.templateRevision
  overrides : change.overrides = none → next.overrides = read.overrides
  normalized : ∀ raw, change.overrides = some raw → normalizeOverrides raw = .ok next.overrides
  config : (next.effectiveConfig = read.effectiveConfig ∧ next.configHash = read.configHash ∧
      next.status = read.status) ∨
    ((change.overrides.isSome ∨ change.templateRevision.isSome) ∧ Derived site trail read next)

/-- A plan as `CreatePlan` accepts it. -/
structure NewPlan (site : Site) (p : Plan) : Prop where
  id : p.id.isV7 = true
  repositoryID : p.repositoryID.isV7 = true
  name : validTemplateText p.name 1 128 = true
  config : p.effectiveConfig.validate site.zones = .ok ()
  revision : p.desiredRevision = 1
  archivedAt : p.archivedAt = none

/-- What a transaction has checked when it commits an entry. -/
def Entry.Fits (site : Site) (trail : List Entry) : Entry → Prop
  | .templateCreated t _ _ =>
    templateAt trail t.id = none ∧ revisionAt trail (t.id, 1) = none ∧ t.currentRevision = 1 ∧
      t.archivedAt = none ∧ t.updatedAt = t.createdAt
  | .templateRevised change expected read seen after _ _ =>
    seen ≤ trail.length ∧ templateAt (trail.take seen) after.id = some read ∧
      revisionAt trail (after.id, after.currentRevision) = none ∧
      ∃ before now, templateAt trail after.id = some before ∧ before.archivedAt = none ∧
        before.currentRevision = expected ∧
        after = { change.apply read now with
          name := before.name, createdAt := before.createdAt, archivedAt := before.archivedAt
          currentRevision := before.currentRevision + 1 }
  | .templateArchived id _ =>
    (∃ before, templateAt trail id = some before ∧ before.archivedAt = none) ∧
      ∀ planID p, planAt trail planID = some p → p.templateID = id → p.archivedAt.isSome
  | .planCreated p seen _ _ =>
    planAt trail p.id = none ∧ NewPlan site p ∧ seen ≤ trail.length ∧
      ∃ t, templateAt (trail.take seen) p.templateID = some t ∧ t.archivedAt = none
  | .planRevised change expected read seen after _ _ =>
    seen ≤ trail.length ∧ planAt (trail.take seen) after.id = some read ∧
      ∃ before next, planAt trail after.id = some before ∧ before.archivedAt = none ∧
        before.desiredRevision = expected ∧ before.status = read.status ∧
        before.templateID = read.templateID ∧ Built site trail change read next ∧
        after = before.revised next
  | .planStatus after _ =>
    ∃ before status now, planAt trail after.id = some before ∧
      after = { before with status := status, updatedAt := now }
  | .fleet _ => True

def journal (site : Site) : Tx.Journal schema where
  Event := Entry
  initial := Database.Fresh
  apply := Entry.commit
  guard := fun e db => e.Fits site db.trail
  touches := Entry.touches

variable {site : Site} {db db' : Database} {e : Entry} {trail : List Entry}

theorem trail_insertState? (db : Database) (published : Option DesiredStateRow) :
    (db.insertState? published).trail = db.trail := by
  cases published <;> rfl

theorem trail_effect (e : Entry) (db : Database) : (e.effect db).trail = db.trail := by
  cases e with
  | planCreated p seen actor published => exact trail_insertState? _ published
  | planRevised change expected read seen after actor published => exact trail_insertState? _ published
  | planStatus after published => exact trail_insertState? _ published
  | fleet change => cases change <;> rfl
  | _ => rfl

@[simp] theorem trail_commit (e : Entry) (db : Database) : (e.commit db).trail = db.trail ++ [e] := by
  change (e.effect db).trail ++ [e] = _
  rw [trail_effect]

theorem checked_of_reaches (h : (journal site).Reaches db) :
    Checked (Entry.Fits site) db.trail := by
  refine h.invariant (P := fun db : Database => Checked (Entry.Fits site) db.trail) ?_ ?_
  · intro db hs
    rw [Database.Fresh.trail hs]
    exact Checked.nil
  · rintro (e : Entry) (db : Database) (hg : e.Fits site db.trail) hc
    change Checked _ (e.commit db).trail
    rw [trail_commit]
    exact hc.snoc hg

end RestFleet.Catalog
