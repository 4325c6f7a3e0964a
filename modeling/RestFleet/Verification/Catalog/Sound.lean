import RestFleet.Shared.Request
import RestFleet.Shared.Schedule
import RestFleet.Verification.Catalog.Transactions

/-! # The requests refine the history

Between its transactions a request keeps only facts that no commit ends. -/

namespace RestFleet.Catalog

open Domain

/-- A request that starts when `P` holds, and what it knows when it does not fail. -/
abbrev Request {α : Type} (site : Site) (t : ℕ) (P : Database → Prop) (p : CatalogM α)
    (Q : α → Database → Prop) : Prop :=
  Spec site t (fun s => P s.db) p fun a s => Q a s.db

variable {site : Site} {t : ℕ} {P : Database → Prop} {α : Type}

theorem clock_request (hP : Persists site P) : Request site t P clock fun _ => P :=
  Tx.Request.choose (M := schema) hP .clock

theorem newV7_request (hP : Persists site P) :
    Request site t P newV7 fun i db => i.isV7 = true ∧ P db := by
  refine Tx.Body.bind (Tx.Request.choose (M := schema) hP .uuid) fun i => ?_
  exact Tx.Body.pure (hP.stable) fun _ _ h => ⟨i.property, h⟩

/-- A query for one row, with what lasts of the row that it finds. -/
theorem queryRow_request {g : Database → Option α} {R : α → Database → Prop}
    (hP : Persists site P) (hR : ∀ a, Persists site (R a))
    (hg : ∀ db, (journal site).Reaches db → P db → ∀ a, g db = some a → R a db) :
    Request site t P (queryRow g) R := by
  refine Tx.Body.bind (Tx.Request.query (R := fun x db => ∀ a, x = some a → R a db) hP ?_ ?_)
    fun x => ?_
  · exact fun x db db' he h a ha => hR a db db' he (h a ha)
  · exact fun db hr h a ha => hg db hr h a ha
  · cases x with
    | none => exact Tx.Body.throw
    | some a =>
        refine Tx.Body.conseq (Tx.Request.pure (hR a)) (fun s h => h a rfl) ?_
        rintro b s - ⟨rfl, h⟩
        exact h

theorem templateValidation_request {x : Except TemplateError α} (hP : Persists site P) :
    Request site t P (templateValidation x) fun a db => x = .ok a ∧ P db := by
  cases x with
  | error e => exact Tx.Body.throw
  | ok a =>
      refine Tx.Body.conseq (Tx.Request.pure hP) (fun _ h => h) ?_
      rintro b s - ⟨rfl, h⟩
      exact ⟨rfl, h⟩

/-! ## Reads -/

/-- A version that was read when `n` entries had been committed. -/
def SeenPlan (i : UUID) (r : Plan × ℕ) (db : Database) : Prop :=
  r.1.id = i ∧ r.2 ≤ db.trail.length ∧ planAt (db.trail.take r.2) i = some r.1

def SeenTemplate (i : UUID) (r : Template × ℕ) (db : Database) : Prop :=
  r.1.id = i ∧ r.2 ≤ db.trail.length ∧ templateAt (db.trail.take r.2) i = some r.1

theorem persists_seenPlan {i : UUID} {r : Plan × ℕ} : Persists site (SeenPlan i r) :=
  Tx.persists_const.and (persists_take (F := fun trail => planAt trail i = some r.1))

theorem persists_seenTemplate {i : UUID} {r : Template × ℕ} : Persists site (SeenTemplate i r) :=
  Tx.persists_const.and (persists_take (F := fun trail => templateAt trail i = some r.1))

theorem readPlan_request (hP : Persists site P) (i : UUID) :
    Request site t P (readPlan i) fun r db => SeenPlan i r db ∧ P db := by
  refine queryRow_request hP (fun r => persists_seenPlan.and hP) ?_
  intro db hr h r hread
  obtain ⟨p, hp, rfl⟩ := Option.map_eq_some_iff.mp hread
  rw [(replays_of_reaches hr).plans] at hp
  refine ⟨⟨planAt_id hp, Nat.le_refl _, ?_⟩, h⟩
  rw [List.take_length]
  exact hp

theorem readTemplate_request (hP : Persists site P) (i : UUID) :
    Request site t P (readTemplate i) fun r db => SeenTemplate i r db ∧ P db := by
  refine queryRow_request hP (fun r => persists_seenTemplate.and hP) ?_
  intro db hr h r hread
  obtain ⟨p, hp, rfl⟩ := Option.map_eq_some_iff.mp hread
  rw [(replays_of_reaches hr).templates] at hp
  refine ⟨⟨templateAt_id hp, Nat.le_refl _, ?_⟩, h⟩
  rw [List.take_length]
  exact hp

theorem readRevisionConfig_request (hP : Persists site P) (i : UUID) (n : ℤ) :
    Request site t P (readRevisionConfig i n) fun base db =>
      revisionAt db.trail (i, n) = some base ∧ P db := by
  refine queryRow_request hP (fun base => persists_revision.and hP) ?_
  intro db hr h base hread
  exact ⟨by rw [← (replays_of_reaches hr).revisions, hread], h⟩

/-! ## Templates -/

theorem createTemplate_request (actor : Actor) (name description : Text) (config : TemplateConfig) :
    Request site t (fun _ => True) (createTemplate site actor name description config)
      fun _ _ => True := by
  unfold createTemplate
  split
  · exact Tx.Body.throw
  split
  · exact Tx.Body.throw
  split
  · exact Tx.Body.throw
  refine Tx.Body.bind (templateValidation_request Tx.persists_const) fun _ => Tx.Body.of_pre fun _ => ?_
  refine Tx.Body.bind (newV7_request Tx.persists_const) fun i => Tx.Body.of_pre fun _ => ?_
  refine Tx.Body.bind (clock_request Tx.persists_const) fun now => ?_
  exact Tx.Request.transaction Tx.persists_const (createTemplateTx_spec rfl rfl rfl actor.id)

theorem checkTemplateChange_request (hP : Persists site P) (change : TemplateChange) :
    Request site t P (checkTemplateChange site change) fun _ => P := by
  unfold checkTemplateChange
  split
  · exact Tx.Body.throw
  split
  · exact (templateValidation_request hP).conseq (fun _ h => h) fun _ _ _ h => h.2
  · exact (Tx.Request.pure hP).conseq (fun _ h => h) fun _ _ _ h => h.2

theorem updateTemplate_request (actor : Actor) (i : UUID) (expected : ℤ) (change : TemplateChange) :
    Request site t (fun _ => True) (updateTemplate site actor i expected change)
      fun _ _ => True := by
  unfold updateTemplate
  split
  · exact Tx.Body.throw
  split
  · exact Tx.Body.throw
  split
  · exact Tx.Body.throw
  refine Tx.Body.bind (readTemplate_request Tx.persists_const i) fun (read, seen) => ?_
  have hseen : Persists site fun db => SeenTemplate i (read, seen) db ∧ True :=
    persists_seenTemplate.and Tx.persists_const
  refine Tx.Body.bind (checkTemplateChange_request hseen change) fun _ => ?_
  refine Tx.Body.bind (clock_request hseen) fun now => ?_
  refine Tx.Request.transaction hseen ((saveTemplateRevisionTx_spec now expected actor.id).conseq ?_
    fun _ _ _ h => h)
  intro s hs
  refine hs.mono (fun _ hk => hk) ?_
  rintro ⟨⟨hid, hle, hat⟩, -⟩
  rw [← hid] at hat
  exact ⟨hle, hat⟩

theorem archiveTemplate_request (actor : Actor) (i : UUID) (expected : ℤ) :
    Request site t (fun _ => True) (archiveTemplate actor i expected) fun _ _ => True := by
  unfold archiveTemplate
  split
  · exact Tx.Body.throw
  split
  · exact Tx.Body.throw
  split
  · exact Tx.Body.throw
  refine Tx.Body.bind (clock_request Tx.persists_const) fun now => ?_
  refine Tx.Body.bind (Tx.Request.transaction Tx.persists_const (archiveTemplateTx_spec i expected now))
    fun _ => ?_
  exact queryRow_request (R := fun _ _ => True) Tx.persists_const (fun _ => Tx.persists_const)
    fun _ _ _ _ _ => trivial

/-! ## Plans -/

theorem validate_of_merge {zones : Zones} {base config : TemplateConfig} {raw : RawMessage}
    (h : mergePlanConfig zones base raw = .ok config) : config.validate zones = .ok () := by
  simp only [mergePlanConfig, bind, Except.bind] at h
  split at h
  · cases h
  split at h
  · cases h
  split at h
  · cases h
  · rename_i hvalid
    cases h
    exact hvalid

theorem PlanRequest.isV7_of_valid {r : PlanRequest} (h : r.invalidID = none) :
    r.repositoryID.isV7 = true := by
  have hall := List.find?_eq_none.mp (Option.map_eq_none_iff.mp h)
  simpa using hall ("repository_id", r.repositoryID) (by simp)

theorem createPlan_request (actor : Actor) (r : PlanRequest) :
    Request site t (fun _ => True) (createPlan site actor r) fun _ _ => True := by
  unfold createPlan
  split
  · exact Tx.Body.throw
  split
  · exact Tx.Body.throw
  rename_i hname
  split
  · exact Tx.Body.throw
  rename_i hids
  refine Tx.Body.bind (readTemplate_request Tx.persists_const r.templateID) fun (template, seen) => ?_
  have hseen : Persists site fun db => SeenTemplate r.templateID (template, seen) db ∧ True :=
    persists_seenTemplate.and Tx.persists_const
  dsimp only
  split
  · exact Tx.Body.throw
  rename_i hlive
  split
  · exact Tx.Body.throw
  refine Tx.Body.bind (readRevisionConfig_request hseen r.templateID r.templateRevision)
    fun base => Tx.Body.conseq (A := fun s => SeenTemplate r.templateID (template, seen) s.db ∧ True)
      ?_ (fun _ h => h.2) fun _ _ _ h => h
  refine Tx.Body.bind (templateValidation_request hseen) fun config => Tx.Body.of_pre fun hmerge => ?_
  refine Tx.Body.bind (templateValidation_request hseen) fun overrides => Tx.Body.of_pre fun _ => ?_
  refine Tx.Body.bind (newV7_request hseen) fun i => Tx.Body.of_pre fun hid => ?_
  refine Tx.Body.bind (clock_request hseen) fun now => ?_
  refine Tx.Request.transaction hseen ((createPlanTx_spec ?_ actor.id seen).conseq ?_
    fun _ _ _ h => h)
  · exact
      { id := hid
        repositoryID := PlanRequest.isV7_of_valid hids
        name := by simpa using hname
        config := validate_of_merge hmerge
        revision := rfl
        archivedAt := rfl }
  · intro s hs
    refine hs.mono (fun _ hk => hk) ?_
    rintro ⟨⟨-, hle, hat⟩, -⟩
    exact ⟨hle, template, hat, by simpa using hlive⟩

/-! ### The version that an update builds -/

theorem checkName_request (hP : Persists site P) (read : Plan) (asked : Option Text) :
    Request site t P (checkName read asked) fun name db =>
      (name = (asked.map Text.trimSpace).getD read.name ∧
        ∀ n, asked = some n → validTemplateText n.trimSpace 1 128 = true) ∧ P db := by
  cases asked with
  | none => exact Tx.Body.pure (hP.stable) fun _ _ h => ⟨⟨rfl, nofun⟩, h⟩
  | some n =>
      dsimp only [checkName]
      split
      · exact Tx.Body.throw
      rename_i hvalid
      refine Tx.Body.pure (hP.stable) fun _ _ h => ⟨⟨rfl, ?_⟩, h⟩
      rintro _ ⟨⟩
      simpa using hvalid

theorem checkOverrides_request (hP : Persists site P) (read : Plan) (asked : Option RawMessage) :
    Request site t P (checkOverrides read asked) fun overrides db =>
      ((asked = none → overrides = read.overrides) ∧
        ∀ raw, asked = some raw → normalizeOverrides raw = .ok overrides) ∧ P db := by
  cases asked with
  | none => exact Tx.Body.pure (hP.stable) fun _ _ h => ⟨⟨fun _ => rfl, nofun⟩, h⟩
  | some raw =>
      refine (templateValidation_request hP).conseq (fun _ h => h) ?_
      rintro overrides s - ⟨hnorm, h⟩
      refine ⟨⟨nofun, ?_⟩, h⟩
      rintro _ ⟨⟩
      exact hnorm

theorem checkTemplateRevision_request (hP : Persists site P) (read : Plan) (asked : Option ℤ) :
    Request site t P (checkTemplateRevision read asked) fun revision db =>
      revision = asked.getD read.templateRevision ∧ P db := by
  cases asked with
  | none => exact Tx.Request.pure hP
  | some revision =>
      dsimp only [checkTemplateRevision]
      split
      · exact Tx.Body.throw
      refine Tx.Body.bind (readTemplate_request hP read.templateID) fun (template, seen) => ?_
      dsimp only
      split
      · exact Tx.Body.throw
      · exact (Tx.Request.pure hP).conseq (fun _ h => h.2) fun _ _ _ h => h

/-- A configuration changes only for a request that asks for overrides or a template revision. -/
theorem asked_of_changed {change : PlanChange} {read : Plan} {revision : ℤ}
    (h : (change.overrides.isSome || decide (revision ≠ read.templateRevision)) = true)
    (hrev : revision = change.templateRevision.getD read.templateRevision) :
    change.overrides.isSome ∨ change.templateRevision.isSome := by
  rw [Bool.or_eq_true, decide_eq_true_eq] at h
  refine h.imp_right fun hne => ?_
  cases hasked : change.templateRevision with
  | none => simp [hrev, hasked] at hne
  | some n => rfl

/-- A version of a plan under construction: what is asked for, on the row that was read. -/
theorem build_request (hP : Persists site P) (change : PlanChange) (read : Plan) :
    Request site t P (change.build site read) fun next db =>
      next.id = read.id ∧ Built site db.trail change read next ∧ P db := by
  unfold PlanChange.build
  refine Tx.Body.bind (checkName_request hP read change.name) fun name =>
    Tx.Body.of_pre fun hname => ?_
  refine Tx.Body.bind (checkOverrides_request hP read change.overrides) fun overrides =>
    Tx.Body.of_pre fun hover => ?_
  refine Tx.Body.bind (checkTemplateRevision_request hP read change.templateRevision)
    fun revision => Tx.Body.of_pre fun hrev => ?_
  dsimp only
  split
  · rename_i hchanged
    refine Tx.Body.bind (readRevisionConfig_request hP read.templateID revision) fun base => ?_
    have hbase : Persists site fun db =>
        revisionAt db.trail (read.templateID, revision) = some base ∧ P db :=
      persists_revision.and hP
    refine Tx.Body.bind (templateValidation_request hbase) fun config =>
      Tx.Body.of_pre fun hmerge => ?_
    refine Tx.Body.pure hbase.stable fun s _ h => ⟨rfl, ?_, h.2⟩
    exact
      { template := rfl, name := hname.1, named := hname.2, revision := hrev
        overrides := hover.1, normalized := hover.2
        config := Or.inr ⟨asked_of_changed hchanged hrev, ⟨base, h.1, hmerge⟩, rfl, rfl⟩ }
  · refine Tx.Body.pure (hP.stable) fun s _ h => ⟨rfl, ?_, h⟩
    exact
      { template := rfl, name := hname.1, named := hname.2, revision := hrev
        overrides := hover.1, normalized := hover.2, config := Or.inl ⟨rfl, rfl, rfl⟩ }

theorem Built.at {trail : List Entry} {change : PlanChange} {read next : Plan}
    (h : Built site trail change read next) (now : Stamp) :
    Built site trail change read { next with updatedAt := now } where
  template := h.template
  name := h.name
  named := h.named
  revision := h.revision
  overrides := h.overrides
  normalized := h.normalized
  config := h.config.imp_right fun hd => ⟨hd.1, hd.2.merged, hd.2.hash, hd.2.status⟩

theorem savePlan_request {change : PlanChange} {read p : Plan} {seen : ℕ} {i : UUID}
    (hP : Persists site P) (hid : p.id = read.id)
    (h : ∀ db, P db → SeenPlan i (read, seen) db ∧ Built site db.trail change read p)
    (expected : ℤ) (actor : UUID) :
    Request site t P (runTx (savePlanRevisionTx site p expected read.status actor change read
      seen)) fun _ _ => True := by
  refine Tx.Request.transaction hP ((savePlanRevisionTx_spec hid expected actor).conseq ?_ fun _ _ _ h => h)
  intro s hs
  refine hs.mono (fun _ hk => hk) fun hp => ?_
  obtain ⟨⟨hread, hle, hat⟩, hbuilt⟩ := h s.db hp
  rw [← hread] at hat
  exact ⟨⟨hle, hat⟩, hbuilt⟩

theorem updatePlan_request (actor : Actor) (i : UUID) (expected : ℤ) (change : PlanChange) :
    Request site t (fun _ => True) (updatePlan site actor i expected change) fun _ _ => True := by
  unfold updatePlan
  split
  · exact Tx.Body.throw
  split
  · exact Tx.Body.throw
  split
  · exact Tx.Body.throw
  refine Tx.Body.bind (readPlan_request Tx.persists_const i) fun (read, seen) => ?_
  have hseen : Persists site fun db => SeenPlan i (read, seen) db ∧ True :=
    persists_seenPlan.and Tx.persists_const
  refine Tx.Body.bind (build_request hseen change read) fun next => Tx.Body.of_pre fun hid => ?_
  have hbuilt : Persists site fun db =>
      Built site db.trail change read next ∧ SeenPlan i (read, seen) db ∧ True :=
    persists_built.and hseen
  refine Tx.Body.bind (clock_request hbuilt) fun now => ?_
  refine savePlan_request (p := { next with updatedAt := now }) (i := i) hbuilt hid ?_ expected
    actor.id
  intro db h
  exact ⟨h.2.1, h.1.at now⟩

theorem planStatus_request (actor : Actor) (i : UUID) (expected : ℤ) (target : PlanStatus)
    (allowed : List PlanStatus) :
    Request site t (fun _ => True) (planStatus site actor i expected target allowed)
      fun _ _ => True := by
  unfold planStatus
  split
  · exact Tx.Body.throw
  split
  · exact Tx.Body.throw
  split
  · exact Tx.Body.throw
  refine Tx.Body.bind (readPlan_request Tx.persists_const i) fun (read, seen) => ?_
  have hseen : Persists site fun db => SeenPlan i (read, seen) db ∧ True :=
    persists_seenPlan.and Tx.persists_const
  dsimp only
  split
  · exact Tx.Body.throw
  refine Tx.Body.bind (clock_request hseen) fun now => ?_
  refine Tx.Request.transaction hseen ((updatePlanStatusTx_spec _ expected read.status).conseq ?_
    fun _ _ _ h => h)
  exact fun s hs => hs.mono (fun _ hk => hk) fun _ => trivial

/-! ### A template revision for many plans -/

abbrev Safely {α : Type} (site : Site) (t : ℕ) (P : Database → Prop) (p : CatalogProgram α) : Prop :=
  Tx.Safely (M := schema) (arrivals site) (journal site).discipline t P p

theorem done_safely {a : α} : Safely site t P (.done a) := Tx.Safely.done (M := schema)

theorem attempt_safely {request : CatalogM α} (h : Request site t P request fun _ _ => True) :
    Safely site t P (attempt request) := by
  refine Tx.Safely.bind (M := schema) h fun result => ?_
  cases result with
  | ok a => exact done_safely
  | error e => exact done_safely

/-- The version that a template revision gives to a plan. -/
theorem built_applied {trail : List Entry} {read : Plan} {revision : ℤ}
    {base config : TemplateConfig} (now : Stamp)
    (hbase : revisionAt trail (read.templateID, revision) = some base)
    (hmerge : mergePlanConfig site.zones base (.value read.overrides) = .ok config) :
    Built site trail (applyChange revision) read
      (Plan.reconfigure site.digest { read with templateRevision := revision, updatedAt := now }
        config) where
  template := rfl
  name := rfl
  named := nofun
  revision := rfl
  overrides := fun _ => rfl
  normalized := nofun
  config := Or.inr ⟨Or.inr rfl, ⟨base, hbase, hmerge⟩, rfl, rfl⟩

theorem applyToPlan_request (actor : Actor) (templateID : UUID) (revision : ℤ)
    (base : TemplateConfig) (target : PlanApplyTarget) :
    Request site t (fun db => revisionAt db.trail (templateID, revision) = some base)
      (applyToPlan site actor templateID revision base target) fun _ _ => True := by
  unfold applyToPlan
  refine Tx.Body.bind (readPlan_request persists_revision target.planID) fun (read, seen) => ?_
  have hseen : Persists site fun db => SeenPlan target.planID (read, seen) db ∧
      revisionAt db.trail (templateID, revision) = some base :=
    persists_seenPlan.and persists_revision
  dsimp only
  split
  · exact Tx.Request.done hseen
  split
  · exact Tx.Request.done hseen
  rename_i htemplate
  split
  · exact Tx.Request.done hseen
  split
  · exact Tx.Request.done hseen
  rename_i config hmerge
  refine Tx.Body.bind (clock_request hseen) fun now => ?_
  have hid : (Plan.reconfigure site.digest
      { read with templateRevision := revision, updatedAt := now } config).id = read.id := rfl
  refine Tx.Safely.lift (M := schema) (attempt_safely (savePlan_request (i := target.planID) hseen hid ?_
    target.expectedRevision actor.id))
  intro db h
  refine ⟨h.1, built_applied now ?_ hmerge⟩
  have htemplate : read.templateID = templateID := by simpa using htemplate
  rw [htemplate]
  exact h.2

/-- The loop goes on after every target, as what it has read of the template stays. -/
theorem applyToPlans_safely {templateID : UUID} {revision : ℤ} {base : TemplateConfig}
    (actor : Actor) (targets : List PlanApplyTarget) :
    Safely site t (fun db => revisionAt db.trail (templateID, revision) = some base)
      (applyToPlans site actor templateID revision base targets) := by
  induction targets with
  | nil => exact done_safely
  | cons target rest ih =>
      have hbase : Persists site fun db => revisionAt db.trail (templateID, revision) = some base :=
        persists_revision
      have hone := hbase.triple (applyToPlan_request (t := t) actor templateID revision base target)
      refine Outline.Triple.bind (Outline.Triple.conseq hone (fun _ h => ⟨h, h⟩)
        fun _ _ _ h => h.2) fun result => ?_
      exact Outline.Triple.bind ih fun _ => done_safely (P := fun _ => True)

theorem applyTemplateToPlans_request (actor : Actor) (templateID : UUID) (revision : ℤ)
    (targets : List PlanApplyTarget) :
    Request site t (fun _ => True) (applyTemplateToPlans site actor templateID revision targets)
      fun _ _ => True := by
  unfold applyTemplateToPlans
  split
  · exact Tx.Body.throw
  split
  · exact Tx.Body.throw
  refine Tx.Body.bind (readTemplate_request Tx.persists_const templateID) fun (template, seen) => ?_
  have hseen : Persists site fun db => SeenTemplate templateID (template, seen) db ∧ True :=
    persists_seenTemplate.and Tx.persists_const
  dsimp only
  split
  · exact Tx.Body.throw
  split
  · exact Tx.Body.throw
  refine Tx.Body.bind (readRevisionConfig_request hseen templateID revision) fun base => ?_
  have hloop : Request site t (fun db => revisionAt db.trail (templateID, revision) = some base)
      (ExceptT.lift (applyToPlans site actor templateID revision base targets)) fun _ _ => True :=
    Tx.Safely.lift (M := schema) (applyToPlans_safely actor targets)
  exact hloop.conseq (fun _ h => h.1) fun _ _ _ h => h

/-! ## The server -/

theorem report_safely {request : CatalogM α}
    (h : Request site t (fun _ => True) request fun _ _ => True) :
    Safely site t (fun _ => True) (report request) := by
  unfold report
  exact Tx.Safely.bind (M := schema) h fun _ => done_safely

theorem program_safely (c : Call) : Safely site t (fun _ => True) (c.program site) := by
  cases c with
  | createTemplate actor name description config =>
      exact report_safely (createTemplate_request actor name description config)
  | updateTemplate actor i expected change =>
      exact report_safely (updateTemplate_request actor i expected change)
  | archiveTemplate actor i expected => exact report_safely (archiveTemplate_request actor i expected)
  | createPlan actor request => exact report_safely (createPlan_request actor request)
  | updatePlan actor i expected change =>
      exact report_safely (updatePlan_request actor i expected change)
  | pausePlan actor i expected => exact report_safely (planStatus_request actor i expected _ _)
  | resumePlan actor i expected => exact report_safely (planStatus_request actor i expected _ _)
  | applyPlan actor i expected => exact report_safely (planStatus_request actor i expected _ _)
  | applyTemplateToPlans actor templateID revision targets =>
      exact report_safely (applyTemplateToPlans_request actor templateID revision targets)
  | fleet change => exact report_safely (Tx.Request.transaction Tx.persists_const (changeFleetTx_spec change))

/-- What every run of the server leaves is the replay of entries that fit. -/
theorem reaches_of_reachable {start : Database} (hs : start.Fresh)
    {c : Config (Tx.State schema) ℕ (Tx.Op schema) (Tx.Reply schema)}
    (hc : (server site).Reachable (Tx.State.initial start) c) :
    (journal site).Reaches c.state.db := by
  refine Tx.Journal.reaches_of_reachable (J := journal site) ?_ hs hc
  rintro t p ⟨call, rfl⟩
  exact program_safely call

/-! ## Runs that compute -/

/-- A request arrives on a connection, or goes on for a number of statements, with the identifier
and the time that it gets. -/
inductive Move where
  | call (t : ℕ) (c : Call)
  | go (t n : ℕ) (fresh : { i : UUID // i.isV7 = true }) (now : Stamp)

def Move.turn (site : Site) : Move → Tx.Turn schema
  | .call t c => .spawn t (c.program site)
  | .go t n fresh now => .run t (fun | .uuid => fresh | .clock => now) n

def play (site : Site) (start : Database) (moves : List Move) : Option (Tx.Machine schema) :=
  (Tx.Machine.start (M := schema) start).schedule (moves.map (Move.turn site))

theorem reachable_of_play {start : Database} {moves : List Move} {m : Tx.Machine schema}
    (h : play site start moves = some m) :
    (server site).Reachable (Tx.State.initial start) ⟨m.state, m.threads⟩ := by
  refine Tx.schedule_reachable ?_ h
  intro turn hturn
  obtain ⟨move, -, rfl⟩ := List.mem_map.mp hturn
  cases move with
  | call t c => exact ⟨c, rfl⟩
  | go t n fresh now => trivial

end RestFleet.Catalog
