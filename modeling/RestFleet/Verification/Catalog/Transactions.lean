import RestFleet.Verification.Catalog.Frame

/-! # The transactions append entries that fit -/

namespace RestFleet.Catalog

open Domain

variable {site : Site} {t : ℕ} {keys : List Key} {f : Database → Database}
  {P : Database → Prop} {α : Type} {Q : α → Tx.State schema → Prop}

/-- A commit that is one entry of the history. Holding the share of a template counts as holding
the template against those who lock it. -/
theorem commit_spec {k : Unit → CatalogM α} (e : Entry) (hP : Keeps site t keys P)
    (hf : ∀ db, f db = e.commit db)
    (hg : ∀ db, (journal site).Reaches db → P db → e.Fits site db.trail)
    (hkeys : ∀ k, e.touches k → k ∈ keys ∨ ∃ k' ∈ keys, conflicts k' k)
    (hk : Spec site t (Within t [] id fun _ => True) (k ()) Q) :
    Spec site t (Within t keys f P) (Tx.commit >>= k) Q := by
  refine Tx.Body.commit (fun _ => True) hP ?_ hk
  intro db hr h
  have heq : f db = e.commit db := hf db
  rw [heq]
  exact ⟨Tx.Journal.commits_sharing (J := journal site) hr (hg db hr h) hkeys nofun, trivial⟩

theorem glance_spec {k : Database → CatalogM α} (hP : Keeps site t keys P)
    (hk : ∀ v, Spec site t (Within t keys f P) (k v) Q) :
    Spec site t (Within t keys f P) (Tx.view >>= k) Q :=
  Tx.Body.see (S := fun _ => True) hP (fun _ _ _ => trivial) fun v _ => hk v

theorem return_spec {a : α} (hP : Keeps site t keys P) :
    Spec site t (Within t keys f P) (pure a : CatalogM α) fun _ => Within t keys f P :=
  Tx.Body.pure (Tx.stable_in hP) fun _ _ h => h

theorem finish_spec {a : α} :
    Spec site t (Within t [] id fun _ => True) (pure a : CatalogM α) fun _ _ => True :=
  Tx.Body.pure (Tx.stable_in keeps_true) fun _ _ _ => trivial

/-! ## Templates -/

theorem templateAt_none {db : Database} (hr : (journal site).Reaches db) {id : UUID}
    (h : db.templates.row id = none) : templateAt db.trail id = none := by
  rw [← (replays_of_reaches hr).templates, Database.template?, h]

theorem createTemplateTx_spec {tpl : Template} (hrev : tpl.currentRevision = 1)
    (harch : tpl.archivedAt = none) (hupd : tpl.updatedAt = tpl.createdAt) (actor : UUID) :
    Spec site t (Within t [] id fun _ => True) (createTemplateTx site tpl actor) fun _ _ => True := by
  refine glance_spec keeps_true fun v => ?_
  split
  · exact Tx.Body.throw
  refine Tx.Body.claim keeps_true (Tx.Body.claim keeps_true ?_)
  refine Tx.Body.check (F := fun db => templateAt db.trail tpl.id = none) keeps_true ?_
    (fun _ _ => Tx.Body.throw) fun v _ => ?_
  · intro db hr _ hfree
    refine templateAt_none hr ?_
    simp only [id_eq, Bool.or_eq_true, not_or, Bool.not_eq_true, Option.isSome_eq_false_iff,
      Option.isNone_iff_eq_none] at hfree
    exact hfree.1
  have hkeep : Keeps site t [.templateName (site.lower tpl.name), .template tpl.id] fun db =>
      templateAt db.trail tpl.id = none ∧ True :=
    (keeps_template (F := fun x => x = none) (by simp)).and keeps_true
  refine Tx.Body.write hkeep (commit_spec
    (.templateCreated tpl (tpl.config.configHash site.digest) actor) hkeep (fun _ => rfl) ?_ ?_
    finish_spec)
  · intro db hr h
    refine ⟨h.1, ?_, hrev, harch, hupd⟩
    cases hrevision : revisionAt db.trail (tpl.id, 1) with
    | none => rfl
    | some config =>
        have hsome := templateAt_of_revisionAt (checked_of_reaches hr)
          (Option.isSome_iff_exists.mpr ⟨config, hrevision⟩)
        simp [h.1] at hsome
  · intro k hk
    exact Or.inl (by simp [Entry.touches] at hk; simp [hk])

def RowOf (row : TemplateRow) (x : Option Template) : Prop :=
  ∃ before, x = some before ∧ before.archivedAt = row.archivedAt ∧
    before.currentRevision = row.currentRevision ∧ before.name = row.name ∧
    before.createdAt = row.createdAt

theorem rowOf_of_row {db : Database} (hr : (journal site).Reaches db) {i : UUID} {row : TemplateRow}
    (h : db.templates.row i = some row) : RowOf row (templateAt db.trail i) := by
  have hreplays := replays_of_reaches hr
  obtain ⟨before, hbefore⟩ := Option.isSome_iff_exists.mp (hreplays.joined i (by simp [h]))
  obtain ⟨row', revision, hrow', -, rfl⟩ := template?_eq_some hbefore
  rw [h] at hrow'
  cases hrow'
  rw [← hreplays.templates, hbefore]
  exact ⟨_, rfl, rfl, rfl, rfl, rfl⟩

structure HeldTemplate (i : UUID) (expected : ℤ) (row : TemplateRow) (db : Database) : Prop where
  version : RowOf row (templateAt db.trail i)
  live : row.archivedAt = none
  revision : row.currentRevision = expected

theorem keeps_held {i : UUID} {expected : ℤ} {row : TemplateRow} (hk : .template i ∈ keys) :
    Keeps site t keys (HeldTemplate i expected row) := by
  intro db db' hf ho he h
  exact ⟨keeps_template (F := RowOf row) hk db db' hf ho he h.version, h.live, h.revision⟩

theorem lockTemplate_spec (i : UUID) (expected : ℤ) (hP : Keeps site t keys P) :
    Spec site t (Within t keys id P) (lockTemplate i expected) fun row =>
      Within t (.template i :: keys) id fun db => HeldTemplate i expected row db ∧ P db := by
  refine Tx.Body.lock hP ?_ Tx.Body.throw
  refine Tx.Body.view (R := fun v db => (∀ row, v.templates.row i = some row →
    RowOf row (templateAt db.trail i)) ∧ P db) hP.cons ?_ fun v => ?_
  · exact fun db hr h => ⟨fun row hrow => rowOf_of_row hr hrow, h⟩
  split
  · exact Tx.Body.throw
  rename_i row hrow
  split
  · exact Tx.Body.throw
  rename_i hlive
  split
  · exact Tx.Body.throw
  rename_i hrev
  have hlive : row.archivedAt = none := by simpa using hlive
  have hrev : row.currentRevision = expected := by simpa using hrev
  have hheld : Keeps site t (.template i :: keys) fun db => HeldTemplate i expected row db ∧ P db :=
    (keeps_held List.mem_cons_self).and hP.cons
  have hreturn : Spec site t (Within t (.template i :: keys) id fun db =>
      HeldTemplate i expected row db ∧ P db) (pure row) fun row => Within t (.template i :: keys) id
        fun db => HeldTemplate i expected row db ∧ P db :=
    Tx.Body.pure (Tx.stable_in hheld) fun _ _ h => h
  refine hreturn.conseq (fun s hs => ?_) fun _ _ _ h => h
  exact hs.mono (fun _ hk => hk) fun h => ⟨⟨h.1 row hrow, hlive, hrev⟩, h.2⟩

theorem saveTemplateRevisionTx_spec {change : TemplateChange} {read : Template} {seen : ℕ}
    (now : Stamp) (expected : ℤ) (actor : UUID) :
    Spec site t (Within t [] id fun db => seen ≤ db.trail.length ∧
        templateAt (db.trail.take seen) read.id = some read)
      (saveTemplateRevisionTx site (change.apply read now) expected actor change read seen)
      fun _ _ => True := by
  have hread : Keeps site t [] fun db => seen ≤ db.trail.length ∧
      templateAt (db.trail.take seen) read.id = some read :=
    (persists_take (F := fun trail => templateAt trail read.id = some read)).lasts
  refine Tx.Body.bind (lockTemplate_spec read.id expected hread) fun row => ?_
  have hheld : Keeps site t [.template read.id] fun db => HeldTemplate read.id expected row db ∧
      seen ≤ db.trail.length ∧ templateAt (db.trail.take seen) read.id = some read :=
    (keeps_held (by simp)).and hread.cons
  refine Tx.Body.check (F := fun db => revisionAt db.trail (read.id, row.currentRevision + 1) = none)
    hheld ?_ (fun _ _ => Tx.Body.throw) fun v _ => ?_
  · intro db hr _ hfree
    rw [← (replays_of_reaches hr).revisions]
    simpa [TemplateRow.revised, TemplateChange.apply] using hfree
  have hkeep := (keeps_revision (n := row.currentRevision + 1) (F := fun x => x = none)
    List.mem_cons_self).and hheld
  refine Tx.Body.write hkeep (commit_spec (.templateRevised change expected read seen
    (row.revised (change.apply read now)) ((change.apply read now).config.configHash site.digest)
    actor) hkeep (fun _ => rfl) ?_ ?_ finish_spec)
  · rintro db hr ⟨hnew, hrow, hseen, hat⟩
    obtain ⟨before, hb, harch, hcur, hname, hcreated⟩ := hrow.version
    refine ⟨hseen, hat, hnew, before, now, hb, harch.trans hrow.live, hcur.trans hrow.revision, ?_⟩
    simp only [TemplateRow.revised, TemplateChange.apply]
    rw [harch, hcur, hname, hcreated]
  · intro k hk
    exact Or.inl (by simp [Entry.touches, TemplateRow.revised, TemplateChange.apply] at hk; simp [hk])

theorem unused_of_dependents {db : Database} (hr : (journal site).Reaches db) {i : UUID}
    (h : db.dependents i = 0) : Unused i db.trail := by
  intro planID p hp htemplate
  rw [← (replays_of_reaches hr).plans] at hp
  have hnone := List.countP_eq_zero.mp h p (Table.mem_rows.mpr ⟨planID, hp⟩)
  simpa [htemplate, Option.isSome_iff_ne_none] using hnone

theorem archiveTemplateTx_spec (i : UUID) (expected : ℤ) (now : Stamp) :
    Spec site t (Within t [] id fun _ => True) (archiveTemplateTx i expected now)
      fun _ _ => True := by
  refine Tx.Body.bind (lockTemplate_spec i expected keeps_true) fun row => ?_
  have hheld : Keeps site t [.template i] fun db => HeldTemplate i expected row db ∧ True :=
    (keeps_held (by simp)).and keeps_true
  refine Tx.Body.check (F := fun db => Unused i db.trail) hheld ?_ (fun _ _ => Tx.Body.throw)
    fun v _ => ?_
  · intro db hr _ hnone
    exact unused_of_dependents hr (by simpa using hnone)
  have hkeep := (keeps_unused List.mem_cons_self).and hheld
  refine Tx.Body.write hkeep ?_
  refine Tx.Body.last (commit_spec (.templateArchived i now) hkeep (fun _ => rfl) ?_ ?_ finish_spec)
  · rintro db hr ⟨hunused, hrow, -⟩
    obtain ⟨before, hb, harch, -⟩ := hrow.version
    exact ⟨⟨before, hb, harch.trans hrow.live⟩, hunused⟩
  · intro k hk
    exact Or.inl (by simp [Entry.touches] at hk; simp [hk])

/-! ## Plans -/

theorem publish_spec (agentID : UUID) (now : Stamp) (hP : Keeps site t keys P) :
    Spec site t (Within t keys f P) (publishAgentDesiredState site agentID now) fun published =>
      Within t keys ((·.insertState? published) ∘ f) P := by
  have hnone : Spec site t (Within t (.agent agentID :: keys) f P) (pure none)
      fun published => Within t keys ((·.insertState? published) ∘ f) P :=
    Tx.Body.pure (Tx.stable_in hP.cons) fun _ _ h => h.drop
  refine Tx.Body.lock hP ?_ Tx.Body.throw
  refine glance_spec hP.cons fun v => ?_
  split
  · exact Tx.Body.throw
  split
  · exact hnone
  refine glance_spec hP.cons fun v => ?_
  split
  · exact Tx.Body.throw
  split
  · exact Tx.Body.throw
  refine glance_spec hP.cons fun v => ?_
  dsimp only
  split
  · exact Tx.Body.throw
  refine glance_spec hP.cons fun v => ?_
  split
  · exact Tx.Body.throw
  refine Tx.Body.write hP.cons ?_
  exact Tx.Body.pure (Tx.stable_in hP.cons) fun _ _ h => h.drop

theorem lockBinding_spec (p : Plan) (hP : Keeps site t keys P) :
    Spec site t (Within t keys f P) (lockBinding p) fun _ => Within t keys f P := by
  refine Tx.Body.lock hP ?_ Tx.Body.throw
  refine glance_spec hP.cons fun v => ?_
  split
  · exact Tx.Body.throw
  split
  · exact Tx.Body.throw
  refine Tx.Body.lock hP.cons ?_ Tx.Body.throw
  refine glance_spec hP.cons.cons fun v => ?_
  split
  · exact Tx.Body.throw
  split
  · exact Tx.Body.throw
  split
  · exact Tx.Body.throw
  exact Tx.Body.pure (Tx.stable_in hP.cons.cons) fun _ _ h => h.drop.drop

theorem templateRevisionExists_spec (p : Plan) (hP : Keeps site t keys P) :
    Spec site t (Within t keys f P) (templateRevisionExists p) fun _ => Within t keys f P := by
  refine glance_spec hP fun v => ?_
  split
  · exact return_spec hP
  · exact Tx.Body.throw

theorem insertPlan_spec (p : Plan) (hP : Keeps site t keys P) :
    Spec site t (Within t keys id P) (insertPlan site p) fun _ =>
      Within t (.share p.templateID t :: .plan p.id :: keys) (·.insertPlan p) fun db =>
        planAt db.trail p.id = none ∧ P db := by
  refine Tx.Body.claim hP (Tx.Body.claim hP.cons ?_)
  refine Tx.Body.check (F := fun db => planAt db.trail p.id = none) hP.cons.cons ?_
    (fun _ _ => Tx.Body.throw) fun v _ => ?_
  · intro db hr _ hfree
    rw [← (replays_of_reaches hr).plans]
    simp only [id_eq, Bool.or_eq_true, not_or, Bool.not_eq_true, Option.isSome_eq_false_iff,
      Option.isNone_iff_eq_none] at hfree
    exact hfree.1
  have hnew : ∀ {ks : List Key}, (∀ k ∈ Key.plan p.id :: keys, k ∈ ks) →
      Keeps site t ks fun db => planAt db.trail p.id = none ∧ P db := fun hks =>
    (keeps_plan (F := fun x => x = none) (hks _ List.mem_cons_self)).and
      (hP.mono fun k hk => hks k (List.mem_cons_of_mem _ hk))
  have hclaimed : ∀ k ∈ Key.plan p.id :: keys,
      k ∈ Key.planName p.hostID (site.lower p.name) :: Key.plan p.id :: keys :=
    fun k hk => List.mem_cons_of_mem _ hk
  have hshared : ∀ k ∈ Key.plan p.id :: keys,
      k ∈ Key.share p.templateID t :: Key.planName p.hostID (site.lower p.name) :: Key.plan p.id :: keys :=
    fun k hk => List.mem_cons_of_mem _ (List.mem_cons_of_mem _ hk)
  refine Tx.Body.self (hnew hclaimed) (Tx.Body.claim (hnew hclaimed) ?_)
  refine glance_spec (hnew hshared) fun v => ?_
  split
  · refine Tx.Body.last (Tx.Body.write (hnew hshared) ?_)
    refine Tx.Body.pure (Tx.stable_in (hnew hshared)) fun _ _ h => ?_
    exact h.mono (by simp; tauto) fun h => h
  · exact Tx.Body.throw

theorem createPlanTx_spec {p : Plan} (hnew : NewPlan site p) (actor : UUID) (seen : ℕ) :
    Spec site t (Within t [] id fun db => seen ≤ db.trail.length ∧
        ∃ tpl, templateAt (db.trail.take seen) p.templateID = some tpl ∧ tpl.archivedAt = none)
      (createPlanTx site p actor seen) fun _ _ => True := by
  have hread : ∀ {ks : List Key}, Keeps site t ks fun db => seen ≤ db.trail.length ∧
      ∃ tpl, templateAt (db.trail.take seen) p.templateID = some tpl ∧ tpl.archivedAt = none :=
    (persists_take (F := fun trail => ∃ tpl, templateAt trail p.templateID = some tpl ∧
      tpl.archivedAt = none)).lasts
  refine Tx.Body.bind (lockBinding_spec p hread) fun _ => ?_
  refine Tx.Body.bind (templateRevisionExists_spec p hread) fun _ => ?_
  refine glance_spec hread fun v => ?_
  split
  · exact Tx.Body.throw
  refine Tx.Body.bind (insertPlan_spec p hread) fun _ => ?_
  have hkeep : Keeps site t [.share p.templateID t, .plan p.id] fun db =>
      planAt db.trail p.id = none ∧ seen ≤ db.trail.length ∧
        ∃ tpl, templateAt (db.trail.take seen) p.templateID = some tpl ∧ tpl.archivedAt = none :=
    (keeps_plan (F := fun x => x = none) (by simp)).and hread
  refine Tx.Body.write hkeep ?_
  refine Tx.Body.bind (publish_spec p.agentID p.createdAt hkeep) fun published => ?_
  refine Tx.Body.write hkeep ?_
  refine commit_spec (.planCreated p seen actor published) hkeep (fun _ => rfl) ?_ ?_ finish_spec
  · rintro db hr ⟨hfresh, hseen, tpl, hat, harch⟩
    exact ⟨hfresh, hnew, hseen, tpl, hat, harch⟩
  · rintro k (rfl | rfl)
    · exact Or.inl (by simp)
    · exact Or.inr ⟨.share p.templateID t, by simp, rfl⟩

structure HeldPlan (i : UUID) (expected : ℤ) (status : PlanStatus) (row : Plan) (db : Database) :
    Prop where
  version : planAt db.trail i = some row
  live : row.archivedAt = none
  revision : row.desiredRevision = expected
  status : row.status = status

theorem keeps_heldPlan {i : UUID} {expected : ℤ} {status : PlanStatus} {row : Plan}
    (hk : .plan i ∈ keys) : Keeps site t keys (HeldPlan i expected status row) := by
  intro db db' hf ho he h
  exact ⟨keeps_plan (F := fun x => x = some row) hk db db' hf ho he h.version, h.live, h.revision,
    h.status⟩

theorem lockPlanAgent_spec (i agentID : UUID) (hP : Keeps site t keys P) :
    Spec site t (Within t keys f P) (lockPlanAgent i agentID) fun _ => Within t keys f P := by
  refine glance_spec hP fun v => ?_
  split
  · exact Tx.Body.throw
  refine Tx.Body.lock hP ?_ Tx.Body.throw
  rw [if_pos rfl]
  split
  · exact Tx.Body.throw
  exact Tx.Body.pure (Tx.stable_in hP.cons) fun _ _ h => h.drop

theorem lockPlan_spec (i agentID : UUID) (expected : ℤ) (status : PlanStatus)
    (hP : Keeps site t keys P) :
    Spec site t (Within t keys id P) (lockPlan i agentID expected status) fun row =>
      Within t (.plan i :: keys) id fun db =>
        row.id = i ∧ HeldPlan i expected status row db ∧ P db := by
  refine Tx.Body.bind (lockPlanAgent_spec i agentID hP) fun _ => ?_
  refine Tx.Body.lock hP ?_ Tx.Body.throw
  refine Tx.Body.view (R := fun v db => v.plans.row i = planAt db.trail i ∧ P db) hP.cons ?_
    fun v => ?_
  · exact fun db hr h => ⟨(replays_of_reaches hr).plans i, h⟩
  split
  · exact Tx.Body.throw
  rename_i row hrow
  split
  · exact Tx.Body.throw
  rename_i hlive
  split
  · exact Tx.Body.throw
  rename_i hrev
  split
  · exact Tx.Body.throw
  rename_i hstatus
  have hlive : row.archivedAt = none := by simpa using hlive
  have hrev : row.desiredRevision = expected := by simpa using hrev
  have hstatus : row.status = status := by simpa using hstatus
  have hheld : Keeps site t (.plan i :: keys) fun db =>
      row.id = i ∧ HeldPlan i expected status row db ∧ P db :=
    Tx.lasts_const.and ((keeps_heldPlan List.mem_cons_self).and hP.cons)
  have hreturn : Spec site t (Within t (.plan i :: keys) id fun db =>
      row.id = i ∧ HeldPlan i expected status row db ∧ P db) (pure row) fun row =>
      Within t (.plan i :: keys) id fun db =>
        row.id = i ∧ HeldPlan i expected status row db ∧ P db :=
    Tx.Body.pure (Tx.stable_in hheld) fun _ _ h => h
  refine hreturn.conseq (fun s hs => ?_) fun _ _ _ h => h
  refine hs.mono (fun _ hk => hk) fun h => ?_
  have hversion : planAt s.db.trail i = some row := by rw [← h.1, hrow]
  exact ⟨planAt_id hversion, ⟨hversion, hlive, hrev, hstatus⟩, h.2⟩

theorem updatePlanRow_spec (after : Plan) (hP : Keeps site t keys P) :
    Spec site t (Within t keys f P) (updatePlanRow site after) fun _ =>
      Within t keys ((·.updatePlan after) ∘ f) P := by
  refine Tx.Body.claim hP (glance_spec hP.cons fun v => ?_)
  split
  · exact Tx.Body.throw
  refine Tx.Body.last (Tx.Body.write hP.cons ?_)
  exact Tx.Body.pure (Tx.stable_in hP.cons) fun _ _ h => h.drop

/-- A version stays derived, as revisions are written once. -/
theorem persists_built {change : PlanChange} {read next : Plan} :
    Persists site fun db => Built site db.trail change read next := by
  refine persists_of_step fun e db hf h => ?_
  refine { h with config := h.config.imp_right fun hd => ⟨hd.1, { hd.2 with merged := ?_ }⟩ }
  obtain ⟨base, hbase, hmerge⟩ := hd.2.merged
  refine ⟨base, ?_, hmerge⟩
  rw [trail_commit, revisionAt_snoc, hbase]
  exact hf.revision_keeps hbase

/-- What a request knows of the plan that it has read and of the version that it has built. -/
def Prepared (site : Site) (change : PlanChange) (read next : Plan) (seen : ℕ) (db : Database) :
    Prop :=
  (seen ≤ db.trail.length ∧ planAt (db.trail.take seen) read.id = some read) ∧
    Built site db.trail change read next

theorem persists_prepared {change : PlanChange} {read next : Plan} {seen : ℕ} :
    Persists site (Prepared site change read next seen) :=
  (persists_take (F := fun trail => planAt trail read.id = some read)).and persists_built

/-- What has been read of a plan is an earlier version of its row. -/
theorem templateID_of_seen {db : Database} (hr : (journal site).Reaches db) {i : UUID}
    {read before : Plan} {seen : ℕ} (hread : planAt (db.trail.take seen) i = some read)
    (hb : planAt db.trail i = some before) : before.templateID = read.templateID := by
  have hc := checked_of_reaches hr
  rw [← List.take_append_drop seen db.trail] at hc hb
  obtain ⟨q, hq, hev⟩ := planAt_evolves hc hread
  rw [hb] at hq
  cases hq
  exact hev.bound.2.2.2

theorem savePlanRevisionTx_spec {change : PlanChange} {read p : Plan} {seen : ℕ}
    (hid : p.id = read.id) (expected : ℤ) (actor : UUID) :
    Spec site t (Within t [] id (Prepared site change read p seen))
      (savePlanRevisionTx site p expected read.status actor change read seen) fun _ _ => True := by
  have hprep : ∀ {ks : List Key}, Keeps site t ks (Prepared site change read p seen) :=
    persists_prepared.lasts
  refine Tx.Body.bind (lockPlan_spec p.id p.agentID expected read.status hprep) fun before =>
    Tx.Body.of_fact fun hbefore => ?_
  have hkeep : Keeps site t [.plan p.id] fun db =>
      HeldPlan p.id expected read.status before db ∧ Prepared site change read p seen db :=
    (keeps_heldPlan (by simp)).and hprep
  refine Tx.Body.bind (templateRevisionExists_spec p hkeep) fun _ => ?_
  refine glance_spec hkeep fun v => ?_
  split
  · exact Tx.Body.throw
  refine Tx.Body.write hkeep ?_
  refine Tx.Body.bind (updatePlanRow_spec (before.revised p) hkeep) fun _ => ?_
  refine Tx.Body.bind (publish_spec p.agentID p.updatedAt hkeep) fun published => ?_
  refine Tx.Body.write hkeep ?_
  refine commit_spec (.planRevised change expected read seen (before.revised p) actor published)
    hkeep (fun _ => rfl) ?_ ?_ finish_spec
  · rintro db hr ⟨hheld, ⟨hseen, hat⟩, hbuilt⟩
    have hafter : (before.revised p).id = read.id := hbefore.trans hid
    have hversion : planAt db.trail read.id = some before := hid ▸ hheld.version
    refine ⟨hseen, ?_, before, p, ?_, hheld.live, hheld.revision, hheld.status,
      templateID_of_seen hr hat hversion, hbuilt, rfl⟩
    · rw [hafter]
      exact hat
    · rw [hafter]
      exact hversion
  · rintro k rfl
    exact Or.inl (by simp [Plan.revised, hbefore])

theorem updatePlanStatusTx_spec (p : Plan) (expected : ℤ) (status : PlanStatus) :
    Spec site t (Within t [] id fun _ => True) (updatePlanStatusTx site p expected status)
      fun _ _ => True := by
  refine Tx.Body.bind (lockPlan_spec p.id p.agentID expected status keeps_true) fun before =>
    Tx.Body.of_fact fun hbefore => ?_
  have hkeep : Keeps site t [.plan p.id] fun db => HeldPlan p.id expected status before db ∧ True :=
    (keeps_heldPlan (by simp)).and keeps_true
  refine Tx.Body.write hkeep ?_
  refine Tx.Body.bind (publish_spec p.agentID p.updatedAt hkeep) fun published => ?_
  refine Tx.Body.write hkeep ?_
  refine commit_spec (.planStatus { before with status := p.status, updatedAt := p.updatedAt }
    published) hkeep (fun _ => rfl) ?_ ?_ finish_spec
  · rintro db hr ⟨hheld, -⟩
    refine ⟨before, p.status, p.updatedAt, ?_, rfl⟩
    change planAt db.trail before.id = some before
    rw [hbefore]
    exact hheld.version
  · rintro k rfl
    exact Or.inl (by simp [hbefore])

theorem changeFleetTx_spec (change : FleetChange) :
    Spec site t (Within t [] id fun _ => True) (changeFleetTx change) fun _ _ => True := by
  refine Tx.Body.claim keeps_true (glance_spec keeps_true fun v => ?_)
  split
  · exact Tx.Body.throw
  refine Tx.Body.write keeps_true (Tx.Body.last ?_)
  exact commit_spec (.fleet change) keeps_true (fun _ => rfl) (fun _ _ _ => trivial)
    (fun _ hk => hk.elim) finish_spec

end RestFleet.Catalog
