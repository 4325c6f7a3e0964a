import RestFleet.Verification.Catalog.Journal

/-! # The tables follow from the history -/

namespace RestFleet.Catalog

open Domain

/-- What the tables hold is what the history leaves. -/
structure Replays (db : Database) : Prop where
  plans : ∀ id, db.plans.row id = planAt db.trail id
  templates : ∀ id, db.template? id = templateAt db.trail id
  joined : ∀ id, (db.templates.row id).isSome → (db.template? id).isSome
  revisions : ∀ key, (db.templateRevisions.row key).map RevisionRow.config = revisionAt db.trail key

variable {site : Site} {db : Database} {e : Entry}

/-! ## Publication and the fleet change other tables -/

@[simp] theorem plans_insertState? (db : Database) (published : Option DesiredStateRow) :
    (db.insertState? published).plans = db.plans := by
  cases published <;> rfl

@[simp] theorem templates_insertState? (db : Database) (published : Option DesiredStateRow) :
    (db.insertState? published).templates = db.templates := by
  cases published <;> rfl

@[simp] theorem templateRevisions_insertState? (db : Database)
    (published : Option DesiredStateRow) :
    (db.insertState? published).templateRevisions = db.templateRevisions := by
  cases published <;> rfl

@[simp] theorem plans_changeFleet (db : Database) (change : FleetChange) :
    (db.changeFleet change).plans = db.plans := by
  cases change <;> rfl

@[simp] theorem templates_changeFleet (db : Database) (change : FleetChange) :
    (db.changeFleet change).templates = db.templates := by
  cases change <;> rfl

@[simp] theorem templateRevisions_changeFleet (db : Database) (change : FleetChange) :
    (db.changeFleet change).templateRevisions = db.templateRevisions := by
  cases change <;> rfl

/-! ## Plans -/

theorem row_updatePlan {after : Plan} (h : (db.plans.row after.id).isSome) (id : UUID) :
    (db.updatePlan after).plans.row id = if after.id = id then some after else db.plans.row id := by
  obtain ⟨before, hb⟩ := Option.isSome_iff_exists.mp h
  by_cases hid : after.id = id
  · subst hid
    simp [Database.updatePlan, hb]
  · rw [if_neg hid]
    exact Table.row_modify_ne (Ne.symm hid)

theorem row_insertPlan (p : Plan) (id : UUID) :
    (db.insertPlan p).plans.row id = if p.id = id then some p else db.plans.row id := by
  by_cases hid : p.id = id
  · subst hid
    simp [Database.insertPlan]
  · rw [if_neg hid]
    exact Table.row_insert_ne (Ne.symm hid)

theorem plans_effect (hr : Replays db) (hf : e.Fits site db.trail) (id : UUID) :
    (e.effect db).plans.row id = e.plan id (db.plans.row id) := by
  cases e with
  | planCreated p seen actor published =>
      rw [Entry.effect, plans_insertState?]
      exact row_insertPlan p id
  | planRevised change expected read seen after actor published =>
      obtain ⟨-, -, before, next, hb, -⟩ := hf
      rw [Entry.effect, plans_insertState?]
      refine row_updatePlan ?_ id
      change (db.plans.row after.id).isSome
      rw [hr.plans, hb]
      rfl
  | planStatus after published =>
      obtain ⟨before, status, now, hb, -⟩ := hf
      rw [Entry.effect, plans_insertState?]
      refine row_updatePlan ?_ id
      rw [hr.plans, hb]
      rfl
  | fleet change =>
      rw [Entry.effect, plans_changeFleet]
      rfl
  | _ => rfl

/-! ## Templates -/

theorem template?_congr {d d' : Database} {id : UUID} (ht : d'.templates.row id = d.templates.row id)
    (hr : ∀ n, d'.templateRevisions.row (id, n) = d.templateRevisions.row (id, n)) :
    d'.template? id = d.template? id := by
  simp only [Database.template?, ht, hr]

theorem template?_eq_some {id : UUID} {t : Template} (h : db.template? id = some t) :
    ∃ row revision, db.templates.row id = some row ∧
      db.templateRevisions.row (id, row.currentRevision) = some revision ∧
      t = row.joined id revision := by
  unfold Database.template? at h
  split at h
  · cases h
  · rename_i row hrow
    obtain ⟨revision, hrev, rfl⟩ := Option.map_eq_some_iff.mp h
    exact ⟨row, revision, hrow, hrev, rfl⟩

theorem template?_of_rows {id : UUID} {row : TemplateRow} {revision : RevisionRow}
    (ht : db.templates.row id = some row)
    (hr : db.templateRevisions.row (id, row.currentRevision) = some revision) :
    db.template? id = some (row.joined id revision) := by
  simp [Database.template?, ht, hr]

theorem key_ne_of_id {a b : UUID} {m n : ℤ} (h : a ≠ b) : (a, m) ≠ (b, n) :=
  fun heq => h (congrArg Prod.fst heq)

theorem template?_insertTemplate {t : Template} {hash : Text} {actor : UUID}
    (hrev : t.currentRevision = 1) (harch : t.archivedAt = none) (hupd : t.updatedAt = t.createdAt)
    (id : UUID) :
    (db.insertTemplate t hash actor).template? id = if t.id = id then some t else db.template? id := by
  by_cases hid : t.id = id
  · subst hid
    have hrow : (db.insertTemplate t hash actor).templates.row t.id =
        some ⟨t.name, t.description, 1, none, t.createdAt, t.createdAt⟩ := Table.row_insert_self
    rw [if_pos rfl, template?_of_rows hrow Table.row_insert_self]
    obtain ⟨i, name, description, current, config, archived, created, updated⟩ := t
    simp only at hrev harch hupd
    subst hrev harch hupd
    rfl
  · rw [if_neg hid]
    exact template?_congr (Table.row_insert_ne (Ne.symm hid))
      fun n => Table.row_insert_ne (key_ne_of_id (Ne.symm hid))

theorem template?_reviseTemplate {after before : Template} {hash : Text} {actor : UUID}
    (hb : db.template? after.id = some before) (hname : after.name = before.name)
    (hcreated : after.createdAt = before.createdAt) (harch : after.archivedAt = before.archivedAt)
    (id : UUID) :
    (db.reviseTemplate after hash actor).template? id =
      if after.id = id then some after else db.template? id := by
  by_cases hid : after.id = id
  · subst hid
    obtain ⟨row, revision, hrow, -, rfl⟩ := template?_eq_some hb
    rw [if_pos rfl]
    have hrow' : (db.reviseTemplate after hash actor).templates.row after.id = some
        { row with description := after.description, currentRevision := after.currentRevision,
                   updatedAt := after.updatedAt } := by
      simp [Database.reviseTemplate, hrow]
    rw [template?_of_rows hrow' Table.row_insert_self]
    obtain ⟨i, name, description, current, config, archived, created, updated⟩ := after
    simp only [TemplateRow.joined] at hname hcreated harch ⊢
    rw [hname, hcreated, harch]
  · rw [if_neg hid]
    exact template?_congr (Table.row_modify_ne (Ne.symm hid))
      fun n => Table.row_insert_ne (key_ne_of_id (Ne.symm hid))

theorem template?_archiveTemplate (i : UUID) (now : Stamp) (id : UUID) :
    (db.archiveTemplate i now).template? id =
      if i = id then (db.template? id).map fun t => { t with archivedAt := some now, updatedAt := now }
      else db.template? id := by
  by_cases hid : i = id
  · subst hid
    rw [if_pos rfl]
    cases hrow : db.templates.row i with
    | none => simp [Database.template?, Database.archiveTemplate, hrow]
    | some row =>
        simp only [Database.template?, Database.archiveTemplate, Table.row_modify_self, hrow,
          Option.map_some, Option.map_map]
        rfl
  · rw [if_neg hid]
    exact template?_congr (Table.row_modify_ne (Ne.symm hid)) fun _ => rfl

theorem templates_effect (hr : Replays db) (hf : e.Fits site db.trail) (id : UUID) :
    (e.effect db).template? id = e.template id (db.template? id) := by
  cases e with
  | templateCreated t hash actor =>
      obtain ⟨-, -, hrev, harch, hupd⟩ := hf
      exact template?_insertTemplate hrev harch hupd id
  | templateRevised change expected read seen after hash actor =>
      obtain ⟨-, -, -, before, now, hb, -, -, hafter⟩ := hf
      rw [← hr.templates] at hb
      exact template?_reviseTemplate hb (by rw [hafter]) (by rw [hafter]) (by rw [hafter]) id
  | templateArchived i now => exact template?_archiveTemplate i now id
  | planCreated p seen actor published =>
      exact template?_congr (by rw [Entry.effect, templates_insertState?]; rfl)
        fun n => by rw [Entry.effect, templateRevisions_insertState?]; rfl
  | planRevised change expected read seen after actor published =>
      exact template?_congr (by rw [Entry.effect, templates_insertState?]; rfl)
        fun n => by rw [Entry.effect, templateRevisions_insertState?]; rfl
  | planStatus after published =>
      exact template?_congr (by rw [Entry.effect, templates_insertState?]; rfl)
        fun n => by rw [Entry.effect, templateRevisions_insertState?]; rfl
  | fleet change =>
      exact template?_congr (by rw [Entry.effect, templates_changeFleet])
        fun n => by rw [Entry.effect, templateRevisions_changeFleet]

/-! ## Revisions -/

theorem config_insert {t : Table (UUID × ℤ) RevisionRow} {k key : UUID × ℤ} {row : RevisionRow} :
    ((t.insert k row).row key).map RevisionRow.config =
      if k = key then some row.config else (t.row key).map RevisionRow.config := by
  by_cases hk : k = key
  · subst hk
    simp
  · rw [if_neg hk, Table.row_insert_ne (Ne.symm hk)]

theorem revisions_effect (key : UUID × ℤ) :
    ((e.effect db).templateRevisions.row key).map RevisionRow.config =
      e.revision key ((db.templateRevisions.row key).map RevisionRow.config) := by
  cases e with
  | templateCreated t hash actor => exact config_insert
  | templateRevised change expected read seen after hash actor => exact config_insert
  | planCreated p seen actor published =>
      rw [Entry.effect, templateRevisions_insertState?]
      rfl
  | planRevised change expected read seen after actor published =>
      rw [Entry.effect, templateRevisions_insertState?]
      rfl
  | planStatus after published =>
      rw [Entry.effect, templateRevisions_insertState?]
      rfl
  | fleet change =>
      rw [Entry.effect, templateRevisions_changeFleet]
      rfl
  | templateArchived i now => rfl

/-! ## Every reachable database -/

theorem isSome_template {id : UUID} {x : Option Template} (h : x.isSome) (e : Entry) :
    (e.template id x).isSome := by
  cases e with
  | templateCreated t hash actor =>
      rw [Entry.template]
      split
      · rfl
      · exact h
  | templateRevised change expected read seen after hash actor =>
      rw [Entry.template]
      split
      · rfl
      · exact h
  | templateArchived i now =>
      rw [Entry.template]
      split
      · simpa using h
      · exact h
  | _ => exact h

theorem templates_row_effect {id : UUID} (h : ((e.effect db).templates.row id).isSome)
    (hn : db.templates.row id = none) : ∃ t hash actor, e = .templateCreated t hash actor ∧ t.id = id := by
  have hmodify : ∀ {i : UUID} {f : TemplateRow → TemplateRow},
      ((db.templates.modify i f).row id).isSome = false := by
    intro i f
    by_cases hid : id = i
    · subst hid
      simp [hn]
    · simp [Table.row_modify_ne hid, hn]
  cases e with
  | templateCreated t hash actor =>
      refine ⟨t, hash, actor, rfl, ?_⟩
      by_contra hid
      have hrow : (db.insertTemplate t hash actor).templates.row id = db.templates.row id :=
        Table.row_insert_ne (Ne.symm hid)
      rw [Entry.effect, hrow, hn] at h
      cases h
  | templateRevised change expected read seen after hash actor =>
      have hfalse := hmodify.symm.trans h
      cases hfalse
  | templateArchived i now =>
      have hfalse := hmodify.symm.trans h
      cases hfalse
  | planCreated p seen actor published =>
      rw [Entry.effect, templates_insertState?] at h
      change (db.templates.row id).isSome at h
      simp [hn] at h
  | planRevised change expected read seen after actor published =>
      rw [Entry.effect, templates_insertState?] at h
      change (db.templates.row id).isSome at h
      simp [hn] at h
  | planStatus after published =>
      rw [Entry.effect, templates_insertState?] at h
      change (db.templates.row id).isSome at h
      simp [hn] at h
  | fleet change =>
      rw [Entry.effect, templates_changeFleet] at h
      simp [hn] at h

theorem joined_effect (hr : Replays db) (hf : e.Fits site db.trail) (id : UUID)
    (h : ((e.effect db).templates.row id).isSome) : ((e.effect db).template? id).isSome := by
  rw [templates_effect hr hf]
  cases hrow : db.templates.row id with
  | some row => exact isSome_template (hr.joined id (by simp [hrow])) e
  | none =>
      obtain ⟨t, hash, actor, rfl, rfl⟩ := templates_row_effect h hrow
      simp [Entry.template]

theorem Replays.commit (hr : Replays db) (hf : e.Fits site db.trail) : Replays (e.commit db) where
  plans := by
    intro id
    rw [trail_commit, planAt_snoc, ← hr.plans]
    exact plans_effect hr hf id
  templates := by
    intro id
    rw [trail_commit, templateAt_snoc, ← hr.templates]
    exact templates_effect hr hf id
  joined := fun id h => joined_effect hr hf id h
  revisions := by
    intro key
    rw [trail_commit, revisionAt_snoc, ← hr.revisions]
    exact revisions_effect key

theorem replays_of_reaches (h : (journal site).Reaches db) : Replays db := by
  refine h.invariant (P := Replays) ?_ ?_
  · intro db hs
    have hp := Database.Fresh.plans hs
    have ht := Database.Fresh.templates hs
    have hr := Database.Fresh.templateRevisions hs
    have htrail := Database.Fresh.trail hs
    refine ⟨fun id => ?_, fun id => ?_, fun id hid => ?_, fun key => ?_⟩
    · rw [hp, htrail]
      rfl
    · rw [htrail, Database.template?, ht]
      rfl
    · rw [ht] at hid
      cases hid
    · rw [hr, htrail]
      rfl
  · rintro (e : Entry) (db : Database) (hg : e.Fits site db.trail) hr
    exact hr.commit hg

end RestFleet.Catalog
