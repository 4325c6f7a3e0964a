import RestFleet.Verification.Catalog.Overwrites

/-! # Archived templates

A new plan takes a share of the template row, and checks in an earlier query that it is not archived. -/

namespace RestFleet.Catalog

open Domain

/-- No archival of the template of a new plan is committed after the query of its request. -/
def Entry.Undisturbed (trail : List Entry) : Entry → Prop
  | .planCreated p seen _ _ => ∀ e ∈ trail.drop seen, e.archives p.templateID = false
  | _ => True

instance (trail : List Entry) : DecidablePred (Entry.Undisturbed trail)
  | .planCreated p seen _ _ =>
    inferInstanceAs (Decidable (∀ e ∈ trail.drop seen, e.archives p.templateID = false))
  | .templateCreated _ _ _ | .templateRevised _ _ _ _ _ _ _ | .templateArchived _ _
  | .planRevised _ _ _ _ _ _ _ | .planStatus _ _ | .fleet _ => inferInstanceAs (Decidable True)

/-- Every plan in use refers to a template that is not archived. -/
def InUse (trail : List Entry) : Prop :=
  ∀ i p, planAt trail i = some p → p.archivedAt = none →
    ∃ t, templateAt trail p.templateID = some t ∧ t.archivedAt = none

variable {site : Site} {trail : List Entry} {e : Entry}

/-- A plan that is in use after an entry is new, or was in use with the same template. -/
theorem Entry.Fits.plan_before {i : UUID} {p : Plan} (hf : e.Fits site trail)
    (hp : e.plan i (planAt trail i) = some p) (hlive : p.archivedAt = none) :
    (∃ seen actor published, e = .planCreated p seen actor published) ∨
      ∃ q, planAt trail i = some q ∧ q.archivedAt = none ∧ q.templateID = p.templateID := by
  have hsame : planAt trail i = some p → ∃ q, planAt trail i = some q ∧ q.archivedAt = none ∧
      q.templateID = p.templateID := fun h => ⟨p, h, hlive, rfl⟩
  cases e with
  | planCreated new seen actor published =>
      rw [Entry.plan] at hp
      split at hp
      · cases hp
        exact Or.inl ⟨seen, actor, published, rfl⟩
      · exact Or.inr (hsame hp)
  | planRevised change expected read seen after actor published =>
      obtain ⟨-, -, old, next, hb, harch, -, -, hread, hbuilt, rfl⟩ := hf
      rw [Entry.plan] at hp
      split at hp
      · rename_i hid
        cases hp
        rw [hid] at hb
        exact Or.inr ⟨old, hb, harch, hread.trans hbuilt.template.symm⟩
      · exact Or.inr (hsame hp)
  | planStatus after published =>
      obtain ⟨old, status, now, hb, rfl⟩ := hf
      rw [Entry.plan] at hp
      split at hp
      · rename_i hid
        cases hp
        rw [hid] at hb
        exact Or.inr ⟨old, hb, hlive, rfl⟩
      · exact Or.inr (hsame hp)
  | _ => exact Or.inr (hsame hp)

/-- An archival leaves the templates of the plans in use alone. -/
theorem Entry.Fits.not_archives {i : UUID} {p : Plan} (hf : e.Fits site trail)
    (hp : planAt trail i = some p) (hlive : p.archivedAt = none) :
    e.archives p.templateID = false := by
  cases e with
  | templateArchived j now =>
      by_contra hne
      have hj : p.templateID = j := by simpa [Entry.archives, eq_comm] using hne
      have harch := hf.2 i p hp hj
      rw [hlive] at harch
      cases harch
  | _ => rfl

theorem InUse.snoc (h : InUse trail) (hc : Checked (Entry.Fits site) trail) (hf : e.Fits site trail)
    (hu : e.Undisturbed trail) : InUse (trail ++ [e]) := by
  intro i p hp hlive
  rw [planAt_snoc] at hp
  rw [templateAt_snoc]
  rcases hf.plan_before hp hlive with ⟨seen, actor, published, rfl⟩ | ⟨q, hq, hqlive, hqp⟩
  · obtain ⟨-, -, -, t, ht, htl⟩ := hf
    rw [← List.take_append_drop seen trail] at hc
    obtain ⟨u, hau, hul⟩ := templateAt_live hc ht htl hu
    rw [List.take_append_drop] at hau
    exact ⟨u, hau, hul⟩
  · obtain ⟨t, ht, htl⟩ := h i q hq hqlive
    have hnot := hf.not_archives hq hqlive
    rw [hqp] at ht hnot
    rw [ht]
    exact hf.template_live htl hnot

theorem inUse_of_checked (hc : Checked (Entry.Fits site) trail)
    (hu : Checked Entry.Undisturbed trail) : InUse trail := by
  induction hc using Checked.induction with
  | nil => exact fun i p hp => nomatch hp
  | snoc trail e hb he ih => exact (ih hu.of_append).snoc hb he hu.last

/-- In every run no revision is appended to an archived template. When no creation of a plan reads
its template before an archival that is committed first, no archived template is in use. -/
theorem archived_template_not_in_use {start : Database} (hs : start.Fresh)
    {c : Config (Tx.State schema) ℕ (Tx.Op schema) (Tx.Reply schema)}
    (hc : (server site).Reachable (Tx.State.initial start) c) :
    (∀ before change expected read seen after hash actor later,
      c.state.db.trail =
          before ++ .templateRevised change expected read seen after hash actor :: later →
        ∃ t, templateAt before after.id = some t ∧ t.archivedAt = none) ∧
    (Checked Entry.Undisturbed c.state.db.trail →
      ∀ i p row, c.state.db.plans.row i = some p → p.archivedAt = none →
        c.state.db.templates.row p.templateID = some row → row.archivedAt = none) := by
  have hr := reaches_of_reachable hs hc
  have hchecked := checked_of_reaches hr
  constructor
  · intro before change expected read seen after hash actor later htrail
    obtain ⟨-, -, -, t, now, ht, hlive, -⟩ := hchecked before _ later htrail
    exact ⟨t, ht, hlive⟩
  · intro hu i p row hp hlive hrow
    rw [(replays_of_reaches hr).plans] at hp
    obtain ⟨t, ht, htl⟩ := inUse_of_checked hchecked hu i p hp hlive
    obtain ⟨u, hu, harch, -⟩ := rowOf_of_row hr hrow
    rw [ht] at hu
    cases hu
    rw [← harch]
    exact htl

def planInUse : List Move :=
  sampleOpening ++
    [.call 3 (.createPlan sampleAdmin (samplePlan "old")),
      .go 3 50 planDraw 4,
      .call 4 (.updateTemplate sampleAdmin (sampleID 4) 1 ⟨some "nightly".toList, none⟩),
      .go 4 50 spareDraw 5]

theorem archived_template_not_in_use_sample :
    ∃ c : Config (Tx.State schema) ℕ (Tx.Op schema) (Tx.Reply schema),
      (server sampleSite).Reachable (Tx.State.initial sampleStart) c ∧
      Checked Entry.Undisturbed c.state.db.trail ∧
      ∃ p row, c.state.db.plans.row (sampleID 5) = some p ∧ p.archivedAt = none ∧
        c.state.db.templates.row p.templateID = some row ∧ row.archivedAt = none := by
  have hplay : (play sampleSite sampleStart planInUse).any (fun m : Tx.Machine schema =>
      decide (Checked Entry.Undisturbed m.db.trail) && (m.db.plans.row (sampleID 5)).any fun p =>
        p.archivedAt.isNone && (m.db.templates.row p.templateID).isSome) = true := by
    decide +kernel
  obtain ⟨m, hm, hcheck⟩ := (Option.any_eq_true _ _).mp hplay
  rw [Bool.and_eq_true, decide_eq_true_eq] at hcheck
  obtain ⟨hu, hany⟩ := hcheck
  obtain ⟨p, hp, hlive⟩ := (Option.any_eq_true _ _).mp hany
  rw [Bool.and_eq_true, Option.isNone_iff_eq_none] at hlive
  obtain ⟨row, hrow⟩ := Option.isSome_iff_exists.mp hlive.2
  have hc := reachable_of_play hm
  exact ⟨_, hc, hu, p, row, hp, hlive.1, hrow,
    (archived_template_not_in_use sampleStart_fresh hc).2 hu _ p row hp hlive.1 hrow⟩

/-! ### A creation that has read the template too early -/

def archivedInUse (db : Database) : Bool :=
  db.plans.rows.any fun p => p.archivedAt.isNone &&
    (db.templates.row p.templateID).any fun row => row.archivedAt.isSome

theorem row_of_archivedInUse {db : Database} (h : archivedInUse db = true) :
    ∃ i p row, db.plans.row i = some p ∧ p.archivedAt = none ∧
      db.templates.row p.templateID = some row ∧ row.archivedAt ≠ none := by
  obtain ⟨p, hp, hcheck⟩ := List.any_eq_true.mp h
  obtain ⟨i, hi⟩ := Table.mem_rows.mp hp
  rw [Bool.and_eq_true, Option.isNone_iff_eq_none] at hcheck
  obtain ⟨row, hrow, harch⟩ := (Option.any_eq_true _ _).mp hcheck.2
  exact ⟨i, p, row, hi, hcheck.1, hrow, Option.isSome_iff_ne_none.mp harch⟩

/-- The template is archived between the query of a creation and its transaction. -/
def archivedBetween : List Move :=
  sampleOpening ++
    [.call 3 (.createPlan sampleAdmin (samplePlan "old")),
      .go 3 3 spareDraw 4,
      .call 4 (.archiveTemplate sampleAdmin (sampleID 4) 1),
      .go 4 50 spareDraw 5,
      .go 3 50 planDraw 6]

/-- A run ends with a plan in use whose template is archived. -/
theorem archived_template_in_use :
    ∃ (start : Database) (c : Config (Tx.State schema) ℕ (Tx.Op schema) (Tx.Reply schema)),
      start.Fresh ∧ (server sampleSite).Reachable (Tx.State.initial start) c ∧
      ∃ i p row, c.state.db.plans.row i = some p ∧ p.archivedAt = none ∧
        c.state.db.templates.row p.templateID = some row ∧ row.archivedAt ≠ none := by
  have hplay : (play sampleSite sampleStart archivedBetween).any
      (fun m : Tx.Machine schema => archivedInUse m.db) = true := by
    decide +kernel
  obtain ⟨m, hm, hused⟩ := (Option.any_eq_true _ _).mp hplay
  exact ⟨sampleStart, ⟨m.state, m.threads⟩, sampleStart_fresh, reachable_of_play hm,
    row_of_archivedInUse hused⟩

/-! ### Versions of a row -/

/-- In every run, what a plan or template was when `n` entries had been committed has evolved to what
it is: it is still there, its revision is not smaller, and one revision has one body. -/
theorem versions_evolve {start : Database} (hs : start.Fresh)
    {c : Config (Tx.State schema) ℕ (Tx.Op schema) (Tx.Reply schema)}
    (hc : (server site).Reachable (Tx.State.initial start) c) (n : ℕ) (id : UUID) :
    (∀ p, planAt (c.state.db.trail.take n) id = some p →
      ∃ q, c.state.db.plans.row id = some q ∧ p.Evolves q) ∧
    ∀ t, templateAt (c.state.db.trail.take n) id = some t →
      ∃ u, c.state.db.template? id = some u ∧ t.Evolves u := by
  have hr := reaches_of_reachable hs hc
  have hchecked := checked_of_reaches hr
  rw [(replays_of_reaches hr).plans, (replays_of_reaches hr).templates]
  rw [← List.take_append_drop n c.state.db.trail] at hchecked
  constructor
  · intro p hp
    simpa only [List.take_append_drop] using planAt_evolves hchecked hp
  · intro t ht
    simpa only [List.take_append_drop] using templateAt_evolves hchecked ht

/-- The template before and after its description is changed. -/
theorem versions_evolve_described :
    ∃ c : Config (Tx.State schema) ℕ (Tx.Op schema) (Tx.Reply schema),
      (server sampleSite).Reachable (Tx.State.initial sampleStart) c ∧
      ∃ n t u, templateAt (c.state.db.trail.take n) (sampleID 4) = some t ∧ t.currentRevision = 1 ∧
        c.state.db.template? (sampleID 4) = some u ∧ t.Evolves u := by
  have hplay : (play sampleSite sampleStart planInUse).any (fun m : Tx.Machine schema =>
      (templateAt (m.db.trail.take (m.db.trail.length - 1)) (sampleID 4)).any fun t =>
        t.currentRevision = 1) = true := by
    decide +kernel
  obtain ⟨m, hm, hany⟩ := (Option.any_eq_true _ _).mp hplay
  obtain ⟨t, ht, hone⟩ := (Option.any_eq_true _ _).mp hany
  have hc := reachable_of_play hm
  obtain ⟨u, hu, hevolves⟩ := (versions_evolve sampleStart_fresh hc _ (sampleID 4)).2 t ht
  exact ⟨_, hc, _, t, u, ht, of_decide_eq_true hone, hu, hevolves⟩

end RestFleet.Catalog
