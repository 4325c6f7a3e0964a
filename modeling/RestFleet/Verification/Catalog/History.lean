import RestFleet.Verification.Catalog.Tables

/-! # What histories of templates and plans can contain -/

namespace RestFleet.Catalog

open Domain

variable {site : Site} {trail before rest : List Entry} {e : Entry} {id : UUID}

/-! ## Versions of a plan -/

theorem planAt_id {p : Plan} (h : planAt trail id = some p) : p.id = id := by
  induction trail using List.reverseRecOn with
  | nil => cases h
  | append_singleton trail e ih =>
      rw [planAt_snoc] at h
      cases e with
      | planCreated q seen actor published =>
          rw [Entry.plan] at h
          split at h
          · cases h
            assumption
          · exact ih h
      | planRevised change expected read seen after actor published =>
          rw [Entry.plan] at h
          split at h
          · cases h
            assumption
          · exact ih h
      | planStatus after published =>
          rw [Entry.plan] at h
          split at h
          · cases h
            assumption
          · exact ih h
      | _ => exact ih h

/-- How the row of a plan changes: the binding stays, and one revision has one body. -/
structure Plan.Evolves (p q : Plan) : Prop where
  revision : p.desiredRevision ≤ q.desiredRevision
  bound : q.hostID = p.hostID ∧ q.agentID = p.agentID ∧ q.repositoryID = p.repositoryID ∧
    q.templateID = p.templateID
  body : q.desiredRevision = p.desiredRevision → q.name = p.name ∧ q.overrides = p.overrides ∧
    q.templateRevision = p.templateRevision ∧ q.effectiveConfig = p.effectiveConfig ∧
    q.configHash = p.configHash

theorem Plan.Evolves.refl (p : Plan) : p.Evolves p :=
  ⟨Int.le_refl _, ⟨rfl, rfl, rfl, rfl⟩, fun _ => ⟨rfl, rfl, rfl, rfl, rfl⟩⟩

theorem Plan.Evolves.trans {p q r : Plan} (h : p.Evolves q) (h' : q.Evolves r) : p.Evolves r := by
  obtain ⟨hh, ha, hr, ht⟩ := h.bound
  obtain ⟨hh', ha', hr', ht'⟩ := h'.bound
  have h₁ := h.revision
  have h₂ := h'.revision
  refine ⟨Int.le_trans h₁ h₂, ⟨hh'.trans hh, ha'.trans ha, hr'.trans hr, ht'.trans ht⟩, ?_⟩
  intro heq
  obtain ⟨n, o, v, c, d⟩ := h.body (by omega)
  obtain ⟨n', o', v', c', d'⟩ := h'.body (by omega)
  exact ⟨n'.trans n, o'.trans o, v'.trans v, c'.trans c, d'.trans d⟩

theorem Plan.evolves_revised {p next : Plan} (h : next.templateID = p.templateID) :
    p.Evolves (p.revised next) := by
  refine ⟨?_, ⟨rfl, rfl, rfl, h⟩, ?_⟩
  · change p.desiredRevision ≤ p.desiredRevision + 1
    omega
  · intro heq
    change p.desiredRevision + 1 = p.desiredRevision at heq
    omega

theorem Plan.evolves_status (p : Plan) (status : PlanStatus) (now : Stamp) :
    p.Evolves { p with status := status, updatedAt := now } :=
  ⟨Int.le_refl _, ⟨rfl, rfl, rfl, rfl⟩, fun _ => ⟨rfl, rfl, rfl, rfl, rfl⟩⟩

theorem Entry.Fits.plan_evolves {p : Plan} (hf : e.Fits site trail) (hp : planAt trail id = some p) :
    ∃ q, e.plan id (some p) = some q ∧ p.Evolves q := by
  have hsame : ∃ q, some p = some q ∧ p.Evolves q := ⟨p, rfl, .refl p⟩
  cases e with
  | planCreated new seen actor published =>
      rw [Entry.plan]
      split
      · rename_i heq
        rw [← heq, hf.1] at hp
        cases hp
      · exact hsame
  | planRevised change expected read seen after actor published =>
      obtain ⟨-, -, old, next, hb, -, -, -, ht, hbuilt, rfl⟩ := hf
      rw [Entry.plan]
      split
      · rename_i heq
        rw [heq, hp] at hb
        cases hb
        exact ⟨_, rfl, Plan.evolves_revised (hbuilt.template.trans ht.symm)⟩
      · exact hsame
  | planStatus after published =>
      obtain ⟨old, status, now, hb, rfl⟩ := hf
      rw [Entry.plan]
      split
      · rename_i heq
        rw [heq, hp] at hb
        cases hb
        exact ⟨_, rfl, Plan.evolves_status _ status now⟩
      · exact hsame
  | _ => exact hsame

theorem planAt_evolves {p : Plan} (hc : Checked (Entry.Fits site) (before ++ rest))
    (hp : planAt before id = some p) : ∃ q, planAt (before ++ rest) id = some q ∧ p.Evolves q := by
  induction rest using List.reverseRecOn with
  | nil =>
      rw [List.append_nil]
      exact ⟨p, hp, .refl p⟩
  | append_singleton rest e ih =>
      rw [← List.append_assoc] at hc ⊢
      obtain ⟨q, hq, hpq⟩ := ih hc.of_append
      obtain ⟨r, hr, hqr⟩ := hc.last.plan_evolves hq
      rw [planAt_snoc, hq]
      exact ⟨r, hr, hpq.trans hqr⟩

/-! ## Versions of a template -/

theorem templateAt_id {t : Template} (h : templateAt trail id = some t) : t.id = id := by
  induction trail using List.reverseRecOn generalizing t with
  | nil => cases h
  | append_singleton trail e ih =>
      rw [templateAt_snoc] at h
      cases e with
      | templateCreated u hash actor =>
          rw [Entry.template] at h
          split at h
          · cases h
            assumption
          · exact ih h
      | templateRevised change expected read seen after hash actor =>
          rw [Entry.template] at h
          split at h
          · cases h
            assumption
          · exact ih h
      | templateArchived i now =>
          rw [Entry.template] at h
          split at h
          · obtain ⟨u, hu, rfl⟩ := Option.map_eq_some_iff.mp h
            have hid := ih hu
            exact hid
          · exact ih h
      | _ => exact ih h

/-- How a template changes: one revision has one body, and no archival is undone. -/
structure Template.Evolves (t u : Template) : Prop where
  revision : t.currentRevision ≤ u.currentRevision
  archived : t.archivedAt.isSome → u.archivedAt.isSome
  body : u.currentRevision = t.currentRevision → u.description = t.description ∧ u.config = t.config

theorem Template.Evolves.refl (t : Template) : t.Evolves t :=
  ⟨Int.le_refl _, fun h => h, fun _ => ⟨rfl, rfl⟩⟩

theorem Template.Evolves.trans {t u v : Template} (h : t.Evolves u) (h' : u.Evolves v) :
    t.Evolves v := by
  have h₁ := h.revision
  have h₂ := h'.revision
  refine ⟨Int.le_trans h₁ h₂, fun ha => h'.archived (h.archived ha), ?_⟩
  intro heq
  obtain ⟨d, c⟩ := h.body (by omega)
  obtain ⟨d', c'⟩ := h'.body (by omega)
  exact ⟨d'.trans d, c'.trans c⟩

theorem Entry.Fits.template_evolves {t : Template} (hf : e.Fits site trail)
    (ht : templateAt trail id = some t) : ∃ u, e.template id (some t) = some u ∧ t.Evolves u := by
  have hsame : ∃ u, some t = some u ∧ t.Evolves u := ⟨t, rfl, .refl t⟩
  cases e with
  | templateCreated new hash actor =>
      rw [Entry.template]
      split
      · rename_i heq
        rw [← heq, hf.1] at ht
        cases ht
      · exact hsame
  | templateRevised change expected read seen after hash actor =>
      obtain ⟨-, -, -, old, now, hb, harch, -, hafter⟩ := hf
      rw [Entry.template]
      split
      · rename_i heq
        rw [heq, ht] at hb
        cases hb
        have hrev : after.currentRevision = t.currentRevision + 1 := by rw [hafter]
        refine ⟨after, rfl, by omega, ?_, fun h => by omega⟩
        rw [harch]
        intro h
        cases h
      · exact hsame
  | templateArchived i now =>
      rw [Entry.template]
      split
      · exact ⟨_, rfl, Int.le_refl _, fun _ => rfl, fun _ => ⟨rfl, rfl⟩⟩
      · exact hsame
  | _ => exact hsame

theorem templateAt_evolves {t : Template} (hc : Checked (Entry.Fits site) (before ++ rest))
    (ht : templateAt before id = some t) :
    ∃ u, templateAt (before ++ rest) id = some u ∧ t.Evolves u := by
  induction rest using List.reverseRecOn with
  | nil =>
      rw [List.append_nil]
      exact ⟨t, ht, .refl t⟩
  | append_singleton rest e ih =>
      rw [← List.append_assoc] at hc ⊢
      obtain ⟨u, hu, htu⟩ := ih hc.of_append
      obtain ⟨v, hv, huv⟩ := hc.last.template_evolves hu
      rw [templateAt_snoc, hu]
      exact ⟨v, hv, htu.trans huv⟩

/-- A template is archived by an archival only. -/
theorem Entry.Fits.template_live {t : Template} (hf : e.Fits site trail)
    (hlive : t.archivedAt = none) (he : e.archives id = false) :
    ∃ u, e.template id (some t) = some u ∧ u.archivedAt = none := by
  have hsame : ∃ u, some t = some u ∧ u.archivedAt = none := ⟨t, rfl, hlive⟩
  cases e with
  | templateCreated new hash actor =>
      rw [Entry.template]
      split
      · exact ⟨new, rfl, hf.2.2.2.1⟩
      · exact hsame
  | templateRevised change expected read seen after hash actor =>
      obtain ⟨-, -, -, old, now, -, harch, -, hafter⟩ := hf
      rw [Entry.template]
      split
      · refine ⟨after, rfl, ?_⟩
        rw [hafter]
        exact harch
      · exact hsame
  | templateArchived i now =>
      rw [Entry.template, if_neg (by simpa [Entry.archives] using he)]
      exact hsame
  | _ => exact hsame

/-- A live template stays live while no archival of it is appended. -/
theorem templateAt_live {t : Template} (hc : Checked (Entry.Fits site) (before ++ rest))
    (ht : templateAt before id = some t) (hlive : t.archivedAt = none)
    (hrest : ∀ e ∈ rest, e.archives id = false) :
    ∃ u, templateAt (before ++ rest) id = some u ∧ u.archivedAt = none := by
  induction rest using List.reverseRecOn with
  | nil =>
      rw [List.append_nil]
      exact ⟨t, ht, hlive⟩
  | append_singleton rest e ih =>
      rw [← List.append_assoc] at hc ⊢
      obtain ⟨u, hu, hul⟩ := ih hc.of_append fun e' he' => hrest e' (List.mem_append_left _ he')
      rw [templateAt_snoc, hu]
      exact hc.last.template_live hul (hrest e (by simp))

/-! ## Revisions of a template -/

theorem templateAt_of_revisionAt {key : UUID × ℤ} (hc : Checked (Entry.Fits site) trail)
    (h : (revisionAt trail key).isSome) : (templateAt trail key.1).isSome := by
  induction hc using Checked.induction with
  | nil => cases h
  | snoc trail e hb he ih =>
      rw [revisionAt_snoc] at h
      rw [templateAt_snoc]
      cases e with
      | templateCreated t hash actor =>
          rw [Entry.revision] at h
          split at h
          · rename_i heq
            simp [Entry.template, ← heq]
          · exact isSome_template (ih h) _
      | templateRevised change expected read seen after hash actor =>
          rw [Entry.revision] at h
          split at h
          · rename_i heq
            simp [Entry.template, ← heq]
          · exact isSome_template (ih h) _
      | _ => exact isSome_template (ih h) _

theorem Entry.Fits.revision_keeps {key : UUID × ℤ} {config : TemplateConfig}
    (hf : e.Fits site trail) (h : revisionAt trail key = some config) :
    e.revision key (some config) = some config := by
  cases e with
  | templateCreated t hash actor =>
      rw [Entry.revision]
      split
      · rename_i heq
        rw [← heq, hf.2.1] at h
        cases h
      · rfl
  | templateRevised change expected read seen after hash actor =>
      rw [Entry.revision]
      split
      · rename_i heq
        rw [← heq, hf.2.2.1] at h
        cases h
      · rfl
  | _ => rfl

end RestFleet.Catalog
