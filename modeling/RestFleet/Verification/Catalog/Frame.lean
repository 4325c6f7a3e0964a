import RestFleet.Verification.Catalog.History

/-! # What lasts while a row is locked -/

namespace RestFleet.Catalog

open Domain

/-- A fact that lasts while `keys` are held. -/
abbrev Keeps (site : Site) (t : ℕ) (keys : List Key) (P : Database → Prop) : Prop :=
  Tx.Lasts (journal site).discipline t keys P

/-- A fact that no commit ends. -/
abbrev Persists (site : Site) (P : Database → Prop) : Prop :=
  Tx.Persists (journal site).discipline P

/-- A transaction that holds `keys`, has the writes `f` pending and knows `P`. -/
abbrev Within (t : ℕ) (keys : List Key) (f : Database → Database) (P : Database → Prop)
    (s : Tx.State schema) : Prop :=
  Tx.In (M := schema) t keys f P s

abbrev Spec {α : Type} (site : Site) (t : ℕ) (A : Tx.State schema → Prop) (p : CatalogM α)
    (Q : α → Tx.State schema → Prop) : Prop :=
  Tx.Body (arrivals site) (journal site).discipline t A p Q

variable {site : Site} {t : ℕ} {keys : List Key} {P : Database → Prop} {e : Entry}
  {trail : List Entry} {id : UUID}

theorem keeps_true : Keeps site t keys fun _ => True := Tx.lasts_const

theorem keeps_of_key {k : Key} (hk : k ∈ keys)
    (h : ∀ (e : Entry) (db : Database), ¬ e.touches k → e.Fits site db.trail → P db → P (e.commit db)) :
    Keeps site t keys P :=
  Tx.Journal.lasts_of_key (J := journal site) hk h

theorem persists_of_step
    (h : ∀ (e : Entry) (db : Database), e.Fits site db.trail → P db → P (e.commit db)) :
    Persists site P :=
  fun _ _ hext => hext.keeps fun e db _ => h e db

/-! ## Entries that leave a row alone -/

theorem Entry.plan_of_not_touches (h : ¬ e.touches (.plan id)) (x : Option Plan) : e.plan id x = x := by
  have hne : ∀ {i : UUID}, ¬ Key.plan id = .plan i → i ≠ id := fun hk he => hk (by rw [he])
  cases e with
  | planCreated p seen actor published => exact if_neg (hne fun hk => h (Or.inl hk))
  | planRevised change expected read seen after actor published => exact if_neg (hne h)
  | planStatus after published => exact if_neg (hne h)
  | _ => rfl

theorem Entry.template_of_not_touches (h : ¬ e.touches (.template id)) (x : Option Template) :
    e.template id x = x := by
  have hne : ∀ {i : UUID}, ¬ Key.template id = .template i → i ≠ id := fun hk he => hk (by rw [he])
  cases e with
  | templateCreated t hash actor => exact if_neg (hne h)
  | templateRevised change expected read seen after hash actor => exact if_neg (hne h)
  | templateArchived i now => exact if_neg (hne h)
  | _ => rfl

theorem Entry.revision_of_not_touches {n : ℤ} (h : ¬ e.touches (.template id))
    (x : Option TemplateConfig) : e.revision (id, n) x = x := by
  have hne : ∀ {i : UUID} {m : ℤ}, ¬ Key.template id = .template i → (i, m) ≠ (id, n) :=
    fun hk he => hk (congrArg Key.template (congrArg Prod.fst he).symm)
  cases e with
  | templateCreated t hash actor => exact if_neg (hne h)
  | templateRevised change expected read seen after hash actor => exact if_neg (hne h)
  | _ => rfl

/-! ## Rows under their locks -/

theorem keeps_plan {F : Option Plan → Prop} (hk : .plan id ∈ keys) :
    Keeps site t keys fun db => F (planAt db.trail id) := by
  refine keeps_of_key hk fun e db ht _ hF => ?_
  rw [trail_commit, planAt_snoc, Entry.plan_of_not_touches ht]
  exact hF

theorem keeps_template {F : Option Template → Prop} (hk : .template id ∈ keys) :
    Keeps site t keys fun db => F (templateAt db.trail id) := by
  refine keeps_of_key hk fun e db ht _ hF => ?_
  rw [trail_commit, templateAt_snoc, Entry.template_of_not_touches ht]
  exact hF

theorem keeps_revision {n : ℤ} {F : Option TemplateConfig → Prop} (hk : .template id ∈ keys) :
    Keeps site t keys fun db => F (revisionAt db.trail (id, n)) := by
  refine keeps_of_key hk fun e db ht _ hF => ?_
  rw [trail_commit, revisionAt_snoc, Entry.revision_of_not_touches ht]
  exact hF

def Unused (id : UUID) (trail : List Entry) : Prop :=
  ∀ planID p, planAt trail planID = some p → p.templateID = id → p.archivedAt.isSome

/-- Who locks a template keeps plans from referring to it, as their foreign key waits. -/
theorem keeps_unused (hk : .template id ∈ keys) :
    Keeps site t keys fun db => Unused id db.trail := by
  refine keeps_of_key hk fun e db ht hf hU => ?_
  rw [trail_commit]
  intro planID p hp htemplate
  rw [planAt_snoc] at hp
  cases e with
  | planCreated new seen actor published =>
      rw [Entry.plan] at hp
      split at hp
      · cases hp
        exact absurd (Or.inr (by rw [htemplate])) ht
      · exact hU planID p hp htemplate
  | planRevised change expected read seen after actor published =>
      obtain ⟨-, -, old, next, hb, -, -, -, hread, hbuilt, hafter⟩ := hf
      rw [Entry.plan] at hp
      split at hp
      · cases hp
        have hold : old.templateID = id := by
          rw [hafter] at htemplate
          rw [hread, ← hbuilt.template]
          exact htemplate
        have hlive := hU _ _ hb hold
        rw [hafter]
        exact hlive
      · exact hU planID p hp htemplate
  | planStatus after published =>
      obtain ⟨old, status, now, hb, hafter⟩ := hf
      rw [Entry.plan] at hp
      split at hp
      · cases hp
        rw [hafter] at htemplate
        have hlive := hU _ _ hb htemplate
        rw [hafter]
        exact hlive
      · exact hU planID p hp htemplate
  | _ => exact hU planID p hp htemplate

/-! ## What was read stays part of the history -/

/-- A fact about the first `n` entries. -/
theorem persists_take {F : List Entry → Prop} {n : ℕ} :
    Persists site fun db => n ≤ db.trail.length ∧ F (db.trail.take n) := by
  refine persists_of_step fun e db _ h => ?_
  rw [trail_commit, List.take_append_of_le_length h.1]
  refine ⟨?_, h.2⟩
  rw [List.length_append]
  exact Nat.le_trans h.1 (Nat.le_add_right _ _)

theorem persists_revision {key : UUID × ℤ} {config : TemplateConfig} :
    Persists site fun db => revisionAt db.trail key = some config := by
  refine persists_of_step fun e db hf h => ?_
  rw [trail_commit, revisionAt_snoc, h]
  exact hf.revision_keeps h

end RestFleet.Catalog
