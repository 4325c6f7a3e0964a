import RestFleet.Verification.Fleet.Frame

/-! # Invariants of the committed database -/

namespace RestFleet.Fleet

variable {db : Database} {e : Entry} {id : UUID}

theorem persists_step {P : Database → Prop} (hP : Persists P) (hf : e.Fits db) (h : P db) :
    P (e.commit db) :=
  hP db (e.commit db) (Tx.Journal.Extends.refl.event (J := journal) trivial hf) h

/-! ## References to hosts -/

/-- Tokens and Agents belong to hosts, and an Agent that has been ACTIVE keeps its host. -/
structure Hosted (db : Database) : Prop where
  token : ∀ id token, db.tokens.row id = some token → (db.hosts.row token.hostID).isSome
  agent : ∀ id hostID, ActiveOn db id hostID → (db.hosts.row hostID).isSome

theorem token_commit {token : Token} (hf : e.Fits db) (h : (e.commit db).tokens.row id = some token) :
    (∃ old, db.tokens.row id = some old ∧ token.hostID = old.hostID ∧
      token.expiresAt = old.expiresAt) ∨ e = .tokenCreated id token := by
  have hmodify : ∀ {g : Token → Token} {i : UUID}, (db.tokens.modify i g).row id = some token →
      (∀ x, (g x).hostID = x.hostID ∧ (g x).expiresAt = x.expiresAt) →
      ∃ old, db.tokens.row id = some old ∧ token.hostID = old.hostID ∧
        token.expiresAt = old.expiresAt := by
    intro g i hrow hg
    by_cases hi : id = i
    · subst hi
      rw [Table.row_modify_self, Option.map_eq_some_iff] at hrow
      obtain ⟨old, hold, rfl⟩ := hrow
      exact ⟨old, hold, hg old⟩
    · rw [Table.row_modify_ne hi] at hrow
      exact ⟨token, hrow, rfl, rfl⟩
  cases e with
  | tokenCreated i new =>
      by_cases hi : id = i
      · subst hi
        have hnew : (Entry.commit (.tokenCreated id new) db).tokens.row id = some new :=
          Table.row_insert_self
        rw [hnew] at h
        cases h
        exact Or.inr rfl
      · rw [Entry.token_of_not_touches (by simp [Entry.touches, hi])] at h
        exact Or.inl ⟨token, h, rfl, rfl⟩
  | tokenRevoked i now => exact Or.inl (hmodify h fun _ => ⟨rfl, rfl⟩)
  | enrolled tokenID agentID agent certificate now missed =>
      change (Database.setHostStatus? _ missed _ _ now).tokens.row id = _ at h
      rw [tokens_setHostStatus?] at h
      exact Or.inl (hmodify h fun _ => ⟨rfl, rfl⟩)
  | _ =>
      rw [Entry.token_of_not_touches (by simp [Entry.touches])] at h
      exact Or.inl ⟨token, h, rfl, rfl⟩

theorem hosted_step (hf : e.Fits db) (h : Hosted db) : Hosted (e.commit db) := by
  have hstay : ∀ {hostID : UUID}, (db.hosts.row hostID).isSome →
      ((e.commit db).hosts.row hostID).isSome := fun hrow => persists_step persists_host hf hrow
  refine ⟨fun i token hrow => ?_, fun i hostID hactive => ?_⟩
  · rcases token_commit hf hrow with ⟨old, hold, hhost, -⟩ | rfl
    · rw [hhost]
      exact hstay (h.token i old hold)
    · exact hstay hf.2.1
  · rcases (activeOn_commit hf).mp hactive with hnew | ⟨-, hold⟩
    · cases e with
      | enrolled tokenID agentID agent certificate now missed =>
          obtain ⟨⟨token, htoken, -, hhost⟩, -⟩ := hf
          rw [← hnew.2, ← hhost]
          exact hstay (h.token tokenID token htoken)
      | _ => exact hnew.elim
    · exact hstay (h.agent i hostID hold)

theorem hosted_of_reaches (h : journal.Reaches db) : Hosted db := by
  refine h.invariant (P := Hosted) ?_ fun e db hg hdb => hosted_step hg hdb
  rintro db rfl
  refine ⟨nofun, ?_⟩
  rintro i hostID ⟨a, ha, -⟩
  cases ha

/-! ## One ACTIVE Agent for a host -/

theorem unique_step (hf : e.Fits db)
    (h : ∀ a b hostID, ActiveOn db a hostID → ActiveOn db b hostID → a = b) :
    ∀ a b hostID, ActiveOn (e.commit db) a hostID → ActiveOn (e.commit db) b hostID → a = b := by
  -- An enrollment has found no ACTIVE Agent on its host.
  have hfree : ∀ {a b hostID}, e.activates a hostID → ActiveOn db b hostID → a = b := by
    intro a b hostID hnew hold
    cases e with
    | enrolled tokenID agentID agent certificate now missed =>
        obtain ⟨-, -, -, hnone, -⟩ := hf
        rw [hnew.2] at hnone
        have hsome := hasActiveAgent_iff.mpr ⟨b, hold⟩
        rw [hnone] at hsome
        cases hsome
    | _ => exact hnew.elim
  have hboth : ∀ {a b hostID}, e.activates a hostID → e.activates b hostID → a = b := by
    intro a b hostID ha hb
    cases e with
    | enrolled => exact ha.1.symm.trans hb.1
    | _ => exact ha.elim
  intro a b hostID ha hb
  rcases (activeOn_commit hf).mp ha with ha | ⟨-, ha⟩ <;>
    rcases (activeOn_commit hf).mp hb with hb | ⟨-, hb⟩
  · exact hboth ha hb
  · exact hfree ha hb
  · exact (hfree hb ha).symm
  · exact h a b hostID ha hb

theorem unique_of_reaches (h : journal.Reaches db) :
    ∀ a b hostID, ActiveOn db a hostID → ActiveOn db b hostID → a = b := by
  refine h.invariant (P := fun db : Database => ∀ a b hostID, ActiveOn db a hostID →
    ActiveOn db b hostID → a = b) ?_ fun e db hg hdb => unique_step hg hdb
  rintro db rfl a b hostID ⟨row, hrow, -⟩
  cases hrow

/-! ## Spent tokens -/

def Entry.spends (id : UUID) : Entry → Prop
  | .tokenRevoked i _ => i = id
  | .enrolled tokenID _ _ _ _ _ => tokenID = id
  | _ => False

/-- A token that an entry has spent stays spent. -/
def Spent (db : Database) (id : UUID) : Prop :=
  ∃ token, db.tokens.row id = some token ∧ (token.usedAt.isSome ∨ token.revokedAt.isSome)

theorem not_usable_of_spent {token : Token} {now : Stamp} (h : Spent db id)
    (hrow : db.tokens.row id = some token) : token.usable now = false := by
  obtain ⟨token', hrow', hspent⟩ := h
  rw [hrow] at hrow'
  cases hrow'
  rcases hspent with hspent | hspent
  · simp [Token.usable, Option.isSome_iff_ne_none.mp hspent]
  · simp [Token.usable, Option.isSome_iff_ne_none.mp hspent]

theorem persists_spent : Persists fun db => Spent db id := by
  refine persists_of_step fun e db hf h => ?_
  obtain ⟨token, hrow, hspent⟩ := h
  have hmodify : ∀ {g : Token → Token} {i : UUID}, (∀ x, x.usedAt.isSome ∨ x.revokedAt.isSome →
      (g x).usedAt.isSome ∨ (g x).revokedAt.isSome) → ∃ new, (db.tokens.modify i g).row id = some new ∧
        (new.usedAt.isSome ∨ new.revokedAt.isSome) := by
    intro g i hg
    by_cases hi : id = i
    · subst hi
      rw [Table.row_modify_self, hrow]
      exact ⟨g token, rfl, hg token hspent⟩
    · rw [Table.row_modify_ne hi]
      exact ⟨token, hrow, hspent⟩
  cases e with
  | tokenCreated i new =>
      have hi : id ≠ i := by
        rintro rfl
        rw [hf.1] at hrow
        cases hrow
      refine ⟨token, ?_, hspent⟩
      rw [Entry.token_of_not_touches (by simp [Entry.touches, hi])]
      exact hrow
  | tokenRevoked i now => exact hmodify fun x _ => Or.inr rfl
  | enrolled tokenID agentID agent certificate now missed =>
      unfold Spent
      change ∃ token, (Database.setHostStatus? _ missed _ _ now).tokens.row id = _ ∧ _
      rw [tokens_setHostStatus?]
      exact hmodify fun x _ => Or.inl rfl
  | _ =>
      refine ⟨token, ?_, hspent⟩
      rw [Entry.token_of_not_touches (by simp [Entry.touches])]
      exact hrow

theorem spent_commit (hf : e.Fits db) (h : e.spends id) : Spent (e.commit db) id := by
  cases e with
  | tokenRevoked i now =>
      cases (h : i = id)
      obtain ⟨token, hrow, -⟩ := hf
      refine ⟨{ token with revokedAt := some now }, ?_, Or.inr rfl⟩
      change (db.tokens.modify id _).row id = _
      rw [Table.row_modify_self, hrow]
      rfl
  | enrolled tokenID agentID agent certificate now missed =>
      cases (h : tokenID = id)
      obtain ⟨⟨token, hrow, -⟩, -⟩ := hf
      refine ⟨{ token with usedAt := some now, usedByAgentID := some agentID }, ?_, Or.inl rfl⟩
      change (Database.setHostStatus? _ missed _ _ now).tokens.row id = _
      rw [tokens_setHostStatus?]
      change (db.tokens.modify id _).row id = _
      rw [Table.row_modify_self, hrow]
      rfl
  | _ => exact h.elim

theorem spent_of_mem (hr : journal.Reaches db) : ∀ e ∈ db.trail, e.spends id → Spent db id := by
  refine hr.invariant (P := fun db : Database => ∀ e ∈ db.trail, Entry.spends id e → Spent db id)
    ?_ ?_
  · rintro db rfl e he
    cases he
  · rintro (e : Entry) (db : Database) (hf : e.Fits db) ih
    change ∀ e' ∈ (e.commit db).trail, Entry.spends id e' → Spent (e.commit db) id
    intro e' he' hspends
    rw [trail_commit, List.mem_append, List.mem_singleton] at he'
    rcases he' with he' | rfl
    · exact persists_step persists_spent hf (ih e' he' hspends)
    · exact spent_commit hf hspends

theorem created_of_row (hr : journal.Reaches db) : ∀ token, db.tokens.row id = some token →
    ∃ new, .tokenCreated id new ∈ db.trail ∧ new.expiresAt = token.expiresAt := by
  refine hr.invariant (P := fun db : Database => ∀ token, db.tokens.row id = some token →
    ∃ new, Entry.tokenCreated id new ∈ db.trail ∧ new.expiresAt = token.expiresAt) ?_ ?_
  · rintro db rfl token hrow
    cases hrow
  · rintro (e : Entry) (db : Database) (hf : e.Fits db) ih
    change ∀ token, (e.commit db).tokens.row id = some token →
      ∃ new, Entry.tokenCreated id new ∈ (e.commit db).trail ∧ new.expiresAt = token.expiresAt
    intro token hrow
    rw [trail_commit]
    rcases token_commit hf hrow with ⟨old, hold, -, hexpires⟩ | rfl
    · obtain ⟨new, hnew, hsame⟩ := ih old hold
      exact ⟨new, by simp [hnew], hsame.trans hexpires.symm⟩
    · exact ⟨token, by simp, rfl⟩

end RestFleet.Fleet
