import RestFleet.Shared.Request
import RestFleet.Verification.Fleet.Journal

/-! # What lasts of what a transaction has read -/

namespace RestFleet.Fleet

/-- A fact that lasts while `keys` are held. -/
abbrev Keeps (t : ℕ) (keys : List Key) (P : Database → Prop) : Prop :=
  Tx.Lasts journal.discipline t keys P

/-- A fact that no commit ends. -/
abbrev Persists (P : Database → Prop) : Prop := Tx.Persists journal.discipline P

variable {t : ℕ} {keys : List Key} {P : Database → Prop} {e : Entry} {db : Database} {id : UUID}

theorem keeps_of_key {k : Key} (hk : k ∈ keys)
    (h : ∀ (e : Entry) (db : Database), ¬ e.touches k → e.Fits db → P db → P (e.commit db)) :
    Keeps t keys P :=
  Tx.Journal.lasts_of_key (J := journal) hk h

theorem persists_of_step
    (h : ∀ (e : Entry) (db : Database), e.Fits db → P db → P (e.commit db)) : Persists P :=
  fun _ _ hext => hext.keeps fun e db _ => h e db

/-! ## Rows that an entry leaves alone -/

theorem hosts_setHostStatus?_of_ne {missed : Option ℕ} {hostID : UUID} {status : HostStatus}
    {now : Stamp} (h : missed = none → hostID ≠ id) :
    (db.setHostStatus? missed hostID status now).hosts.row id = db.hosts.row id := by
  cases missed with
  | none => exact Table.row_modify_ne (h rfl).symm
  | some n => rfl

@[simp] theorem agents_setHostStatus? {missed : Option ℕ} {status : HostStatus} {now : Stamp} :
    (db.setHostStatus? missed id status now).agents = db.agents := by
  cases missed <;> rfl

@[simp] theorem tokens_setHostStatus? {missed : Option ℕ} {status : HostStatus} {now : Stamp} :
    (db.setHostStatus? missed id status now).tokens = db.tokens := by
  cases missed <;> rfl

@[simp] theorem certificates_setHostStatus? {missed : Option ℕ} {status : HostStatus}
    {now : Stamp} : (db.setHostStatus? missed id status now).certificates = db.certificates := by
  cases missed <;> rfl

theorem Entry.host_of_not_touches (h : ¬ e.touches (.host id)) :
    (e.commit db).hosts.row id = db.hosts.row id := by
  have hne : ∀ {i : UUID}, ¬ Key.host id = .host i → id ≠ i := fun hk he => hk (by rw [he])
  cases e with
  | hostCreated i now => exact Table.row_insert_ne (hne h)
  | hostUpdated i now => exact Table.row_modify_ne (hne h)
  | hostSet i enabled status seen now => exact Table.row_modify_ne (hne h)
  | enrolled tokenID agentID agent certificate now missed =>
      refine hosts_setHostStatus?_of_ne fun hm => (hne fun hk => h ?_).symm
      exact Or.inr (Or.inr (Or.inr (Or.inr ⟨hm, hk⟩)))
  | agentRevoked i hostID reason now missed =>
      exact hosts_setHostStatus?_of_ne fun hm => (hne fun hk => h (Or.inr (Or.inr ⟨hm, hk⟩))).symm
  | _ => rfl

theorem Entry.token_of_not_touches (h : ¬ e.touches (.token id)) :
    (e.commit db).tokens.row id = db.tokens.row id := by
  have hne : ∀ {i : UUID}, ¬ Key.token id = .token i → id ≠ i := fun hk he => hk (by rw [he])
  cases e with
  | tokenCreated i token => exact Table.row_insert_ne (hne h)
  | tokenRevoked i now => exact Table.row_modify_ne (hne h)
  | enrolled tokenID agentID agent certificate now missed =>
      change (Database.setHostStatus? _ missed _ _ now).tokens.row id = _
      rw [tokens_setHostStatus?]
      exact Table.row_modify_ne (hne fun hk => h (Or.inl hk))
  | agentRevoked i hostID reason now missed =>
      change (Database.setHostStatus? _ missed _ _ now).tokens.row id = _
      rw [tokens_setHostStatus?]
      rfl
  | _ => rfl

theorem Entry.agent_of_not_touches (h : ¬ e.touches (.agent id)) :
    (e.commit db).agents.row id = db.agents.row id := by
  have hne : ∀ {i : UUID}, ¬ Key.agent id = .agent i → id ≠ i := fun hk he => hk (by rw [he])
  cases e with
  | enrolled tokenID agentID agent certificate now missed =>
      change (Database.setHostStatus? _ missed _ _ now).agents.row id = _
      rw [agents_setHostStatus?]
      exact Table.row_insert_ne (hne fun hk => h (Or.inr (Or.inl hk)))
  | agentRevoked i hostID reason now missed =>
      change (Database.setHostStatus? _ missed _ _ now).agents.row id = _
      rw [agents_setHostStatus?]
      exact Table.row_modify_ne (hne fun hk => h (Or.inl hk))
  | rotated agentID serial certificate now =>
      exact Table.row_modify_ne (hne fun hk => h (Or.inl hk))
  | _ => rfl

/-! ## Rows under their locks -/

theorem keeps_host {F : Option Host → Prop} (hk : .host id ∈ keys) :
    Keeps t keys fun db => F (db.hosts.row id) :=
  keeps_of_key hk fun _ _ ht _ hF => by rwa [Entry.host_of_not_touches ht]

theorem keeps_token {F : Option Token → Prop} (hk : .token id ∈ keys) :
    Keeps t keys fun db => F (db.tokens.row id) :=
  keeps_of_key hk fun _ _ ht _ hF => by rwa [Entry.token_of_not_touches ht]

theorem keeps_agent {F : Option Agent → Prop} (hk : .agent id ∈ keys) :
    Keeps t keys fun db => F (db.agents.row id) :=
  keeps_of_key hk fun _ _ ht _ hF => by rwa [Entry.agent_of_not_touches ht]

/-! ## The ACTIVE Agents of a host -/

theorem hasActiveAgent_iff {hostID : UUID} :
    db.hasActiveAgent hostID = true ↔ ∃ id, ActiveOn db id hostID := by
  rw [Database.hasActiveAgent, List.any_eq_true]
  constructor
  · rintro ⟨a, ha, hcond⟩
    obtain ⟨i, hrow⟩ := Table.mem_rows.mp ha
    rw [Bool.and_eq_true, decide_eq_true_eq, decide_eq_true_eq] at hcond
    exact ⟨i, a, hrow, hcond.1, hcond.2⟩
  · rintro ⟨i, a, hrow, hhost, hactive⟩
    exact ⟨a, Table.mem_rows.mpr ⟨i, hrow⟩, by simp [hhost, hactive]⟩

def Entry.activates (id hostID : UUID) : Entry → Prop
  | .enrolled _ agentID agent _ _ _ => agentID = id ∧ agent.hostID = hostID
  | _ => False

def Entry.revokes (id : UUID) : Entry → Prop
  | .agentRevoked i _ _ _ _ => i = id
  | _ => False

theorem activeOn_commit {hostID : UUID} (hf : e.Fits db) : ActiveOn (e.commit db) id hostID ↔
    e.activates id hostID ∨ (¬ e.revokes id ∧ ActiveOn db id hostID) := by
  have hsame : (e.commit db).agents.row id = db.agents.row id →
      (ActiveOn (e.commit db) id hostID ↔ ActiveOn db id hostID) := by
    intro h
    rw [ActiveOn, ActiveOn, h]
  cases e with
  | enrolled tokenID agentID agent certificate now missed =>
      obtain ⟨-, hnone, hactive, -⟩ := hf
      by_cases hid : agentID = id
      · subst hid
        have hrow : (Entry.commit (.enrolled tokenID agentID agent certificate now missed)
            db).agents.row agentID = some agent := by
          change (Database.setHostStatus? _ missed _ _ now).agents.row agentID = _
          rw [agents_setHostStatus?]
          exact Table.row_insert_self
        simp [ActiveOn, hrow, hnone, hactive, Entry.activates]
      · rw [hsame (Entry.agent_of_not_touches (by simp [Entry.touches, Ne.symm hid]))]
        simp [Entry.activates, Entry.revokes, hid]
  | agentRevoked i host reason now missed =>
      by_cases hid : i = id
      · subst hid
        have hrow : (Entry.commit (.agentRevoked i host reason now missed) db).agents.row i =
            (db.agents.row i).map fun a => { a with status := .revoked, updatedAt := now } := by
          change (Database.setHostStatus? _ missed _ _ now).agents.row i = _
          rw [agents_setHostStatus?]
          exact Table.row_modify_self
        simp [ActiveOn, hrow, Entry.activates, Entry.revokes]
      · rw [hsame (Entry.agent_of_not_touches (by simp [Entry.touches, Ne.symm hid]))]
        simp [Entry.activates, Entry.revokes, hid]
  | rotated agentID serial certificate now =>
      simp only [Entry.activates, Entry.revokes, false_or, not_false_eq_true, true_and]
      by_cases hid : agentID = id
      · subst hid
        have hrow : (Entry.commit (.rotated agentID serial certificate now) db).agents.row agentID =
            (db.agents.row agentID).map _ := Table.row_modify_self
        rw [ActiveOn, ActiveOn, hrow]
        cases db.agents.row agentID <;> simp
      · exact hsame (Entry.agent_of_not_touches (by simp [Entry.touches, Ne.symm hid]))
  | _ => simp [Entry.activates, Entry.revokes, hsame rfl]

/-- Who has the entry of the unique index keeps the host free of other ACTIVE Agents. -/
theorem keeps_free {hostID : UUID} (hk : .activeAgent hostID ∈ keys) :
    Keeps t keys fun db => db.hasActiveAgent hostID = false := by
  refine keeps_of_key hk fun e db ht hf hfree => ?_
  rw [Bool.eq_false_iff, ne_eq, hasActiveAgent_iff] at hfree ⊢
  rintro ⟨i, hi⟩
  rcases (activeOn_commit hf).mp hi with hnew | ⟨-, hold⟩
  · cases e with
    | enrolled tokenID agentID agent certificate now missed =>
        refine ht (Or.inr (Or.inr (Or.inl ?_)))
        rw [hnew.2]
    | _ => exact hnew.elim
  · exact hfree ⟨i, hold⟩

/-! ## What no commit ends -/

/-- A fact about the database when `n` entries had been committed. -/
theorem persists_past {F : Database → Prop} {n : ℕ} :
    Persists fun db => n ≤ db.trail.length ∧ F (db.past n) := by
  refine persists_of_step fun e db _ h => ?_
  rw [past_commit h.1, trail_commit, List.length_append]
  exact ⟨Nat.le_trans h.1 (Nat.le_add_right _ _), h.2⟩

theorem persists_host : Persists fun db => (db.hosts.row id).isSome := by
  refine persists_of_step fun e db _ h => ?_
  have hset : ∀ {d : Database} {missed hostID status now}, (d.hosts.row id).isSome →
      ((d.setHostStatus? missed hostID status now).hosts.row id).isSome := by
    intro d missed hostID status now hd
    cases missed with
    | none => exact Table.isSome_row_modify.trans hd
    | some n => exact hd
  cases e with
  | hostCreated i now => exact Table.isSome_row_insert h
  | hostUpdated i now => exact Table.isSome_row_modify.trans h
  | hostSet i enabled status seen now => exact Table.isSome_row_modify.trans h
  | enrolled tokenID agentID agent certificate now missed => exact hset h
  | agentRevoked i hostID reason now missed => exact hset h
  | _ => exact h

theorem persists_token : Persists fun db => (db.tokens.row id).isSome := by
  refine persists_of_step fun e db _ h => ?_
  cases e with
  | tokenCreated i token => exact Table.isSome_row_insert h
  | tokenRevoked i now => exact Table.isSome_row_modify.trans h
  | enrolled tokenID agentID agent certificate now missed =>
      change ((Database.setHostStatus? _ missed _ _ now).tokens.row id).isSome = true
      rw [tokens_setHostStatus?]
      exact Table.isSome_row_modify.trans h
  | agentRevoked i hostID reason now missed =>
      change ((Database.setHostStatus? _ missed _ _ now).tokens.row id).isSome = true
      rw [tokens_setHostStatus?]
      exact h
  | _ => exact h

theorem persists_agent : Persists fun db => (db.agents.row id).isSome := by
  refine persists_of_step fun e db _ h => ?_
  cases e with
  | enrolled tokenID agentID agent certificate now missed =>
      change ((Database.setHostStatus? _ missed _ _ now).agents.row id).isSome = true
      rw [agents_setHostStatus?]
      exact Table.isSome_row_insert h
  | agentRevoked i hostID reason now missed =>
      change ((Database.setHostStatus? _ missed _ _ now).agents.row id).isSome = true
      rw [agents_setHostStatus?]
      exact Table.isSome_row_modify.trans h
  | rotated agentID serial certificate now => exact Table.isSome_row_modify.trans h
  | _ => exact h

/-! ## Certificates -/

def Owned (db : Database) (serial : Text) (agentID : UUID) : Prop :=
  ∃ c, db.certificates.row serial = some c ∧ c.agentID = agentID

theorem certificates_enrolled {tokenID agentID : UUID} {agent : Agent} {c : Certificate}
    {now : Stamp} {missed : Option ℕ} :
    (Entry.commit (.enrolled tokenID agentID agent c now missed) db).certificates =
      db.certificates.insert c.serialNumber c :=
  certificates_setHostStatus?

theorem certificates_agentRevoked {i hostID : UUID} {reason : Text} {now : Stamp}
    {missed : Option ℕ} :
    (Entry.commit (.agentRevoked i hostID reason now missed) db).certificates =
      (db.revokeCertificates i reason now).certificates :=
  certificates_setHostStatus?

theorem keeps_serial {serial : Text} (hk : .certificate serial ∈ keys) :
    Keeps t keys fun db => db.certificates.row serial = none := by
  refine keeps_of_key hk fun e db ht _ h => ?_
  have hne : ∀ {s : Text}, ¬ Key.certificate serial = .certificate s → serial ≠ s :=
    fun hs he => hs (by rw [he])
  cases e with
  | enrolled tokenID agentID agent c now missed =>
      rw [certificates_enrolled, Table.row_insert_ne (hne fun hs => ht (by simp [Entry.touches, hs]))]
      exact h
  | agentRevoked i hostID reason now missed =>
      rw [certificates_agentRevoked]
      change (Table.map _ _).row serial = none
      rw [Table.row_map, h]
      rfl
  | rotated agentID s c now =>
      change ((db.certificates.insert c.serialNumber c).modify s _).row serial = none
      rw [← Option.isNone_iff_eq_none, ← Option.not_isSome, Table.isSome_row_modify,
        Table.row_insert_ne (hne fun hs => ht (Or.inr hs)), h]
      rfl
  | _ => exact h

/-- A certificate stays with its Agent, as an insertion finds its serial number unused. -/
theorem persists_owned {serial : Text} {agentID : UUID} :
    Persists fun db => Owned db serial agentID := by
  refine persists_of_step fun e db hf h => ?_
  obtain ⟨c, hrow, hagent⟩ := h
  have hnew : ∀ {s : Text}, db.certificates.row s = none → serial ≠ s := by
    rintro s hs rfl
    rw [hs] at hrow
    cases hrow
  cases e with
  | enrolled tokenID i agent new now missed =>
      obtain ⟨-, -, -, -, hunused, -⟩ := hf
      refine ⟨c, ?_, hagent⟩
      rw [certificates_enrolled, Table.row_insert_ne (hnew hunused)]
      exact hrow
  | agentRevoked i hostID reason now missed =>
      rw [Owned, certificates_agentRevoked]
      change ∃ c, ((db.certificates.map _).row serial) = some c ∧ _
      rw [Table.row_map, hrow]
      refine ⟨_, rfl, ?_⟩
      dsimp only
      split <;> exact hagent
  | rotated i s new now =>
      obtain ⟨-, hunused⟩ := hf
      have hinsert : (db.certificates.insert new.serialNumber new).row serial = some c := by
        rw [Table.row_insert_ne (hnew hunused)]
        exact hrow
      change ∃ c, ((db.certificates.insert new.serialNumber new).modify s _).row serial = some c ∧ _
      by_cases hs : serial = s
      · subst hs
        rw [Table.row_modify_self, hinsert]
        refine ⟨_, rfl, ?_⟩
        dsimp only
        split <;> exact hagent
      · rw [Table.row_modify_ne hs]
        exact ⟨c, hinsert, hagent⟩
  | _ => exact ⟨c, hrow, hagent⟩

end RestFleet.Fleet
