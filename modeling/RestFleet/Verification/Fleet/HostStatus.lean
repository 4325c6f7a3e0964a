import RestFleet.Verification.Fleet.Sound

/-! # The status of a host and its ACTIVE Agent

Enabling, enrollment and revocation are right as long as the snapshot that they read is still true
when they commit. -/

namespace RestFleet.Fleet

def Entry.enables (id : UUID) : Entry → Bool
  | .hostSet i enabled _ _ _ => i = id && enabled
  | _ => false

def Entry.changesAgents (hostID : UUID) : Entry → Bool
  | .enrolled _ _ agent _ _ _ => agent.hostID = hostID
  | .agentRevoked _ host _ _ _ => host = hostID
  | _ => false

/-- No enabling of a host overlaps an enrollment or a revocation on it: what was read for an entry
is still true of the Agents, or of the host, when it commits. -/
def Entry.Undisturbed (before : List Entry) : Entry → Prop
  | .hostSet id enabled _ seen _ =>
    enabled = true → ∀ e ∈ before.drop seen, e.changesAgents id = false
  | .enrolled _ _ agent _ _ missed =>
    ∀ n ∈ missed, ∀ e ∈ before.drop n, e.enables agent.hostID = false
  | .agentRevoked _ hostID _ _ missed =>
    ∀ n ∈ missed, ∀ e ∈ before.drop n, e.enables hostID = false
  | _ => True

instance (before : List Entry) : ∀ e : Entry, Decidable (e.Undisturbed before)
  | .hostSet id enabled _ seen _ => inferInstanceAs (Decidable (enabled = true →
      ∀ e ∈ before.drop seen, e.changesAgents id = false))
  | .enrolled _ _ agent _ _ missed => inferInstanceAs (Decidable (∀ n ∈ missed,
      ∀ e ∈ before.drop n, e.enables agent.hostID = false))
  | .agentRevoked _ hostID _ _ missed => inferInstanceAs (Decidable (∀ n ∈ missed,
      ∀ e ∈ before.drop n, e.enables hostID = false))
  | .hostCreated _ _ | .hostUpdated _ _ | .tokenCreated _ _ | .tokenRevoked _ _ | .rotated _ _ _ _ =>
    inferInstanceAs (Decidable True)

variable {db : Database} {e : Entry} {id : UUID}

/-! ## Entries that leave the Agents of a host alone -/

theorem hasActiveAgent_step (hf : e.Fits db) (h : e.changesAgents id = false) :
    (e.commit db).hasActiveAgent id = db.hasActiveAgent id := by
  have hactive : ∀ a, ActiveOn (e.commit db) a id ↔ ActiveOn db a id := by
    intro a
    rw [activeOn_commit hf]
    constructor
    · rintro (hnew | ⟨-, hold⟩)
      · cases e with
        | enrolled => simp [Entry.changesAgents, hnew.2] at h
        | _ => exact hnew.elim
      · exact hold
    · refine fun hold => Or.inr ⟨fun hrevoked => ?_, hold⟩
      cases e with
      | agentRevoked i host reason now missed =>
          obtain ⟨⟨row, hrow, hhost, -⟩, -⟩ := hf
          obtain ⟨row', hrow', hhost', -⟩ := hold
          cases (hrevoked : i = a)
          rw [hrow] at hrow'
          cases hrow'
          simp [Entry.changesAgents, ← hhost, hhost'] at h
      | _ => exact hrevoked.elim
  rw [Bool.eq_iff_iff, hasActiveAgent_iff, hasActiveAgent_iff]
  exact exists_congr hactive

/-- The Agents of a snapshot are those of the database when no entry since has changed them. -/
theorem hasActiveAgent_run {before rest : List Entry}
    (hc : Checked (fun before e => e.Fits (replay before)) (before ++ rest))
    (h : ∀ e ∈ rest, e.changesAgents id = false) :
    (replay (before ++ rest)).hasActiveAgent id = (replay before).hasActiveAgent id := by
  induction rest using List.reverseRecOn with
  | nil => rw [List.append_nil]
  | append_singleton rest e ih =>
      rw [← List.append_assoc] at hc ⊢
      rw [replay_snoc, hasActiveAgent_step hc.last (h e (by simp))]
      exact ih hc.of_append fun e he => h e (by simp [he])

/-! ## Hosts that are switched off -/

def Off (db : Database) (id : UUID) : Prop :=
  ∃ h, db.hosts.row id = some h ∧ h.status.enrollable = false

/-- Only enabling a host switches it on. -/
theorem off_step (hf : e.Fits db) (hon : e.enables id = false) (h : Off db id) :
    Off (e.commit db) id := by
  obtain ⟨host, hrow, hoff⟩ := h
  by_cases ht : e.touches (.host id)
  · cases e with
    | hostCreated i now =>
        cases ht
        rw [Entry.Fits, hrow] at hf
        cases hf
    | hostUpdated i now =>
        cases ht
        refine ⟨{ host with revision := host.revision + 1, updatedAt := now }, ?_, hoff⟩
        change (db.hosts.modify id _).row id = _
        rw [Table.row_modify_self, hrow]
        rfl
    | hostSet i enabled status seen now =>
        cases ht
        have henabled : enabled = false := by simpa [Entry.enables] using hon
        refine ⟨{ host with status := status, revision := host.revision + 1, updatedAt := now }, ?_, ?_⟩
        · change (db.hosts.modify id _).row id = _
          rw [Table.row_modify_self, hrow]
          rfl
        · rw [hf.2.2, henabled]
          rfl
    | enrolled tokenID agentID agent certificate now missed =>
        obtain ⟨-, -, -, -, -, hmissed⟩ := hf
        simp only [Entry.touches, reduceCtorEq, Key.host.injEq, false_or] at ht
        obtain ⟨rfl, rfl⟩ := ht
        obtain ⟨host', hrow', hon'⟩ := hmissed
        rw [hrow] at hrow'
        cases hrow'
        rw [hoff] at hon'
        cases hon'
    | agentRevoked i hostID reason now missed =>
        obtain ⟨-, hmissed⟩ := hf
        simp only [Entry.touches, reduceCtorEq, Key.host.injEq, false_or] at ht
        obtain ⟨rfl, rfl⟩ := ht
        obtain ⟨host', hrow', hactive⟩ := hmissed
        rw [hrow] at hrow'
        cases hrow'
        rw [decide_eq_true_eq] at hactive
        simp [hactive, HostStatus.enrollable] at hoff
    | tokenCreated => cases ht
    | tokenRevoked => cases ht
    | rotated => simp [Entry.touches] at ht
  · refine ⟨host, ?_, hoff⟩
    rw [Entry.host_of_not_touches ht]
    exact hrow

theorem off_run {before rest : List Entry}
    (hc : Checked (fun before e => e.Fits (replay before)) (before ++ rest))
    (h : ∀ e ∈ rest, e.enables id = false) (hoff : Off (replay before) id) :
    Off (replay (before ++ rest)) id := by
  induction rest using List.reverseRecOn with
  | nil =>
      rw [List.append_nil]
      exact hoff
  | append_singleton rest e ih =>
      rw [← List.append_assoc] at hc ⊢
      rw [replay_snoc]
      exact off_step hc.last (h e (by simp)) (ih hc.of_append fun e he => h e (by simp [he]))

/-! ## From a snapshot to the commit -/

theorem hasActiveAgent_past {n : ℕ} (hr : journal.Reaches db)
    (h : ∀ e ∈ db.trail.drop n, e.changesAgents id = false) :
    (db.past n).hasActiveAgent id = db.hasActiveAgent id := by
  have hc := checked_of_reaches hr
  rw [← List.take_append_drop n db.trail] at hc
  have hrun := hasActiveAgent_run hc h
  rw [List.take_append_drop, ← eq_replay_of_reaches hr] at hrun
  exact hrun.symm

theorem off_past {n : ℕ} (hr : journal.Reaches db)
    (h : ∀ e ∈ db.trail.drop n, e.enables id = false) (hoff : Off (db.past n) id) : Off db id := by
  have hc := checked_of_reaches hr
  rw [← List.take_append_drop n db.trail] at hc
  have hrun := off_run hc h hoff
  rwa [List.take_append_drop, ← eq_replay_of_reaches hr] at hrun

/-- A host that is off is consistent whatever its Agents are. -/
theorem Off.not_enrollable {h : Host} (hoff : Off db id) (hrow : db.hosts.row id = some h) :
    h.status.enrollable = false := by
  obtain ⟨h', hrow', hoff⟩ := hoff
  rw [hrow] at hrow'
  cases hrow'
  exact hoff

/-! ## The invariant -/

/-- A host that is neither DISABLED nor REVOKED is ACTIVE exactly when it has an ACTIVE Agent. -/
def ConsistentAt (db : Database) (id : UUID) : Prop :=
  ∀ h, db.hosts.row id = some h → h.status.enrollable = true →
    (h.status = .active ↔ db.hasActiveAgent id = true)

theorem consistentAt_frame (hf : e.Fits db) (hhost : ¬ e.touches (.host id))
    (hagents : e.changesAgents id = false) (h : ConsistentAt db id) :
    ConsistentAt (e.commit db) id := by
  intro row hrow henrollable
  rw [Entry.host_of_not_touches hhost] at hrow
  rw [hasActiveAgent_step hf hagents]
  exact h row hrow henrollable

theorem consistentAt_of_off (hoff : Off db id) : ConsistentAt db id := by
  intro row hrow henrollable
  rw [hoff.not_enrollable hrow] at henrollable
  cases henrollable

/-- A row that an update has found. -/
theorem hosts_setHostStatus {status : HostStatus} {now : Stamp} {d : Database} {h : Host}
    (hrow : (d.setHostStatus id status now).hosts.row id = some h) : h.status = status := by
  change (d.hosts.modify id _).row id = some h at hrow
  rw [Table.row_modify_self, Option.map_eq_some_iff] at hrow
  obtain ⟨old, -, rfl⟩ := hrow
  rfl

theorem consistentAt_hostCreated {now : Stamp} (hr : journal.Reaches db)
    (hf : Entry.Fits db (.hostCreated id now)) :
    ConsistentAt (Entry.commit (.hostCreated id now) db) id := by
  intro row hrow henrollable
  have hnew : (Entry.commit (.hostCreated id now) db).hosts.row id =
      some ⟨.pending, 1, none, now, now⟩ := Table.row_insert_self
  rw [hnew] at hrow
  cases hrow
  refine iff_of_false (by simp) fun hactive => ?_
  rw [hasActiveAgent_step hf rfl] at hactive
  obtain ⟨agentID, hon⟩ := hasActiveAgent_iff.mp hactive
  have hhost := (hosted_of_reaches hr).agent agentID id hon
  have hnone : db.hosts.row id = none := hf
  rw [hnone] at hhost
  cases hhost

theorem consistentAt_hostUpdated {now : Stamp} (hf : Entry.Fits db (.hostUpdated id now))
    (h : ConsistentAt db id) : ConsistentAt (Entry.commit (.hostUpdated id now) db) id := by
  intro row hrow henrollable
  change (db.hosts.modify id _).row id = some row at hrow
  rw [Table.row_modify_self, Option.map_eq_some_iff] at hrow
  obtain ⟨old, hold, rfl⟩ := hrow
  rw [hasActiveAgent_step hf rfl]
  exact h old hold henrollable

theorem consistentAt_hostSet {enabled : Bool} {status : HostStatus} {seen : ℕ} {now : Stamp}
    (hr : journal.Reaches db) (hf : Entry.Fits db (.hostSet id enabled status seen now))
    (hu : Entry.Undisturbed db.trail (.hostSet id enabled status seen now)) :
    ConsistentAt (Entry.commit (.hostSet id enabled status seen now) db) id := by
  intro row hrow henrollable
  rw [hasActiveAgent_step hf rfl]
  have hstatus : row.status = status := hosts_setHostStatus hrow
  rw [hstatus] at henrollable ⊢
  obtain ⟨-, -, hcommand⟩ := hf
  cases enabled with
  | false =>
      rw [hcommand] at henrollable
      cases henrollable
  | true =>
      rw [hcommand, hasActiveAgent_past hr (hu rfl)]
      cases db.hasActiveAgent id <;> simp [commandStatus]

theorem consistentAt_enrolled {tokenID agentID : UUID} {agent : Agent} {c : Certificate}
    {now : Stamp} {missed : Option ℕ} (hr : journal.Reaches db)
    (hf : Entry.Fits db (.enrolled tokenID agentID agent c now missed))
    (hu : Entry.Undisturbed db.trail (.enrolled tokenID agentID agent c now missed)) :
    ConsistentAt (Entry.commit (.enrolled tokenID agentID agent c now missed) db) agent.hostID := by
  cases missed with
  | none =>
      intro row hrow _
      have hstatus : row.status = .active := hosts_setHostStatus hrow
      have hactive := hasActiveAgent_iff.mpr ⟨agentID, (activeOn_commit hf).mpr (Or.inl ⟨rfl, rfl⟩)⟩
      exact iff_of_true hstatus hactive
  | some n =>
      obtain ⟨-, -, -, -, -, -, -, hoff⟩ := hf
      refine consistentAt_of_off ?_
      obtain ⟨row, hrow, hrowOff⟩ := off_past hr (hu n rfl) hoff
      exact ⟨row, hrow, hrowOff⟩

theorem consistentAt_agentRevoked {agentID : UUID} {reason : Text} {now : Stamp}
    {missed : Option ℕ} (hr : journal.Reaches db)
    (hf : Entry.Fits db (.agentRevoked agentID id reason now missed))
    (hu : Entry.Undisturbed db.trail (.agentRevoked agentID id reason now missed))
    (hpast : ∀ n, ConsistentAt (db.past n) id) :
    ConsistentAt (Entry.commit (.agentRevoked agentID id reason now missed) db) id := by
  cases missed with
  | none =>
      intro row hrow _
      have hstatus : row.status = .pending := hosts_setHostStatus hrow
      refine iff_of_false (by simp [hstatus]) fun hactive => ?_
      -- The ACTIVE Agent of the host was the one that is revoked.
      obtain ⟨other, hother⟩ := hasActiveAgent_iff.mp hactive
      rcases (activeOn_commit hf).mp hother with hnew | ⟨hkept, hold⟩
      · exact hnew
      · exact hkept (unique_of_reaches hr _ _ _ hf.1 hold)
  | some n =>
      obtain ⟨-, -, hknown, row, hrow, hinactive⟩ := hf
      have hoff : Off (db.past n) id := by
        refine ⟨row, hrow, Bool.eq_false_iff.mpr fun henrollable => ?_⟩
        have hactive := (hpast n row hrow henrollable).mpr (hasActiveAgent_iff.mpr ⟨agentID, hknown⟩)
        simp [hactive] at hinactive
      obtain ⟨row, hrow, hrowOff⟩ := off_past hr (hu n rfl) hoff
      exact consistentAt_of_off ⟨row, hrow, hrowOff⟩

theorem consistentAt_step (hr : journal.Reaches db) (hf : e.Fits db) (hu : e.Undisturbed db.trail)
    (hpast : ∀ n, ConsistentAt (db.past n) id) : ConsistentAt (e.commit db) id := by
  have hnow : ConsistentAt db id := by
    have := hpast db.trail.length
    rwa [past_length hr] at this
  by_cases hagents : e.changesAgents id = true
  · cases e with
    | enrolled tokenID agentID agent c now missed =>
        cases (decide_eq_true_eq.mp hagents : agent.hostID = id)
        exact consistentAt_enrolled hr hf hu
    | agentRevoked agentID hostID reason now missed =>
        cases (decide_eq_true_eq.mp hagents : hostID = id)
        exact consistentAt_agentRevoked hr hf hu hpast
    | _ => cases hagents
  have hagents : e.changesAgents id = false := Bool.eq_false_iff.mpr hagents
  by_cases hhost : e.touches (.host id)
  · cases e with
    | hostCreated i now =>
        cases hhost
        exact consistentAt_hostCreated hr hf
    | hostUpdated i now =>
        cases hhost
        exact consistentAt_hostUpdated hf hnow
    | hostSet i enabled status seen now =>
        cases hhost
        exact consistentAt_hostSet hr hf hu
    | enrolled tokenID agentID agent c now missed =>
        simp [Entry.touches] at hhost
        simp [Entry.changesAgents, hhost.2] at hagents
    | agentRevoked agentID hostID reason now missed =>
        simp [Entry.touches] at hhost
        simp [Entry.changesAgents, hhost.2] at hagents
    | tokenCreated => cases hhost
    | tokenRevoked => cases hhost
    | rotated => simp [Entry.touches] at hhost
  · exact consistentAt_frame hf hhost hagents hnow

/-- Along an undisturbed history every snapshot is consistent. -/
theorem consistentAt_of_reaches (h : journal.Reaches db)
    (hu : Checked Entry.Undisturbed db.trail) (n : ℕ) : ConsistentAt (db.past n) id := by
  refine (h.invariant (P := fun db : Database => journal.Reaches db ∧
    (Checked Entry.Undisturbed db.trail → ∀ n, ConsistentAt (db.past n) id)) ?_ ?_).2 hu n
  · rintro db rfl
    refine ⟨⟨_, rfl, .refl⟩, fun _ n => ?_⟩
    rw [Database.past, Database.empty, List.take_nil]
    intro _ h
    cases h
  · rintro (e : Entry) (db : Database) (hf : e.Fits db) ⟨hr, ih⟩
    refine ⟨hr.event hf, fun hu n => ?_⟩
    change Checked Entry.Undisturbed (e.commit db).trail at hu
    change ConsistentAt ((e.commit db).past n) id
    rw [trail_commit] at hu
    have hdb := ih hu.of_append
    by_cases hn : n ≤ db.trail.length
    · rw [past_commit hn]
      exact hdb n
    · have hall : (e.commit db).past n = e.commit db := by
        rw [Database.past, trail_commit, List.take_of_length_le (by simp; omega), replay_snoc,
          ← eq_replay_of_reaches hr]
      rw [hall]
      exact consistentAt_step hr hf hu.last hdb

/-! ## Every run -/

/-- In every run a token enrolls at most one Agent, and none once it was used, revoked or has
expired; a host has at most one ACTIVE Agent; and as long as no enabling of a host overlaps an
enrollment or a revocation on it, a host that is neither DISABLED nor REVOKED is ACTIVE exactly
when it has an ACTIVE Agent. -/
theorem enrollment_and_host_status {site : Site}
    {c : Config (Tx.State schema) ℕ (Tx.Op schema) (Tx.Reply schema)}
    (hc : (server site).Reachable (Tx.State.initial .empty) c) :
    (∀ before tokenID agentID agent certificate now missed after,
      c.state.db.trail = before ++ .enrolled tokenID agentID agent certificate now missed :: after →
      (∀ e ∈ before, ¬ e.spends tokenID) ∧
        ∃ token, .tokenCreated tokenID token ∈ before ∧ now < token.expiresAt) ∧
    (∀ a b rowA rowB, c.state.db.agents.row a = some rowA → c.state.db.agents.row b = some rowB →
      rowA.status = .active → rowB.status = .active → rowA.hostID = rowB.hostID → a = b) ∧
    (Checked Entry.Undisturbed c.state.db.trail →
      ∀ id h, c.state.db.hosts.row id = some h → h.status ≠ .disabled → h.status ≠ .revoked →
        (h.status = .active ↔
          ∃ a row, c.state.db.agents.row a = some row ∧ row.hostID = id ∧ row.status = .active)) := by
  have hr := reaches_of_reachable hc
  refine ⟨?_, ?_, ?_⟩
  · intro before tokenID agentID agent certificate now missed after htrail
    have hchecked := checked_of_reaches hr
    rw [htrail] at hchecked
    have hbefore : journal.Reaches (replay before) := reaches_replay hchecked.of_append
    obtain ⟨⟨token, hrow, husable, -⟩, -⟩ := hchecked before _ after rfl
    refine ⟨fun e he hspends => ?_, ?_⟩
    · have hspent := spent_of_mem hbefore e (by rwa [trail_replay]) hspends
      rw [not_usable_of_spent hspent hrow] at husable
      cases husable
    · obtain ⟨new, hnew, hexpires⟩ := created_of_row hbefore token hrow
      rw [trail_replay] at hnew
      rw [Token.usable, Bool.and_eq_true, decide_eq_true_eq] at husable
      exact ⟨new, hnew, hexpires ▸ husable.2⟩
  · intro a b rowA rowB ha hb hactiveA hactiveB hhost
    exact unique_of_reaches hr a b rowB.hostID ⟨rowA, ha, hhost, hactiveA⟩ ⟨rowB, hb, rfl, hactiveB⟩
  · intro hu i h hrow hdisabled hrevoked
    have hconsistent : ConsistentAt (c.state.db.past c.state.db.trail.length) i :=
      consistentAt_of_reaches hr hu c.state.db.trail.length
    rw [past_length hr] at hconsistent
    rw [hconsistent h hrow (by cases hs : h.status <;> simp_all [HostStatus.enrollable]),
      hasActiveAgent_iff]
    exact exists_congr fun a => Iff.rfl

/-- An Agent is enrolled, its host disabled and enabled again. -/
def enrolledAndEnabled : List Move :=
  sampleOpening ++
    [.call 2 (.enrollAgent sampleRequest),
      .go 2 50 1 agentDraw "serial".toList,
      .call 3 (.setHostEnabled (sampleID 1) 2 false),
      .go 3 50 2 ⟨sampleID 9, by decide⟩ [],
      .call 4 (.setHostEnabled (sampleID 1) 3 true),
      .go 4 50 3 ⟨sampleID 9, by decide⟩ []]

theorem enrollment_and_host_status_enabled :
    ∃ c : Config (Tx.State schema) ℕ (Tx.Op schema) (Tx.Reply schema),
      (server sampleSite).Reachable (Tx.State.initial .empty) c ∧
      Checked Entry.Undisturbed c.state.db.trail ∧
      ∃ h, c.state.db.hosts.row (sampleID 1) = some h ∧ h.status = .active ∧
        ∃ a row, c.state.db.agents.row a = some row ∧ row.hostID = sampleID 1 ∧
          row.status = .active := by
  have hplay : (play sampleSite enrolledAndEnabled).any (fun m : Tx.Machine schema =>
      decide (Checked Entry.Undisturbed m.db.trail) &&
        (m.db.hosts.row (sampleID 1)).any fun h => h.status = .active) = true := by
    decide +kernel
  obtain ⟨m, hm, hany⟩ := (Option.any_eq_true _ _).mp hplay
  rw [Bool.and_eq_true, decide_eq_true_eq, Option.any_eq_true] at hany
  obtain ⟨hu, h, hrow, hactive⟩ := hany
  have hstatus : h.status = .active := decide_eq_true_eq.mp hactive
  have hc := reachable_of_play hm
  refine ⟨_, hc, hu, h, hrow, hstatus, ?_⟩
  exact ((enrollment_and_host_status hc).2.2 hu (sampleID 1) h hrow (by simp [hstatus])
    (by simp [hstatus])).mp hstatus

/-! ### An enabling that overlaps an enrollment -/

/-- The host is disabled after the enrollment has read it as PENDING, so that the update of the
host finds no row, and it is enabled before the new Agent is committed. -/
def enabledDuringEnrollment : List Move :=
  sampleOpening ++
    [.call 2 (.enrollAgent sampleRequest),
      .go 2 5 1 agentDraw "serial".toList,
      .call 3 (.setHostEnabled (sampleID 1) 1 false),
      .go 3 50 2 ⟨sampleID 9, by decide⟩ [],
      .go 2 17 3 agentDraw "serial".toList,
      .call 4 (.setHostEnabled (sampleID 1) 2 true),
      .go 4 50 4 ⟨sampleID 9, by decide⟩ [],
      .go 2 50 5 agentDraw "serial".toList]

/-- A PENDING host with an ACTIVE Agent. -/
theorem pending_host_with_active_agent :
    ∃ c : Config (Tx.State schema) ℕ (Tx.Op schema) (Tx.Reply schema),
      (server sampleSite).Reachable (Tx.State.initial .empty) c ∧
      ∃ id h, c.state.db.hosts.row id = some h ∧ h.status = .pending ∧
        ∃ a row, c.state.db.agents.row a = some row ∧ row.hostID = id ∧ row.status = .active := by
  have hplay : (play sampleSite enabledDuringEnrollment).any (fun m : Tx.Machine schema =>
      ((m.db.hosts.row (sampleID 1)).any fun h => h.status = .pending) &&
        (m.db.agents.row (sampleID 3)).any fun a =>
          a.hostID = sampleID 1 && a.status = .active) = true := by
    decide +kernel
  obtain ⟨m, hm, hany⟩ := (Option.any_eq_true _ _).mp hplay
  rw [Bool.and_eq_true, Option.any_eq_true, Option.any_eq_true] at hany
  obtain ⟨⟨h, hrow, hpending⟩, row, hagent, hactive⟩ := hany
  rw [Bool.and_eq_true, decide_eq_true_eq, decide_eq_true_eq] at hactive
  exact ⟨_, reachable_of_play hm, sampleID 1, h, hrow, decide_eq_true_eq.mp hpending, sampleID 3, row,
    hagent, hactive.1, hactive.2⟩

end RestFleet.Fleet
