import RestFleet.Verification.Fleet.Sound

/-! # How long a superseded certificate is accepted

A rotation gives the certificate that it replaces another day, however often it is asked to. -/

namespace RestFleet.Fleet

/-- A new certificate is obtained with this one. -/
def Entry.rotates (serial : Text) : Entry → Bool
  | .rotated _ s _ _ => s = serial
  | _ => false

/-- A rotation finds its certificate not yet superseded. -/
def Entry.First (before : List Entry) : Entry → Prop
  | .rotated _ serial _ _ => ∀ e ∈ before, e.rotates serial = false
  | _ => True

instance (before : List Entry) : ∀ e : Entry, Decidable (e.First before)
  | .rotated _ serial _ _ => inferInstanceAs (Decidable (∀ e ∈ before, e.rotates serial = false))
  | .hostCreated _ _ | .hostUpdated _ _ | .hostSet _ _ _ _ _ | .tokenCreated _ _ | .tokenRevoked _ _
  | .enrolled _ _ _ _ _ _ | .agentRevoked _ _ _ _ _ => inferInstanceAs (Decidable True)

/-- A superseded certificate with the end of its overlap. -/
def Superseded (db : Database) (serial : Text) (deadline : Stamp) : Prop :=
  ∃ c, db.certificates.row serial = some c ∧ c.supersededBy.isSome ∧ c.overlapEndsAt = some deadline

variable {db : Database} {e : Entry} {serial : Text} {deadline : Stamp}

theorem superseded_commit {agentID : UUID} {c : Certificate} {now : Stamp}
    (hf : Entry.Fits db (.rotated agentID serial c now)) :
    Superseded (Entry.commit (.rotated agentID serial c now) db) serial (now + 24 * hour) := by
  obtain ⟨⟨old, hrow, hagent⟩, hunused⟩ := hf
  have hne : serial ≠ c.serialNumber := by
    rintro rfl
    rw [hunused] at hrow
    cases hrow
  refine ⟨{ old with supersededBy := some c.id, overlapEndsAt := some (now + 24 * hour) }, ?_, rfl, rfl⟩
  change ((db.certificates.insert c.serialNumber c).modify serial _).row serial = _
  rw [Table.row_modify_self, Table.row_insert_ne hne, hrow, Option.map_some, if_pos hagent]

/-- Only a rotation of the certificate itself changes its deadline. -/
theorem superseded_step (hf : e.Fits db) (hother : e.rotates serial = false)
    (h : Superseded db serial deadline) : Superseded (e.commit db) serial deadline := by
  obtain ⟨c, hrow, hby, hends⟩ := h
  have hnew : ∀ {s : Text}, db.certificates.row s = none → serial ≠ s := by
    rintro s hs rfl
    rw [hs] at hrow
    cases hrow
  cases e with
  | enrolled tokenID agentID agent new now missed =>
      obtain ⟨-, -, -, -, hunused, -⟩ := hf
      refine ⟨c, ?_, hby, hends⟩
      rw [certificates_enrolled, Table.row_insert_ne (hnew hunused)]
      exact hrow
  | agentRevoked i hostID reason now missed =>
      rw [Superseded, certificates_agentRevoked]
      change ∃ c, (db.certificates.map _).row serial = some c ∧ _
      rw [Table.row_map, hrow]
      refine ⟨_, rfl, ?_⟩
      dsimp only
      split <;> exact ⟨hby, hends⟩
  | rotated agentID s new now =>
      have hs : serial ≠ s := fun he => by simp [Entry.rotates, he] at hother
      refine ⟨c, ?_, hby, hends⟩
      change ((db.certificates.insert new.serialNumber new).modify s _).row serial = _
      rw [Table.row_modify_ne hs, Table.row_insert_ne (hnew hf.2)]
      exact hrow
  | _ => exact ⟨c, hrow, hby, hends⟩

theorem superseded_run {before rest : List Entry}
    (hc : Checked (fun before e => e.Fits (replay before)) (before ++ rest))
    (hothers : ∀ e ∈ rest, e.rotates serial = false)
    (h : Superseded (replay before) serial deadline) :
    Superseded (replay (before ++ rest)) serial deadline := by
  induction rest using List.reverseRecOn with
  | nil =>
      rw [List.append_nil]
      exact h
  | append_singleton rest e ih =>
      rw [← List.append_assoc] at hc ⊢
      rw [replay_snoc]
      exact superseded_step hc.last (hothers e (by simp))
        (ih hc.of_append fun e he => hothers e (by simp [he]))

theorem before_deadline_of_accepted {id : UUID} {later : Stamp}
    (h : Superseded db serial deadline) (ha : (db.agentByCertificate id serial later).isSome) :
    later < deadline := by
  obtain ⟨c, hrow, hby, hends⟩ := h
  rw [Database.agentByCertificate, hrow] at ha
  cases hagent : db.agents.row id with
  | none => simp [hagent] at ha
  | some agent =>
      simp only [hagent] at ha
      split at ha
      · rename_i hcond
        simp only [Bool.and_eq_true, Bool.or_eq_true, hends, Option.any_some,
          decide_eq_true_eq] at hcond
        rcases hcond.2 with hnone | hlt
        · rw [Option.isNone_iff_eq_none] at hnone
          simp [hnone] at hby
        · exact hlt
      · cases ha

/-! ## Every run -/

/-- In every run whose rotations all find their certificate not yet superseded, a superseded
certificate is accepted for less than 24 hours after the rotation, and no other certificate is
obtained with it. -/
theorem superseded_certificate_expires {site : Site}
    {c : Config (Tx.State schema) ℕ (Tx.Op schema) (Tx.Reply schema)}
    (hc : (server site).Reachable (Tx.State.initial .empty) c)
    (hfirst : Checked Entry.First c.state.db.trail) :
    ∀ before agentID serial certificate now after,
      c.state.db.trail = before ++ .rotated agentID serial certificate now :: after →
      (∀ id later, (c.state.db.agentByCertificate id serial later).isSome →
        later < now + 24 * hour) ∧
      ∀ e ∈ after, e.rotates serial = false := by
  intro before agentID serial certificate now after htrail
  have hr := reaches_of_reachable hc
  have hchecked := checked_of_reaches hr
  rw [htrail] at hchecked hfirst
  have hothers : ∀ e ∈ after, e.rotates serial = false := by
    intro e he
    obtain ⟨l, r, rfl⟩ := List.append_of_mem he
    have hlater := hfirst (before ++ .rotated agentID serial certificate now :: l) e r (by simp)
    cases e with
    | rotated i s new later =>
        have hne := hlater (.rotated agentID serial certificate now) (by simp)
        rw [Entry.rotates, decide_eq_false_iff_not] at hne ⊢
        exact fun heq => hne heq.symm
    | _ => rfl
  refine ⟨fun id later haccepted => ?_, hothers⟩
  rw [← List.singleton_append, ← List.append_assoc] at hchecked
  have hstart : Superseded (replay (before ++ [.rotated agentID serial certificate now])) serial
      (now + 24 * hour) := by
    rw [replay_snoc]
    exact superseded_commit hchecked.of_append.last
  have hend := superseded_run hchecked hothers hstart
  rw [List.append_assoc, List.singleton_append, ← htrail, ← eq_replay_of_reaches hr] at hend
  exact before_deadline_of_accepted hend haccepted

/-- An Agent with the certificate `first`, and streams on which it is rotated at the given hours. -/
def rotatedAt (rotations : List (ℕ × { i : UUID // i.isV7 = true })) : List Move :=
  sampleOpening ++
    [.call 2 (.enrollAgent sampleRequest),
      .go 2 50 0 agentDraw "first".toList] ++
    rotations.flatMap fun (n, fresh) =>
      [.call (3 + n) (.connect (sampleID 3) "first".toList ["key".toList]),
        .go (3 + n) 50 (n * hour) fresh (Nat.toDigits 10 n)]

def rotationTimes (trail : List Entry) : List Stamp :=
  trail.filterMap fun
    | .rotated _ serial _ now => if serial = "first".toList then some now else none
    | _ => none

theorem exists_of_rotationTimes {trail : List Entry} {now : Stamp} {times : List Stamp}
    (h : rotationTimes trail = now :: times) :
    ∃ before agentID certificate after,
      trail = before ++ .rotated agentID "first".toList certificate now :: after ∧
        rotationTimes after = times := by
  obtain ⟨before, e, after, rfl, -, he, hafter⟩ := List.filterMap_eq_cons_iff.mp h
  cases e with
  | rotated agentID serial certificate later =>
      dsimp only at he
      split at he
      · rename_i hserial
        cases he
        subst hserial
        exact ⟨before, agentID, certificate, after, rfl, hafter⟩
      · cases he
  | _ => cases he

theorem superseded_certificate_expires_once :
    ∃ c : Config (Tx.State schema) ℕ (Tx.Op schema) (Tx.Reply schema),
      (server sampleSite).Reachable (Tx.State.initial .empty) c ∧
      Checked Entry.First c.state.db.trail ∧
      (c.state.db.agentByCertificate (sampleID 3) "first".toList (23 * hour)).isSome ∧
      ∀ id later, (c.state.db.agentByCertificate id "first".toList later).isSome →
        later < 0 + 24 * hour := by
  have hplay : (play sampleSite (rotatedAt [(0, ⟨sampleID 4, by decide⟩)])).any
      (fun m : Tx.Machine schema => decide (Checked Entry.First m.db.trail) &&
        (m.db.agentByCertificate (sampleID 3) "first".toList (23 * hour)).isSome &&
        rotationTimes m.db.trail = [0]) = true := by
    decide +kernel
  obtain ⟨m, hm, hany⟩ := (Option.any_eq_true _ _).mp hplay
  rw [Bool.and_eq_true, Bool.and_eq_true, decide_eq_true_eq, decide_eq_true_eq] at hany
  obtain ⟨⟨hfirst, haccepted⟩, htimes⟩ := hany
  obtain ⟨before, agentID, certificate, after, htrail, -⟩ := exists_of_rotationTimes htimes
  have hc := reachable_of_play hm
  exact ⟨_, hc, hfirst, haccepted, (superseded_certificate_expires hc hfirst before agentID
    "first".toList certificate 0 after htrail).1⟩

/-! ### A certificate that is rotated again -/

/-- Rotated again after 23 hours, the certificate is accepted after 30 hours, and one more
certificate is obtained with it then. -/
theorem superseded_certificate_extended :
    ∃ c : Config (Tx.State schema) ℕ (Tx.Op schema) (Tx.Reply schema),
      (server sampleSite).Reachable (Tx.State.initial .empty) c ∧
      ∃ before agentID serial certificate now after later,
        c.state.db.trail = before ++ .rotated agentID serial certificate now :: after ∧
        now + 24 * hour ≤ later ∧
        (∃ id, (c.state.db.agentByCertificate id serial later).isSome) ∧
        ∃ i next, .rotated i serial next later ∈ after := by
  have hplay : (play sampleSite (rotatedAt [(0, ⟨sampleID 4, by decide⟩),
      (23, ⟨sampleID 5, by decide⟩), (30, ⟨sampleID 6, by decide⟩)])).any
      (fun m : Tx.Machine schema => decide (rotationTimes m.db.trail = [0, 23 * hour, 30 * hour]) &&
        (m.db.agentByCertificate (sampleID 3) "first".toList (30 * hour)).isSome) = true := by
    decide +kernel
  obtain ⟨m, hm, hany⟩ := (Option.any_eq_true _ _).mp hplay
  rw [Bool.and_eq_true, decide_eq_true_eq] at hany
  obtain ⟨before, agentID, certificate, after, htrail, hafter⟩ := exists_of_rotationTimes hany.1
  obtain ⟨_, _, _, rest, hrest, hlast⟩ := exists_of_rotationTimes hafter
  obtain ⟨_, i, next, _, hnext, -⟩ := exists_of_rotationTimes hlast
  exact ⟨_, reachable_of_play hm, before, agentID, "first".toList, certificate, 0, after, 30 * hour,
    htrail, by decide, ⟨sampleID 3, hany.2⟩, i, next, by simp [hrest, hnext]⟩

/-! ## Revoked Agents -/

def Revoked (db : Database) (id : UUID) : Prop :=
  ∃ a, db.agents.row id = some a ∧ a.status = .revoked

theorem revoked_commit {id hostID : UUID} {reason : Text} {now : Stamp} {missed : Option ℕ}
    (h : (db.agents.row id).isSome) :
    Revoked (Entry.commit (.agentRevoked id hostID reason now missed) db) id := by
  obtain ⟨a, hrow⟩ := Option.isSome_iff_exists.mp h
  refine ⟨{ a with status := .revoked, updatedAt := now }, ?_, rfl⟩
  change (Database.setHostStatus? _ missed _ _ now).agents.row id = _
  rw [agents_setHostStatus?]
  exact Table.row_modify_self.trans (congrArg _ hrow)

theorem revoked_step {id : UUID} (hf : e.Fits db) (h : Revoked db id) : Revoked (e.commit db) id := by
  obtain ⟨a, hrow, hstatus⟩ := h
  by_cases ht : e.touches (.agent id)
  · cases e with
    | enrolled tokenID agentID agent certificate now missed =>
        obtain rfl : id = agentID := by simpa [Entry.touches] using ht
        rw [hf.2.1] at hrow
        cases hrow
    | agentRevoked i hostID reason now missed =>
        obtain rfl : id = i := by simpa [Entry.touches] using ht
        exact revoked_commit (by simp [hrow])
    | rotated agentID serial certificate now =>
        obtain rfl : id = agentID := by simpa [Entry.touches] using ht
        have hself : (Entry.commit (.rotated id serial certificate now) db).agents.row id =
            (db.agents.row id).map _ := Table.row_modify_self
        rw [Revoked, hself, hrow]
        exact ⟨_, rfl, hstatus⟩
    | _ => simp [Entry.touches] at ht
  · rw [Revoked, Entry.agent_of_not_touches ht]
    exact ⟨a, hrow, hstatus⟩

theorem revoked_run {before rest : List Entry} {id : UUID}
    (hc : Checked (fun before e => e.Fits (replay before)) (before ++ rest))
    (h : Revoked (replay before) id) : Revoked (replay (before ++ rest)) id := by
  induction rest using List.reverseRecOn with
  | nil =>
      rw [List.append_nil]
      exact h
  | append_singleton rest e ih =>
      rw [← List.append_assoc] at hc ⊢
      rw [replay_snoc]
      exact revoked_step hc.last (ih hc.of_append)

/-- In every run, once the revocation of an Agent is committed none of its certificates is accepted. -/
theorem revoked_agent_refused {site : Site}
    {c : Config (Tx.State schema) ℕ (Tx.Op schema) (Tx.Reply schema)}
    (hc : (server site).Reachable (Tx.State.initial .empty) c)
    {before after : List Entry} {id hostID : UUID} {reason : Text} {now : Stamp} {missed : Option ℕ}
    (htrail : c.state.db.trail = before ++ .agentRevoked id hostID reason now missed :: after)
    (serial : Text) (later : Stamp) : c.state.db.agentByCertificate id serial later = none := by
  have hr := reaches_of_reachable hc
  have hchecked := checked_of_reaches hr
  rw [htrail, List.append_cons] at hchecked
  have hcommit : Revoked (replay (before ++ [.agentRevoked id hostID reason now missed])) id := by
    obtain ⟨⟨a, hrow, -⟩, -⟩ := hchecked.of_append.last
    rw [replay_snoc]
    exact revoked_commit (by simp [hrow])
  have hrevoked := revoked_run hchecked hcommit
  rw [← List.append_cons, ← htrail, ← eq_replay_of_reaches hr] at hrevoked
  obtain ⟨a, hrow, hstatus⟩ := hrevoked
  rw [Database.agentByCertificate, hrow]
  cases c.state.db.certificates.row serial with
  | none => rfl
  | some certificate => simp [hstatus]

theorem revoked_agent_refused_sample :
    ∃ c : Config (Tx.State schema) ℕ (Tx.Op schema) (Tx.Reply schema),
      (server sampleSite).Reachable (Tx.State.initial .empty) c ∧
      (c.state.db.certificates.row "first".toList).isSome ∧
      ∀ serial later, c.state.db.agentByCertificate (sampleID 3) serial later = none := by
  have hplay : (play sampleSite (rotatedAt [] ++ [.call 3 (.revokeAgent (sampleID 3) "lost".toList),
      .go 3 50 1 agentDraw []])).any (fun m : Tx.Machine schema =>
        (m.db.certificates.row "first".toList).isSome && m.db.trail.getLast? =
          some (.agentRevoked (sampleID 3) (sampleID 1) "lost".toList 1 none)) = true := by
    decide +kernel
  obtain ⟨m, hm, hany⟩ := (Option.any_eq_true _ _).mp hplay
  rw [Bool.and_eq_true, decide_eq_true_eq] at hany
  have hc := reachable_of_play hm
  exact ⟨_, hc, hany.1, revoked_agent_refused hc (List.dropLast_append_getLast? _ hany.2).symm⟩

end RestFleet.Fleet
