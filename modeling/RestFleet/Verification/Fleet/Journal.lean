import RestFleet.Model.Fleet.Server
import RestFleet.Shared.History
import RestFleet.Shared.Journal

/-! # The history of the fleet

The database is the replay of the committed entries. -/

namespace RestFleet.Fleet

namespace Entry

def effect : Entry → Database → Database
  | .hostCreated id now, db => db.insertHost id now
  | .hostUpdated id now, db => db.touchHost id now
  | .hostSet id _ status _ now, db => db.setHostStatus id status now
  | .tokenCreated id token, db => db.insertToken id token
  | .tokenRevoked id now, db => db.revokeToken id now
  | .enrolled tokenID agentID agent certificate now missed, db =>
    (((db.insertAgent agentID agent).insertCertificate certificate).useToken tokenID agentID
      now).setHostStatus? missed agent.hostID .active now
  | .agentRevoked id hostID reason now missed, db =>
    ((db.revokeAgent id now).revokeCertificates id reason now).setHostStatus? missed hostID .pending
      now
  | .rotated agentID serial certificate now, db =>
    ((db.insertCertificate certificate).supersede agentID serial certificate.id
      (now + 24 * hour)).certify agentID certificate now

def commit (e : Entry) (db : Database) : Database := (e.effect db).note e

def touches : Entry → Key → Prop
  | .hostCreated id _, k | .hostUpdated id _, k | .hostSet id _ _ _ _, k => k = .host id
  | .tokenCreated id _, k | .tokenRevoked id _, k => k = .token id
  | .enrolled tokenID agentID agent certificate _ missed, k =>
    k = .token tokenID ∨ k = .agent agentID ∨ k = .activeAgent agent.hostID ∨
      k = .certificate certificate.serialNumber ∨ (missed = none ∧ k = .host agent.hostID)
  | .agentRevoked id hostID _ _ missed, k =>
    k = .agent id ∨ k = .activeAgent hostID ∨ (missed = none ∧ k = .host hostID)
  | .rotated agentID _ certificate _, k =>
    k = .agent agentID ∨ k = .certificate certificate.serialNumber

end Entry

def replay (trail : List Entry) : Database := trail.foldl (fun db e => e.commit db) .empty

def Database.past (db : Database) (n : ℕ) : Database := replay (db.trail.take n)

theorem trail_setHostStatus? (db : Database) (missed : Option ℕ) (id : UUID) (status : HostStatus)
    (now : Stamp) : (db.setHostStatus? missed id status now).trail = db.trail := by
  cases missed <;> rfl

theorem trail_effect (e : Entry) (db : Database) : (e.effect db).trail = db.trail := by
  cases e with
  | enrolled => exact trail_setHostStatus? _ _ _ _ _
  | agentRevoked => exact trail_setHostStatus? _ _ _ _ _
  | _ => rfl

@[simp] theorem trail_commit (e : Entry) (db : Database) : (e.commit db).trail = db.trail ++ [e] := by
  change (e.effect db).trail ++ [e] = _
  rw [trail_effect]

@[simp] theorem replay_snoc (trail : List Entry) (e : Entry) :
    replay (trail ++ [e]) = e.commit (replay trail) := by
  simp [replay]

@[simp] theorem trail_replay (trail : List Entry) : (replay trail).trail = trail := by
  induction trail using List.reverseRecOn with
  | nil => rfl
  | append_singleton trail e ih => rw [replay_snoc, trail_commit, ih]

/-! ## Entries that fit -/

/-- Whether the update of a host found its row. If not, then the row did not match in the snapshot
that `n` entries had led to, in which `known` held. -/
def Missed (db : Database) (known : Database → Prop) (hostID : UUID) (cond : HostStatus → Bool) :
    Option ℕ → Prop
  | none => ∃ h, db.hosts.row hostID = some h ∧ cond h.status = true
  | some n => n ≤ db.trail.length ∧ known (db.past n) ∧
      ∃ h, (db.past n).hosts.row hostID = some h ∧ cond h.status = false

def ActiveOn (db : Database) (id hostID : UUID) : Prop :=
  ∃ a, db.agents.row id = some a ∧ a.hostID = hostID ∧ a.status = .active

/-- What a transaction has checked when it commits an entry. -/
def Entry.Fits (db : Database) : Entry → Prop
  | .hostCreated id _ => db.hosts.row id = none
  | .hostUpdated id _ => (db.hosts.row id).isSome
  | .hostSet id enabled status seen _ =>
    (db.hosts.row id).isSome ∧ seen ≤ db.trail.length ∧
      status = commandStatus enabled ((db.past seen).hasActiveAgent id)
  | .tokenCreated id token =>
    db.tokens.row id = none ∧ (db.hosts.row token.hostID).isSome ∧ token.usedAt = none ∧
      token.revokedAt = none
  | .tokenRevoked id now => ∃ token, db.tokens.row id = some token ∧ token.usable now = true
  | .enrolled tokenID agentID agent certificate now missed =>
    (∃ token, db.tokens.row tokenID = some token ∧ token.usable now = true ∧
        token.hostID = agent.hostID) ∧
      db.agents.row agentID = none ∧ agent.status = .active ∧
      db.hasActiveAgent agent.hostID = false ∧
      db.certificates.row certificate.serialNumber = none ∧
      Missed db (fun _ => True) agent.hostID HostStatus.enrollable missed
  | .agentRevoked id hostID _ _ missed =>
    ActiveOn db id hostID ∧
      Missed db (fun past => ActiveOn past id hostID) hostID (fun s => s = .active) missed
  | .rotated agentID serial certificate _ =>
    (∃ c, db.certificates.row serial = some c ∧ c.agentID = agentID) ∧
      db.certificates.row certificate.serialNumber = none

def journal : Tx.Journal schema where
  Event := Entry
  initial := fun db => db = .empty
  apply := Entry.commit
  guard := fun e db => e.Fits db
  touches := Entry.touches

variable {db db' : Database}

theorem eq_replay_of_reaches (h : journal.Reaches db) : db = replay db.trail := by
  refine h.invariant (P := fun db : Database => db = replay db.trail) ?_ ?_
  · rintro db rfl
    rfl
  · rintro (e : Entry) (db : Database) - hdb
    change e.commit db = replay (e.commit db).trail
    rw [trail_commit, replay_snoc, ← hdb]

theorem past_length (h : journal.Reaches db) : db.past db.trail.length = db := by
  rw [Database.past, List.take_length]
  exact (eq_replay_of_reaches h).symm

theorem checked_of_reaches (h : journal.Reaches db) :
    Checked (fun before e => e.Fits (replay before)) db.trail := by
  refine (h.invariant (P := fun db : Database => db = replay db.trail ∧
    Checked (fun before e => Entry.Fits (replay before) e) db.trail) ?_ ?_).2
  · rintro db rfl
    exact ⟨rfl, Checked.nil⟩
  · rintro (e : Entry) (db : Database) (hg : e.Fits db) ⟨hdb, hc⟩
    change e.commit db = replay (e.commit db).trail ∧ Checked _ (e.commit db).trail
    rw [trail_commit, replay_snoc, ← hdb]
    refine ⟨rfl, hc.snoc ?_⟩
    rwa [← hdb]

theorem reaches_replay {trail : List Entry}
    (h : Checked (fun before e => e.Fits (replay before)) trail) : journal.Reaches (replay trail) := by
  induction h using Checked.induction with
  | nil => exact ⟨.empty, rfl, .refl⟩
  | snoc before e hb he ih =>
      rw [replay_snoc]
      exact ih.event (J := journal) he

theorem past_commit {e : Entry} {n : ℕ} (h : n ≤ db.trail.length) :
    (e.commit db).past n = db.past n := by
  rw [Database.past, Database.past, trail_commit, List.take_append_of_le_length h]

end RestFleet.Fleet
