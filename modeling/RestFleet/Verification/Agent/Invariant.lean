import RestFleet.Verification.Agent.Records

/-! # What holds of an Agent and the server together

What the Agent reports about an operation never changes once the operation has a record. An event
changes the Agent, or it is a call that the server handles. -/

namespace RestFleet.Backup

variable {start db : Database} {r : Report}

/-- The plan and the Agent are on one host. -/
def Database.Bound (db : Database) (planID agentID : UUID) : Prop :=
  ∃ p a, db.plans.row planID = some p ∧ db.agents.row agentID = some a ∧ a.hostID = p.hostID

theorem isSome_boundPlan (h : db.Bound r.planID r.agentID) : (db.boundPlan? r).isSome := by
  obtain ⟨p, a, hp, ha, hhost⟩ := h
  simp [Database.boundPlan?, hp, ha, hhost]

theorem Served.bound (hs : start.Fresh) (h : Served start db) (c : Call) (now : Stamp)
    {planID agentID : UUID} (hb : db.Bound planID agentID) :
    (db.handle c now).Bound planID agentID := by
  obtain ⟨p, a, hp, ha, hhost⟩ := hb
  have hplan := (h.placed hs c now planID).1
  have hagent := (h.placed hs c now agentID).2
  rw [hp, Option.map_some, Option.map_eq_some_iff] at hplan
  rw [ha, Option.map_some, Option.map_eq_some_iff] at hagent
  obtain ⟨p', hp', hplace⟩ := hplan
  obtain ⟨a', ha', hhost'⟩ := hagent
  have hph : p'.hostID = p.hostID := congrArg (·.1) hplace
  exact ⟨p', a', hp', ha', by rw [hhost', hhost, hph]⟩

end RestFleet.Backup

namespace RestFleet.Agent

open Backup (Stamp Database Report Operation RowOk RowsAre Served Evolves)

/-- What the Agent reports about an operation. -/
def State.about (s : State) (agentID id : UUID) : Option Report :=
  (s.records.row id).map (·.report agentID)

/-- An automatic retry of an operation. -/
structure Follows (r prev : Report) : Prop where
  planID : r.planID = prev.planID
  planRevision : r.planRevision = prev.planRevision
  attempt : r.attempt = prev.rowAttempt + 1
  le : r.attempt ≤ 10
  root : r.rootOperationID = some (prev.rootOperationID.getD prev.operationID)
  parent_ne : prev.operationID ≠ r.operationID
  root_ne : r.rootOperationID ≠ some r.operationID

namespace World

variable {start : Database} {w w' : World}

def about (w : World) (id : UUID) : Option Report := w.agent.about w.agentID id

def Stored (w : World) (id : UUID) : Prop := (w.server.operations.row id).isSome

def Finished (w : World) (id : UUID) : Prop :=
  ∃ o, w.server.operations.row id = some o ∧ o.finishedAt.isSome

/-- A report without an attempt is about a row without a parent. Only the record of a job that was
canceled before it came may be about another one. -/
def Plain (w : World) (r : Report) : Prop :=
  r.attempt = 0 → ∀ o, w.server.operations.row r.operationID = some o → o.parentOperationID = none

def Retries (w : World) (r : Report) : Prop :=
  ∃ p prev, r.parentOperationID = some p ∧ w.about p = some prev ∧ Follows r prev ∧ w.Plain prev

/-- What holds of every operation that the Agent has a record of. -/
structure Known (w : World) (r : Report) : Prop where
  wellFormed : r.WellFormed
  bound : w.server.Bound r.planID r.agentID
  matched : ∀ o, w.server.operations.row r.operationID = some o → o.matchesReport r
  origin : r.parentOperationID = none ∨ w.Stored r.operationID ∨ w.Retries r

structure PlanOk (w : World) (p : PlanSchedule) : Prop where
  planID : p.planID.isV7
  revision : 1 ≤ p.revision
  policy : ∀ q, p.retryPolicy = some q → q.validate
  bound : w.server.Bound p.planID w.agentID

/-- A worker holds a copy of a record that nobody else finishes. -/
structure WorkerOk (w : World) (x : Worker) : Prop where
  about : w.about x.record.id = some (x.record.report w.agentID)
  filled : x.record.Filled
  uploaded : x.record.uploaded = false
  policy : ∀ q, x.plan.retryPolicy = some q → q.validate
  plain : w.Plain (x.record.report w.agentID)

def JobOk (w : World) (j : Job) : Prop :=
  ∃ o, w.server.operations.row j.operationID = some o ∧
    o.identity = (j.operationID, w.agentID, j.planID, j.planRevision, j.parentOperationID,
      j.rootOperationID, j.attempt)

structure SentOk (w : World) (m : Message) (r : Report) : Prop where
  about : w.about r.operationID = some r
  checked : m.checked
  parent : w.Stored r.operationID ∨ ∀ p, r.parentOperationID = some p → w.Finished p

structure RecordOk (w : World) (id : UUID) (r : OperationRecord) : Prop where
  key : r.id = id
  filled : r.Filled
  uploaded : r.uploaded → w.Finished id
  known : w.Known (r.report w.agentID)

structure Inv (start : Database) (w : World) : Prop where
  agentID : w.agentID.isV7
  served : Served start w.server
  rows : RowsAre RowOk w.server
  plans : ∀ p ∈ w.agent.plans, w.PlanOk p
  records : ∀ id r, w.agent.records.row id = some r → w.RecordOk id r
  workers : ∀ x ∈ w.agent.workers, w.WorkerOk x
  acks : ∀ id ∈ w.acks, w.Finished id
  jobs : ∀ j ∈ w.jobs, w.JobOk j
  sent : ∀ m ∈ w.sent, ∀ r, m.report? = some r → w.SentOk m r

theorem Inv.about (h : Inv start w) {id : UUID} {r : Report} (hr : w.about id = some r) :
    r.operationID = id ∧ r.agentID = w.agentID ∧ w.Known r := by
  obtain ⟨x, hx, rfl⟩ := Option.map_eq_some_iff.mp hr
  exact ⟨(h.records id x hx).key, rfl, (h.records id x hx).known⟩

theorem inv_initial (hw : w.Initial) : Inv w.server w where
  agentID := hw.agentID
  served := Backup.served_start _
  rows := by
    intro op o ho
    simp [hw.server.operations] at ho
  plans := by simp [hw.plans]
  records := by simp [hw.records]
  workers := by simp [hw.workers]
  acks := by simp [hw.acks]
  jobs := by simp [hw.jobs]
  sent := by simp [hw.sent]

/-! ## What grows -/

/-- How the two may change together. -/
structure Grows (w w' : World) : Prop where
  agentID : w'.agentID = w.agentID
  about : ∀ id r, w.about id = some r → w'.about id = some r
  rows : Evolves w.server w'.server
  bound : ∀ planID agentID, w.server.Bound planID agentID → w'.server.Bound planID agentID
  plain : ∀ id r, w.about id = some r → w.Plain r → w'.Plain r

namespace Grows

variable (hg : Grows w w')
include hg

theorem stored {id : UUID} (h : w.Stored id) : w'.Stored id := by
  obtain ⟨o, ho⟩ := Option.isSome_iff_exists.mp h
  obtain ⟨o', ho', -⟩ := hg.rows id o ho
  exact Option.isSome_iff_exists.mpr ⟨o', ho'⟩

theorem finished {id : UUID} (h : w.Finished id) : w'.Finished id := by
  obtain ⟨o, ho, hf⟩ := h
  obtain ⟨o', ho', hn⟩ := hg.rows id o ho
  have hfin : o'.finishedAt = o.finishedAt := congrArg (·.2.1) (hn.outcome hf)
  exact ⟨o', ho', by rw [hfin]; exact hf⟩

theorem retries {r : Report} (h : w.Retries r) : w'.Retries r := by
  obtain ⟨p, prev, hp, hprev, hf, hplain⟩ := h
  exact ⟨p, prev, hp, hg.about p prev hprev, hf, hg.plain p prev hprev hplain⟩

theorem origin {r : Report} (h : r.parentOperationID = none ∨ w.Stored r.operationID ∨ w.Retries r) :
    r.parentOperationID = none ∨ w'.Stored r.operationID ∨ w'.Retries r := by
  rcases h with h | h | h
  · exact Or.inl h
  · exact Or.inr (Or.inl (hg.stored h))
  · exact Or.inr (Or.inr (hg.retries h))

theorem planOk {p : PlanSchedule} (h : w.PlanOk p) : w'.PlanOk p :=
  ⟨h.planID, h.revision, h.policy, by
    rw [hg.agentID]
    exact hg.bound _ _ h.bound⟩

theorem workerOk {x : Worker} (h : w.WorkerOk x) : w'.WorkerOk x := by
  refine ⟨?_, h.filled, h.uploaded, h.policy, ?_⟩
  · rw [hg.agentID]
    exact hg.about _ _ h.about
  · rw [hg.agentID]
    exact hg.plain _ _ h.about h.plain

theorem jobOk {j : Job} (h : w.JobOk j) : w'.JobOk j := by
  obtain ⟨o, ho, hid⟩ := h
  obtain ⟨o', ho', hn⟩ := hg.rows _ o ho
  refine ⟨o', ho', ?_⟩
  rw [hn.identity, hid, hg.agentID]

theorem sentOk {m : Message} {r : Report} (h : w.SentOk m r) : w'.SentOk m r := by
  refine ⟨hg.about _ _ h.about, h.checked, ?_⟩
  rcases h.parent with hs | hp
  · exact Or.inl (hg.stored hs)
  · exact Or.inr fun p hparent => hg.finished (hp p hparent)

end Grows

/-! ## Calls -/

def Inserted (w : World) (op : UUID) (o : Operation) : Prop :=
  RowOk op o ∧ ∀ r, w.about op = some r → o.FromReport r ∧ r.WellFormed

def Adds (w : World) (c : Backup.Call) : Prop :=
  ∀ X : UUID → Operation → Prop, (∀ op o, w.Inserted op o → X op o) →
    c.Inserts fun op o => RowOk op o ∧ X op o

theorem about_none {id : UUID} (h : (w.agent.records.row id).isNone) : w.about id = none := by
  rw [World.about, State.about, Option.isNone_iff_eq_none.mp h]
  rfl

/-- A call of others adds only rows that the Agent has no record of. -/
theorem inserts_foreign {c : Backup.Call} (hc : w.foreign c) {X : UUID → Operation → Prop}
    (hX : ∀ op o, RowOk op o → w.about op = none → X op o) :
    c.Inserts fun op o => RowOk op o ∧ X op o := by
  cases c with
  | progress p =>
      simp only [foreign, Bool.and_eq_true] at hc
      intro hl hk
      have hok := Backup.rowOk_report p.fromReport (Backup.identified_of_progress hk) hl
      exact ⟨hok, hX _ _ hok (about_none hc.2)⟩
  | result r =>
      simp only [foreign, Bool.and_eq_true] at hc
      intro hl hk
      have hok := Backup.rowOk_report r.fromReport (Backup.identified_of_result hk) hl
      exact ⟨hok, hX _ _ hok (about_none hc.2)⟩
  | create id target key =>
      simp only [foreign, fresh, Bool.and_eq_true] at hc
      intro l p now hl
      have hok : RowOk id (Backup.manualRow id l p now) :=
        Backup.manualRow_ok hc.1.1.1 (hl.mono fun _ _ h => h.1)
      exact ⟨hok, hX _ _ hok (about_none hc.1.1.2)⟩
  | _ => trivial

theorem adds_foreign {c : Backup.Call} (hc : w.foreign c) : w.Adds c := by
  refine fun X hX => inserts_foreign hc fun op o hok hnone => hX op o ⟨hok, fun r hr => ?_⟩
  rw [hnone] at hr
  cases hr

theorem Inv.inserted (h : Inv start w) {op : UUID} {r : Report} {o : Operation}
    (hr : w.about op = some r) (ho : o.FromReport r) : w.Inserted op o := by
  obtain ⟨hop, -, hk⟩ := h.about hr
  subst hop
  refine ⟨Backup.rowOk_report ho hk.wellFormed.identified hk.wellFormed.links, fun r' hr' => ?_⟩
  rw [hr] at hr'
  cases hr'
  exact ⟨ho, hk.wellFormed⟩

theorem Inv.adds_sent (h : Inv start w) {m : Message} (hm : m ∈ w.sent) (now : Stamp) :
    w.Adds (w.callOf now m) := by
  intro X hX
  cases m with
  | progress p =>
      intro _ _
      have hins := h.inserted (h.sent _ hm _ rfl).about p.fromReport
      exact ⟨hins.1, hX _ _ hins⟩
  | result r =>
      intro _ _
      have hins := h.inserted (h.sent _ hm _ rfl).about r.fromReport
      exact ⟨hins.1, hX _ _ hins⟩
  | _ => trivial

/-- What is kept about the row of an operation that the Agent knows. -/
def Agrees (w : World) (op : UUID) (o : Operation) : Prop :=
  ∀ r, w.about op = some r →
    o.matchesReport r ∧ (w.Plain r → r.attempt = 0 → o.parentOperationID = none)

theorem agrees_inserted {op : UUID} {o : Operation} (h : w.Inserted op o) : w.Agrees op o := by
  intro r hr
  obtain ⟨hfrom, hwf⟩ := h.2 r hr
  refine ⟨hfrom.matches hwf.links, fun _ h0 => ?_⟩
  have hp : o.parentOperationID = r.parentOperationID := congrArg (·.2.2.2.2.1) hfrom
  rw [hp]
  exact Backup.parent_none hwf.links h0

theorem agrees_identity : Backup.OfIdentity fun op o => RowOk op o ∧ w.Agrees op o := by
  intro op o o' hid h
  refine ⟨Backup.rowOk_identity op o o' hid h.1, fun r hr => ?_⟩
  have hp : o'.parentOperationID = o.parentOperationID := congrArg (·.2.2.2.2.1) hid
  rw [Backup.matchesReport_identity hid, hp]
  exact h.2 r hr

theorem Inv.agrees (h : Inv start w) : RowsAre (fun op o => RowOk op o ∧ w.Agrees op o) w.server := by
  intro op o ho
  refine ⟨h.rows op o ho, fun r hr => ?_⟩
  obtain ⟨hop, -, hk⟩ := h.about hr
  subst hop
  exact ⟨hk.matched o ho, fun hplain h0 => hplain h0 o ho⟩

variable {c : Backup.Call}

theorem Inv.agrees_handle (h : Inv start w) (hc : w.Adds c) (now : Stamp) :
    RowsAre (fun op o => RowOk op o ∧ w.Agrees op o) (w.server.handle c now) :=
  Backup.rowsAre_handle agrees_identity (hc _ fun _ _ hi => agrees_inserted hi) h.agrees now

theorem Inv.grows_call (h : Inv start w) (hs : start.Fresh) (hc : w.Adds c) (now : Stamp)
    (acks : List UUID) (jobs : List Job) :
    Grows w { w with server := w.server.handle c now, acks := acks, jobs := jobs } where
  agentID := rfl
  about _ _ hr := hr
  rows := h.served.evolves hs c now
  bound _ _ hb := h.served.bound hs c now hb
  plain id r hr hplain h0 o ho := by
    obtain ⟨rfl, -, -⟩ := h.about hr
    exact ((h.agrees_handle hc now _ o ho).2 r hr).2 hplain h0

/-- A call that the server handles keeps the invariant, whatever it acknowledges or sends, if that
is about rows as they then are. -/
theorem Inv.call (h : Inv start w) (hs : start.Fresh) (hc : w.Adds c) (now : Stamp)
    {acks : List UUID} {jobs : List Job}
    (hacks : ∀ id ∈ acks, id ∈ w.acks ∨
      World.Finished { w with server := w.server.handle c now, acks := acks, jobs := jobs } id)
    (hjobs : ∀ j ∈ jobs, j ∈ w.jobs ∨
      World.JobOk { w with server := w.server.handle c now, acks := acks, jobs := jobs } j) :
    Inv start { w with server := w.server.handle c now, acks := acks, jobs := jobs } := by
  have hg := h.grows_call hs hc now acks jobs
  refine ⟨h.agentID, h.served.handle c now, fun op o ho => (h.agrees_handle hc now op o ho).1,
    fun p hp => hg.planOk (h.plans p hp), fun id r hr => ?_,
    fun x hx => hg.workerOk (h.workers x hx), fun id hid => ?_, fun j hj => ?_,
    fun m hm r hr => hg.sentOk (h.sent m hm r hr)⟩
  · have hrec := h.records id r hr
    have habout : w.about id = some (r.report w.agentID) := by
      rw [World.about, State.about, hr]
      rfl
    refine ⟨hrec.key, hrec.filled, fun hu => hg.finished (hrec.uploaded hu),
      hrec.known.wellFormed, hg.bound _ _ hrec.known.bound, fun o ho => ?_,
      hg.origin hrec.known.origin⟩
    have hkey : (r.report w.agentID).operationID = id := hrec.key
    rw [hkey] at ho
    exact ((h.agrees_handle hc now id o ho).2 _ habout).1
  · rcases hacks id hid with hold | hnew
    · exact hg.finished (h.acks id hold)
    · exact hnew
  · rcases hjobs j hj with hold | hnew
    · exact hg.jobOk (h.jobs j hold)
    · exact hnew

end World

end RestFleet.Agent
