import RestFleet.Verification.Catalog.Sound

/-! # Revisions and the requests that write them

A request builds its version from a row that it has read before its transaction, which compares
the client's revision only. -/

namespace RestFleet.Catalog

open Domain

/-- What the request of a revision did not ask to change is as the version before has it. -/
def Entry.Respects (site : Site) (trail : List Entry) : Entry → Prop
  | .planRevised change _ _ _ after _ _ =>
    ∃ before, planAt trail after.id = some before ∧
      after.desiredRevision = before.desiredRevision + 1 ∧ after.hostID = before.hostID ∧
      after.agentID = before.agentID ∧ after.repositoryID = before.repositoryID ∧
      after.archivedAt = before.archivedAt ∧ after.createdAt = before.createdAt ∧
      Built site trail change before after
  | .templateRevised change _ _ _ after _ _ =>
    ∃ before, templateAt trail after.id = some before ∧
      after.currentRevision = before.currentRevision + 1 ∧ after.name = before.name ∧
      after.archivedAt = before.archivedAt ∧ after.createdAt = before.createdAt ∧
      after.description = (change.description.map Text.trimSpace).getD before.description ∧
      after.config = change.config.getD before.config
  | _ => True

/-- The client's revision is not ahead of the one that its request has read. -/
def Entry.NotAhead : Entry → Prop
  | .planRevised _ expected read _ _ _ _ => expected ≤ read.desiredRevision
  | .templateRevised _ expected read _ _ _ _ => expected ≤ read.currentRevision
  | _ => True

instance : DecidablePred Entry.NotAhead
  | .planRevised _ expected read _ _ _ _ => inferInstanceAs (Decidable (expected ≤ read.desiredRevision))
  | .templateRevised _ expected read _ _ _ _ =>
    inferInstanceAs (Decidable (expected ≤ read.currentRevision))
  | .templateCreated _ _ _ | .templateArchived _ _ | .planCreated _ _ _ _ | .planStatus _ _
  | .fleet _ => inferInstanceAs (Decidable True)

variable {site : Site} {trail : List Entry} {e : Entry}

/-- A version that was built from a row with the same body. -/
theorem Built.rebase {change : PlanChange} {read before next : Plan}
    (h : Built site trail change read next) (hev : read.Evolves before)
    (hrev : before.desiredRevision = read.desiredRevision) (hstatus : before.status = read.status) :
    Built site trail change before (before.revised next) := by
  obtain ⟨hname, hover, htrev, hconfig, hhash⟩ := hev.body hrev
  have htemplate := hev.bound.2.2.2
  exact
    { template := h.template.trans htemplate.symm
      name := h.name.trans (by rw [hname])
      named := h.named
      revision := h.revision.trans (by rw [htrev])
      overrides := fun hnone => (h.overrides hnone).trans hover.symm
      normalized := h.normalized
      config := by
        rw [hconfig, hhash, hstatus]
        refine h.config.imp_right fun hd => ⟨hd.1, ?_, hd.2.hash, ?_⟩
        · rw [htemplate]
          exact hd.2.merged
        · rw [hstatus]
          exact hd.2.status }

theorem Entry.Fits.respects (hc : Checked (Entry.Fits site) trail) (hf : e.Fits site trail)
    (hn : e.NotAhead) : e.Respects site trail := by
  cases e with
  | planRevised change expected read seen after actor published =>
      obtain ⟨hseen, hread, before, next, hb, harch, hrev, hstatus, htemplate, hbuilt, rfl⟩ := hf
      refine ⟨before, hb, rfl, rfl, rfl, rfl, rfl, rfl, ?_⟩
      rw [← List.take_append_drop seen trail] at hc hb
      obtain ⟨q, hq, hev⟩ := planAt_evolves hc hread
      rw [hb] at hq
      cases hq
      have hle : expected ≤ read.desiredRevision := hn
      exact hbuilt.rebase hev (by have := hev.revision; omega) hstatus
  | templateRevised change expected read seen after hash actor =>
      obtain ⟨hseen, hread, hnew, before, now, hb, harch, hrev, rfl⟩ := hf
      refine ⟨before, hb, rfl, rfl, rfl, rfl, ?_⟩
      rw [← List.take_append_drop seen trail] at hc hb
      obtain ⟨q, hq, hev⟩ := templateAt_evolves hc hread
      rw [hb] at hq
      cases hq
      have hle : expected ≤ read.currentRevision := hn
      obtain ⟨hdesc, hconfig⟩ := hev.body (by have := hev.revision; omega)
      rw [hdesc, hconfig]
      exact ⟨rfl, rfl⟩
  | _ => trivial

/-! ## Runs of a small site -/

def sampleDigest (text : Text) : Text :=
  let value := text.foldl (fun h c => (h * 1000003 + c.toNat) % 2 ^ 256) 7
  (Nat.toDigits 16 value).leftpad 64 '0'

def sampleSite : Site := ⟨fun _ => some fun _ => 0, sampleDigest, fun name => name⟩

def sampleID (n : ℕ) : UUID := BitVec.ofNat 128 (0x70008000000000000000 + n)

def planDraw : { i : UUID // i.isV7 = true } := ⟨sampleID 5, by decide⟩

def spareDraw : { i : UUID // i.isV7 = true } := ⟨sampleID 9, by decide⟩

def sampleAdmin : Actor := ⟨sampleID 0, true⟩

def sampleConfig : TemplateConfig :=
  { TemplateConfig.zero with
    paths := some ["/srv".toList]
    scheduleCron := "0 3 * * *".toList
    scheduleTimezone := "UTC".toList }

def sampleStart : Database := ⟨.empty, .empty, .empty, .empty, .empty, .empty, .empty, []⟩

theorem sampleStart_fresh : sampleStart.Fresh := ⟨rfl, rfl, rfl, rfl, rfl⟩

def sampleState : DesiredStateRow :=
  ⟨sampleID 1, 1, 1, [], .obj
    [("runtime_policy".toList, RuntimePolicy.encode ⟨1, defaultLogLimitBytes⟩)]⟩

def sampleOpening : List Move :=
  [.call 0 (.fleet (.enrolled (sampleID 1) (sampleID 2) sampleState)),
    .go 0 50 spareDraw 1,
    .call 1 (.fleet (.repositoryCreated (sampleID 3) (sampleID 2))),
    .go 1 50 spareDraw 2,
    .call 2 (.createTemplate sampleAdmin "daily".toList [] sampleConfig),
    .go 2 50 ⟨sampleID 4, by decide⟩ 3]

def samplePlan (name : String) : PlanRequest :=
  ⟨name.toList, sampleID 2, sampleID 1, sampleID 3, sampleID 4, 1, .value (.obj [])⟩

def renamed : List Move :=
  sampleOpening ++
    [.call 3 (.createPlan sampleAdmin (samplePlan "old")),
      .go 3 50 planDraw 4,
      .call 4 (.updatePlan sampleAdmin (sampleID 5) 1 ⟨some "new".toList, none, none⟩),
      .go 4 50 spareDraw 5]

/-! ## Revisions in every run -/

/-- In every run, a revision whose client was not ahead of what its request had read changes what
was asked for and what follows from it. The rows are the versions that the history leaves. -/
theorem revision_respects_version_before {start : Database} (hs : start.Fresh)
    {c : Config (Tx.State schema) ℕ (Tx.Op schema) (Tx.Reply schema)}
    (hc : (server site).Reachable (Tx.State.initial start) c) :
    (∀ i, c.state.db.plans.row i = planAt c.state.db.trail i) ∧
    (∀ i, c.state.db.template? i = templateAt c.state.db.trail i) ∧
    ∀ before e after, c.state.db.trail = before ++ e :: after → e.NotAhead →
      e.Respects site before := by
  have hr := reaches_of_reachable hs hc
  refine ⟨(replays_of_reaches hr).plans, (replays_of_reaches hr).templates, ?_⟩
  intro before e after htrail hn
  have hchecked := checked_of_reaches hr
  rw [htrail] at hchecked
  exact Entry.Fits.respects hchecked.of_append (hchecked before e after rfl) hn

theorem revision_respects_version_before_renamed :
    ∃ c : Config (Tx.State schema) ℕ (Tx.Op schema) (Tx.Reply schema),
      (server sampleSite).Reachable (Tx.State.initial sampleStart) c ∧
      ∃ before e, c.state.db.trail = before ++ [e] ∧ e.plan (sampleID 5) none ≠ none ∧ e.NotAhead ∧
        e.Respects sampleSite before := by
  have hplay : (play sampleSite sampleStart renamed).any (fun m : Tx.Machine schema =>
      m.db.trail.getLast?.any fun e => (e.plan (sampleID 5) none).isSome && decide e.NotAhead)
        = true := by
    decide +kernel
  obtain ⟨m, hm, hany⟩ := (Option.any_eq_true _ _).mp hplay
  obtain ⟨e, hlast, he⟩ := (Option.any_eq_true _ _).mp hany
  obtain ⟨before, htrail⟩ := List.getLast?_eq_some_iff.mp hlast
  simp only [Bool.and_eq_true, decide_eq_true_eq, Option.isSome_iff_ne_none] at he
  have hc := reachable_of_play hm
  exact ⟨_, hc, before, e, htrail, he.1, he.2,
    (revision_respects_version_before sampleStart_fresh hc).2.2 before e [] htrail he.2⟩

/-! ### A request that is ahead of what it has read -/

/-- One request sets the overrides of revision 2 and reads revision 1; another one renames
revision 1 before the first goes on. -/
def renameUndone : List Move :=
  sampleOpening ++
    [.call 3 (.createPlan sampleAdmin (samplePlan "old")),
      .go 3 50 planDraw 4,
      .call 4 (.updatePlan sampleAdmin (sampleID 5) 2 ⟨none, none, some (.value (.obj []))⟩),
      .go 4 3 spareDraw 5,
      .call 5 (.updatePlan sampleAdmin (sampleID 5) 1 ⟨some "new".toList, none, none⟩),
      .go 5 50 spareDraw 6,
      .go 4 50 spareDraw 7]

def renamesUnasked (trail : List Entry) : Bool :=
  match trail.getLast? with
  | some (.planRevised change _ _ _ after _ _) =>
    change.name.isNone && (planAt trail.dropLast after.id).any fun p => decide (p.name ≠ after.name)
  | _ => false

theorem not_respects_of_renamesUnasked (h : renamesUnasked trail = true) :
    ∃ before e after, trail = before ++ e :: after ∧ ¬ e.Respects site before := by
  unfold renamesUnasked at h
  split at h
  · rename_i change expected read seen after actor published hlast
    obtain ⟨l, rfl⟩ := List.getLast?_eq_some_iff.mp hlast
    refine ⟨l, _, [], rfl, ?_⟩
    rintro ⟨p, hp, -, -, -, -, -, -, hbuilt⟩
    rw [List.dropLast_concat, hp] at h
    simp only [Option.any_some, Bool.and_eq_true, Option.isNone_iff_eq_none, decide_eq_true_eq] at h
    obtain ⟨hnone, hne⟩ := h
    refine hne ?_
    rw [hbuilt.name, hnone]
    rfl
  · cases h

/-- A revision that was asked to set the overrides undoes a committed rename. -/
theorem stale_read_undoes_rename :
    ∃ (start : Database) (c : Config (Tx.State schema) ℕ (Tx.Op schema) (Tx.Reply schema)),
      start.Fresh ∧ (server sampleSite).Reachable (Tx.State.initial start) c ∧
      ∃ before e after, c.state.db.trail = before ++ e :: after ∧
        ¬ e.Respects sampleSite before := by
  have hplay : (play sampleSite sampleStart renameUndone).any
      (fun m : Tx.Machine schema => renamesUnasked m.db.trail) = true := by
    decide +kernel
  obtain ⟨m, hm, hrenames⟩ := (Option.any_eq_true _ _).mp hplay
  exact ⟨sampleStart, ⟨m.state, m.threads⟩, sampleStart_fresh, reachable_of_play hm,
    not_respects_of_renamesUnasked hrenames⟩

end RestFleet.Catalog
