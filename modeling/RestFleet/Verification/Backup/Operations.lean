import RestFleet.Model.Agent.World
import RestFleet.Verification.Backup.Sound

/-! # Backup operations over whole runs -/

namespace RestFleet.Backup

variable {start db : Database} {op : UUID} {o : Operation}
  {c c' : Config (Tx.State schema) ℕ (Tx.Op schema) (Tx.Reply schema)}

/-! ## Computed runs -/

def serve (calls : List (Call × Stamp)) (db : Database) : Database :=
  Tx.serial 0 (calls.map fun x => x.1.atTime x.2) db

theorem serve_reachable (calls : List (Call × Stamp)) (db : Database) :
    ∃ c, server.Reachable (Tx.State.initial db) c ∧ c.state.db = serve calls db := by
  refine Tx.serial_reachable (M := schema) db fun x hx => ?_
  obtain ⟨call, -, rfl⟩ := List.mem_map.mp hx
  exact ⟨call.1, rfl⟩

def sampleID (n : ℕ) : UUID := 0x00000000000070008000000000000000 + BitVec.ofNat 128 n

def samplePlan : Plan where
  id := sampleID 1
  hostID := sampleID 2
  agentID := sampleID 3
  repositoryID := sampleID 4
  status := .active
  desiredRevision := 1
  configHash := []
  archived := false
  backupHealth := .neverRun
  lastOperationID := none
  lastResultAt := none
  lastSuccessAt := none
  nextRunAt := none
  updatedAt := 0

def sampleStart : Database where
  agents := Table.empty.insert (sampleID 3) ⟨sampleID 3, sampleID 2, ['a'], none⟩
  plans := Table.empty.insert (sampleID 1) samplePlan
  operations := Table.empty
  events := Table.empty
  snapshots := Table.empty
  requests := Table.empty
  trail := []

theorem sampleStart_fresh : sampleStart.Fresh := ⟨rfl, rfl, rfl, rfl⟩

def sampleKey (n : UInt8) : RequestKey := ⟨[n], [n], [n]⟩

def sampleCancel : List (Call × Stamp) :=
  [(.create (sampleID 5) (.plan (sampleID 1)) (sampleKey 1), 10),
    (.dispatch (sampleID 3) 20, 20), (.cancel (sampleID 5) 30 (sampleKey 2), 30)]

/-! ## Finality -/

/-- A finished row keeps its outcome, a canceled one never waits or runs again, and no row
changes what it is about. -/
theorem operation_finality (hs : start.Fresh)
    (hc : server.Reachable (Tx.State.initial start) c) (hrun : server.Run c c')
    (ho : c.state.db.operations.row op = some o) :
    (o.finishedAt.isSome ↔ o.status ∈ [Status.succeeded, .succeededWithWarnings, .failed,
      .canceled, .lost, .missed, .concurrencySkipped]) ∧
    ∃ o', c'.state.db.operations.row op = some o' ∧
      (o.finishedAt.isSome → o'.status = o.status ∧ o'.finishedAt = o.finishedAt ∧
        o'.exitCode = o.exitCode ∧ o'.errorCode = o.errorCode ∧ o'.snapshotID = o.snapshotID) ∧
      (o.status = .cancelRequested → o'.status ≠ .queued ∧ o'.status ≠ .running) ∧
      o'.agentID = o.agentID ∧ o'.planID = o.planID ∧ o'.planRevision = o.planRevision ∧
      o'.parentOperationID = o.parentOperationID ∧ o'.rootOperationID = o.rootOperationID ∧
      o'.attempt = o.attempt := by
  have hok : RowsOk c.state.db :=
    rowsOk_of_reaches (rowsOk_of_fresh hs) (reaches_of_reachable hs hc)
  obtain ⟨o', ho', hnext⟩ := evolves_of_extends hok (extends_of_run hs hc hrun) op o ho
  refine ⟨?_, o', ho', ?_, ?_, ?_⟩
  · rw [(hok op o ho).1]
    cases o.status <;> simp [Status.final]
  · intro hf
    simpa [Operation.outcome] using hnext.outcome hf
  · intro hcancel
    have hset : o'.status.settled := hnext.settled (by rw [hcancel]; rfl)
    constructor <;> intro h <;> simp [h, Status.settled] at hset
  · have hid := hnext.identity
    simp only [Operation.identity, Prod.mk.injEq] at hid
    exact hid.2

/-- The canceled operation of a computed run stays canceled. -/
theorem operation_finality_cancel :
    ∃ c, server.Reachable (Tx.State.initial sampleStart) c ∧
      ∃ o, c.state.db.operations.row (sampleID 5) = some o ∧ o.status = .cancelRequested ∧
        ∀ c', server.Run c c' → ∃ o', c'.state.db.operations.row (sampleID 5) = some o' ∧
          o'.status ≠ .queued ∧ o'.status ≠ .running := by
  have hrow : ((serve sampleCancel sampleStart).operations.row (sampleID 5)).any
      (·.status = .cancelRequested) := by decide +kernel
  obtain ⟨c, hc, hdb⟩ := serve_reachable sampleCancel sampleStart
  rw [← hdb] at hrow
  obtain ⟨o, ho, hcancel⟩ := (Option.any_eq_true _ _).mp hrow
  refine ⟨c, hc, o, ho, of_decide_eq_true hcancel, fun c' hrun => ?_⟩
  obtain ⟨-, o', ho', -, hcan, -⟩ := operation_finality sampleStart_fresh hc hrun ho
  exact ⟨o', ho', hcan (of_decide_eq_true hcancel)⟩

/-! ## Dispatch and cancel -/

structure DispatchSpec (db : Database) : Prop where
  withdrawn : ∀ before found now key savedAt after,
    db.trail = before ++ .canceled found now key savedAt :: after → Untouched found.id before →
      (∃ o, db.operations.row found.id = some o ∧ o.status = .canceled) ∧
      ∀ stream claimedAt seen, .dispatched stream found.id claimedAt seen ∉ after
  unclaimed : ∀ before found now key savedAt after,
    db.trail = before ++ .canceled found now key savedAt :: after →
      claimTimes found.id after = []
  rechecked : ∀ before found now key savedAt after,
    db.trail = before ++ .canceled found now key savedAt :: after →
      ∀ stream claimedAt seen, .dispatched stream found.id claimedAt seen ∈ after →
        seen ≤ before.length ∧
          ∃ retryBefore, .claimed stream found.id claimedAt retryBefore ∈ before
  once : ∀ stream op claimedAt,
    db.trail.countP (Entry.dispatches stream op claimedAt) ≤
      db.trail.countP (Entry.claims stream op claimedAt) ∧
    db.trail.countP (Entry.claims stream op claimedAt) ≤ 1
  spaced : ∀ op, (claimTimes op db.trail).Pairwise (· + dispatchRetryAfter ≤ ·)

variable {before after : List Entry} {e e' : Entry}

/-- What an entry after `e` satisfies, with the entries between them. -/
theorem TrailOk.follows_later (h : TrailOk db) (htrail : db.trail = before ++ e :: after)
    (hm : e' ∈ after) :
    ∃ mid rest, after = mid ++ e' :: rest ∧ e'.Follows (before ++ e :: mid) := by
  obtain ⟨mid, rest, rfl⟩ := List.append_of_mem hm
  refine ⟨mid, rest, rfl, h.checked (before ++ e :: mid) e' rest ?_⟩
  rw [htrail, List.append_assoc, List.cons_append]

theorem TrailOk.unclaimed_after (h : TrailOk db) (htrail : db.trail = before ++ e :: after)
    (hc : e.cancels op) : claimTimes op after = [] := by
  rw [List.eq_nil_iff_forall_not_mem]
  intro claimedAt hclaim
  obtain ⟨e', he', htime⟩ := List.mem_filterMap.mp hclaim
  obtain ⟨stream, retryBefore, rfl⟩ := claimTime_eq_some htime
  obtain ⟨mid, rest, -, hfollows⟩ := h.follows_later htrail he'
  exact hfollows.1 e (by simp) hc

/-- A dispatch after a cancel was claimed and checked before it. -/
theorem TrailOk.rechecked_before (h : TrailOk db) (htrail : db.trail = before ++ e :: after)
    (hc : e.cancels op) {stream seen : ℕ} {claimedAt : Stamp}
    (hm : .dispatched stream op claimedAt seen ∈ after) :
    seen ≤ before.length ∧ ∃ retryBefore, .claimed stream op claimedAt retryBefore ∈ before := by
  obtain ⟨mid, rest, rfl, hfollows⟩ := h.follows_later htrail hm
  constructor
  · by_contra hlt
    have hmem : e ∈ (before ++ e :: mid).take seen := by
      rw [List.take_append]
      obtain ⟨n, hn⟩ := Nat.exists_eq_add_of_lt (Nat.lt_of_not_le hlt)
      have hpos : seen - before.length = n + 1 := by omega
      simp [hpos]
    exact hfollows.checked e hmem hc
  · have hpos : 0 < (before ++ e :: mid).countP (Entry.claims stream op claimedAt) :=
      Nat.zero_lt_of_lt hfollows.unused
    obtain ⟨e', he', hclaim⟩ := List.countP_pos_iff.mp hpos
    cases e' with
    | claimed s i n retryBefore =>
        simp only [Entry.claims, Bool.and_eq_true, decide_eq_true_eq] at hclaim
        obtain ⟨⟨rfl, rfl⟩, rfl⟩ := hclaim
        refine ⟨retryBefore, ?_⟩
        -- The claim is none of the entries from the cancel on.
        rcases List.mem_append.mp he' with hb | ha
        · exact hb
        · rcases List.mem_cons.mp ha with rfl | hmid
          · simp [Entry.cancels] at hc
          · have hnone := h.unclaimed_after htrail hc
            have hin : n ∈ claimTimes i (mid ++ .dispatched s i n seen :: rest) :=
              List.mem_filterMap.mpr ⟨_, List.mem_append_left _ hmid, by simp [Entry.claimTime]⟩
            rw [hnone] at hin
            cases hin
    | _ => simp [Entry.claims] at hclaim

theorem TrailOk.claimed_once (h : TrailOk db) (stream : ℕ) (op : UUID) (claimedAt : Stamp) :
    db.trail.countP (Entry.claims stream op claimedAt) ≤ 1 := by
  have hnodup : (claimTimes op db.trail).Nodup := by
    refine (h.spaced op).imp fun {a b} hab heq => ?_
    rw [heq] at hab
    exact absurd hab (Int.not_le.mpr (Int.lt_add_of_pos_right b (by decide)))
  have hcount := List.nodup_iff_count_le_one.mp hnodup claimedAt
  rw [List.count, claimTimes, List.countP_filterMap] at hcount
  refine Nat.le_trans (List.countP_mono_left fun e _ hclaim => ?_) hcount
  cases e with
  | claimed s i n retryBefore =>
      simp only [Entry.claims, Bool.and_eq_true, decide_eq_true_eq] at hclaim
      simp [Entry.claimTime, hclaim]
  | _ => simp [Entry.claims] at hclaim

/-- Dispatch versus cancel, over every run. -/
theorem dispatch_spec (hs : start.Fresh) (hc : server.Reachable (Tx.State.initial start) c) :
    DispatchSpec c.state.db := by
  have hr := reaches_of_reachable hs hc
  have hok := trailOk_of_reaches hs hr
  constructor
  case withdrawn =>
    intro before found now key savedAt after htrail hu
    have hfound : found.status = .queued ∧ found.dispatchedAt = none :=
      hok.checked before _ after htrail hu
    obtain ⟨o, ho, hcanceled, -⟩ := hok.withdrawn found now key savedAt (by simp [htrail])
      hfound.1 hfound.2
    refine ⟨⟨o, ho, hcanceled⟩, fun stream claimedAt seen hm => ?_⟩
    obtain ⟨-, retryBefore, hclaim⟩ := hok.rechecked_before htrail (by simp [Entry.cancels]) hm
    have hin : claimedAt ∈ claimTimes found.id before :=
      List.mem_filterMap.mpr ⟨_, hclaim, by simp [Entry.claimTime]⟩
    rw [hu.1] at hin
    cases hin
  case unclaimed =>
    exact fun before found now key savedAt after htrail =>
      hok.unclaimed_after htrail (by simp [Entry.cancels])
  case rechecked =>
    exact fun before found now key savedAt after htrail stream claimedAt seen hm =>
      hok.rechecked_before htrail (by simp [Entry.cancels]) hm
  case once =>
    exact fun stream op claimedAt =>
      ⟨balanced_of_reaches hs.trail hr stream op claimedAt, hok.claimed_once stream op claimedAt⟩
  case spaced => exact hok.spaced

/-- The dispatch and the cancel of a computed run. -/
theorem dispatch_spec_cancel :
    ∃ c, server.Reachable (Tx.State.initial sampleStart) c ∧
      (∃ e ∈ c.state.db.trail, e.dispatches 1 (sampleID 5) 20) ∧
      (∃ e ∈ c.state.db.trail, e.cancels (sampleID 5)) ∧ DispatchSpec c.state.db := by
  have htrail : (serve sampleCancel sampleStart).trail.any (Entry.dispatches 1 (sampleID 5) 20) ∧
      (serve sampleCancel sampleStart).trail.any (Entry.cancels (sampleID 5)) := by
    decide +kernel
  obtain ⟨c, hc, hdb⟩ := serve_reachable sampleCancel sampleStart
  rw [← hdb, List.any_eq_true, List.any_eq_true] at htrail
  exact ⟨c, hc, htrail.1, htrail.2, dispatch_spec sampleStart_fresh hc⟩

end RestFleet.Backup
