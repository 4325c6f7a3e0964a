import RestFleet.Model.Agent.Output

/-! # Output parsing does not depend on the chunks

The clock decides how often `progressSink` writes to the state, but not what it has counted. -/

namespace RestFleet.Agent.Output

open Backup (ErrorCode Summary)

variable {π : Type} {d : Decoder π} {env env' : Env}

def Env.Stores (env : Env) : Prop := ∀ n, env.stored n = true

namespace ProgressSink

variable {p q : ProgressSink π}

/-! ### Parts of a line -/

theorem fail_of_none (h : p.errorCode = .none) (code : ErrorCode) :
    p.fail code = { p with errorCode := code, pendingLine := [], canceled := true } := if_pos h

theorem stop_eq_false : (sink env d).stop p = false ↔ p.errorCode = .none := by
  simp [sink]

theorem absorb_of_le (part : Bytes) (h : p.pendingLine.length + part.length ≤ maxLine) :
    (sink env d).absorb p part = { p with pendingLine := p.pendingLine ++ part } :=
  if_neg (Nat.not_lt.mpr h)

theorem absorb_of_lt (part : Bytes) (h : maxLine < p.pendingLine.length + part.length) :
    (sink env d).absorb p part = p.fail .invalidEngineOutput := if_pos h

/-- A line is as long as its bytes, whichever part of it makes it too long. -/
theorem steady : (sink env d).Steady fun p => p.pendingLine.length ≤ maxLine where
  absorb_nil {p} hp _ := by
    rw [absorb_of_le _ (by simpa using hp), List.append_nil]
  absorb_cons {p} b part hp hstop := by
    rw [stop_eq_false] at hstop
    rcases Nat.lt_or_ge maxLine (p.pendingLine.length + 1) with hfull | hroom
    · have hfailed : (sink env d).stop (p.fail .invalidEngineOutput) = true := by
        simp [sink, fail_of_none hstop]
      rw [absorb_of_lt (b :: part) (by simp; omega), absorb_of_lt [b] hfull,
        if_pos hfailed]
    · rw [absorb_of_le [b] hroom, if_neg (by simp [sink, hstop])]
      rcases Nat.lt_or_ge maxLine (p.pendingLine.length + (part.length + 1)) with hlong | hshort
      · rw [absorb_of_lt (b :: part) (by simpa using hlong),
          absorb_of_lt _ (by simp; omega), fail_of_none hstop]
        exact (fail_of_none (p := { p with pendingLine := p.pendingLine ++ [b] }) hstop _).symm
      · rw [absorb_of_le (b :: part) (by simpa using hshort), absorb_of_le _ (by simp; omega)]
        simp
  inv_absorb {p} b hp hstop := by
    rw [stop_eq_false] at hstop
    rcases Nat.lt_or_ge maxLine (p.pendingLine.length + 1) with hfull | hroom
    · rw [absorb_of_lt _ hfull, fail_of_none hstop]
      exact Nat.zero_le _
    · rw [absorb_of_le _ hroom]
      simpa using hroom
  inv_newline _ _ := Nat.zero_le _

/-! ### The clock and the state -/

/-- The sink without its clock readings and writes. -/
def core (d : Decoder π) (p : ProgressSink π) : ProgressSink π :=
  { p with hasState := false, lastWrite := 0, lastPercent := d.zero, readings := 0, effects := [] }

theorem errorCode_of_core (h : core d p = core d q) : p.errorCode = q.errorCode := by
  have hfield := congrArg errorCode h
  exact hfield

theorem pendingLine_of_core (h : core d p = core d q) : p.pendingLine = q.pendingLine := by
  have hfield := congrArg pendingLine h
  exact hfield

theorem core_fail (code : ErrorCode) : core d (p.fail code) = (core d p).fail code := by
  unfold fail
  split
  case isTrue h =>
    rw [if_pos (show (core d p).errorCode = .none from h)]
    rfl
  case isFalse h => rw [if_neg (show ¬(core d p).errorCode = .none from h)]

theorem core_attempt (h : env.Stores) (effect : Effect) :
    core d (p.attempt env effect) = core d p := by
  simp [attempt, h p.effects.length, core]

theorem core_operationLog (h : env.Stores) (code : LogCode) :
    core d (p.operationLog env code) = core d p := by
  unfold operationLog
  split
  · exact core_attempt h _
  · rfl

theorem core_persist (h : env.Stores) : core d (p.persist env) = core d p := by
  unfold persist
  split
  · simp only [h p.effects.length, if_true]
    rw [core_operationLog h, core_attempt h]
  · rfl

def progressed (p : ProgressSink π) (event : Event π) : ProgressSink π :=
  { p with
    files := event.filesDone
    totalFiles := event.totalFiles
    bytes := event.bytesDone
    totalBytes := event.totalBytes }

def summarized (p : ProgressSink π) (event : Event π) : ProgressSink π :=
  if p.sawSummary then p.fail .invalidEngineOutput
  else
    { p with
      sawSummary := true
      snapshotID := event.snapshotID
      summary := event.summary.map fun (s : Summary) => { s with warningCount := p.warnings }
      filesNew := event.filesNew
      dataAdded := event.dataAdded
      files := if 0 < event.filesDone then event.filesDone else p.files
      bytes := event.bytesDone }

def apply (d : Decoder π) (p : ProgressSink π) (line : Bytes) : ProgressSink π :=
  match d.parseEvent line with
  | .error _ => p.fail .invalidEngineOutput
  | .ok none => p
  | .ok (some event) => match event.type with
    | .status => p.progressed event
    | .summary => p.summarized event
    | .error => { p with warnings := p.warnings + 1 }

theorem core_status (h : env.Stores) (event : Event π) :
    core d (p.status env d event) = (core d p).progressed event := by
  unfold status
  dsimp only
  split
  · rw [core_persist h]
    rfl
  · rfl

theorem core_summarize (h : env.Stores) (event : Event π) :
    core d (p.summarize env event) = (core d p).summarized event := by
  unfold summarize summarized
  split
  case isTrue hsaw =>
    rw [if_pos (show (core d p).sawSummary = true from hsaw)]
    exact core_fail _
  case isFalse hsaw =>
    rw [if_neg (show ¬(core d p).sawSummary = true from hsaw), core_operationLog h, core_persist h]
    rfl

theorem core_consume (h : env.Stores) (line : Bytes) :
    core d (p.consume env d line) = apply d (core d p) line := by
  unfold consume apply
  rcases d.parseEvent line with e | _ | event
  · exact core_fail _
  · rfl
  · cases htype : event.type with
    | status => simpa only [htype] using core_status h event
    | summary => simpa only [htype] using core_summarize h event
    | error =>
        simp only [htype]
        rw [core_operationLog h]
        rfl

/-- The sink after a stream and `finish`, whatever the chunks. -/
theorem run_eq (env : Env) (d : Decoder π) (hasState : Bool) (chunks : List Bytes) :
    run env d hasState chunks =
      (chunks.flatten.foldl (sink env d).step (new d hasState)).finish env d :=
  congrArg (finish env d) (steady.writes_eq (Nat.zero_le _) chunks)

/-- Sinks with the same core stay so, whatever their clocks say. -/
theorem core_step (h : env.Stores) (h' : env'.Stores) (hcore : core d p = core d q)
    (b : UInt8) : core d ((sink env d).step p b) = core d ((sink env' d).step q b) := by
  have herror := errorCode_of_core hcore
  have hline := pendingLine_of_core hcore
  by_cases hp : p.errorCode = .none
  · have hq : q.errorCode = .none := herror.symm.trans hp
    by_cases hb : b = 10
    · subst hb
      rw [show (10 : UInt8) = (sink env d).sep from rfl, LineSink.step_sep (stop_eq_false.mpr hp)]
      rw [show (sink env d).sep = (sink env' d).sep from rfl,
        LineSink.step_sep (stop_eq_false.mpr hq)]
      have hconsume : core d (p.consume env d p.pendingLine) =
          core d (q.consume env' d q.pendingLine) := by
        rw [core_consume h, core_consume h', hcore, hline]
      exact congrArg (fun r : ProgressSink π => { r with pendingLine := [] }) hconsume
    · rw [LineSink.step_of_ne (stop_eq_false.mpr hp) hb, LineSink.step_of_ne (stop_eq_false.mpr hq) hb]
      rcases Nat.lt_or_ge maxLine (p.pendingLine.length + 1) with hfull | hroom
      · rw [absorb_of_lt _ hfull, absorb_of_lt _ (by simpa [← hline] using hfull), core_fail,
          core_fail, hcore]
      · rw [absorb_of_le _ hroom, absorb_of_le _ (by simpa [← hline] using hroom), hline]
        exact congrArg (fun r : ProgressSink π => { r with pendingLine := q.pendingLine ++ [b] }) hcore
  · have hstop : (sink env d).stop p = true := by simpa [sink] using hp
    have hstop' : (sink env' d).stop q = true := by simpa [sink, ← herror] using hp
    rw [LineSink.step_of_stop hstop, LineSink.step_of_stop hstop', hcore]

theorem core_foldl (h : env.Stores) (h' : env'.Stores) (hcore : core d p = core d q)
    (stream : Bytes) :
    core d (stream.foldl (sink env d).step p) = core d (stream.foldl (sink env' d).step q) := by
  induction stream generalizing p q with
  | nil => exact hcore
  | cons b stream ih => exact ih (core_step h h' hcore b)

theorem core_finish (h : env.Stores) (h' : env'.Stores) (hcore : core d p = core d q) :
    core d (p.finish env d) = core d (q.finish env' d) := by
  have herror := errorCode_of_core hcore
  have hline := pendingLine_of_core hcore
  unfold finish
  rw [herror, hline]
  split
  · have hconsume : core d (p.consume env d q.pendingLine) =
        core d (q.consume env' d q.pendingLine) := by
      rw [core_consume h, core_consume h', hcore]
    exact congrArg (fun r : ProgressSink π => { r with pendingLine := [] }) hconsume
  · exact congrArg (fun r : ProgressSink π => { r with pendingLine := [] }) hcore

end ProgressSink

namespace WarningSink

variable {s : WarningSink}

/-- A line that is being discarded has nothing pending. -/
structure Bounded (s : WarningSink) : Prop where
  length : s.pending.length ≤ ProgressSink.maxLine
  discarded : s.discarding = true → s.pending = []

theorem absorb_of_discarding (h : s.Bounded) (hd : s.discarding = true) (part : Bytes) :
    (sink d).absorb s part = s := by
  unfold sink
  dsimp only
  rw [h.discarded hd]
  by_cases hlong : ProgressSink.maxLine < ([] : Bytes).length + part.length
  · rw [if_pos hlong, if_pos rfl, ← h.discarded hd, ← hd]
  · rw [if_neg hlong, if_pos hd]

theorem absorb_of_le (part : Bytes) (hd : s.discarding = false)
    (h : s.pending.length + part.length ≤ ProgressSink.maxLine) :
    (sink d).absorb s part = { s with pending := s.pending ++ part } := by
  simp only [sink]
  rw [if_neg (Nat.not_lt.mpr h), if_neg (by simp [hd])]

theorem absorb_of_lt (part : Bytes) (h : ProgressSink.maxLine < s.pending.length + part.length) :
    (sink d).absorb s part = { s with pending := [], discarding := true } := by
  simp only [sink]
  rw [if_pos h, if_pos rfl]

theorem bounded_discard : Bounded { s with pending := [], discarding := true } :=
  ⟨Nat.zero_le _, fun _ => rfl⟩

/-- A line that is too long is discarded whichever part of it makes it so. -/
theorem steady : (sink d).Steady Bounded where
  absorb_nil {s} hs _ := by
    cases hd : s.discarding with
    | true => exact absorb_of_discarding hs hd []
    | false => rw [absorb_of_le _ hd (by simpa using hs.length), List.append_nil]
  absorb_cons {s} b part hs _ := by
    rw [if_neg (by simp [sink])]
    cases hd : s.discarding with
    | true => rw [absorb_of_discarding hs hd, absorb_of_discarding hs hd, absorb_of_discarding hs hd]
    | false =>
      rcases Nat.lt_or_ge ProgressSink.maxLine (s.pending.length + 1) with hfull | hroom
      · rw [absorb_of_lt (b :: part) (by simp; omega), absorb_of_lt [b] hfull,
          absorb_of_discarding bounded_discard rfl]
      · rw [absorb_of_le [b] hd hroom]
        rcases Nat.lt_or_ge ProgressSink.maxLine (s.pending.length + (part.length + 1)) with
          hlong | hshort
        · rw [absorb_of_lt (b :: part) (by simpa using hlong), absorb_of_lt _ (by simp; omega)]
        · rw [absorb_of_le (b :: part) hd (by simpa using hshort),
            absorb_of_le (s := { s with pending := s.pending ++ [b] }) _ hd (by simp; omega)]
          simp
  inv_absorb {s} b hs _ := by
    cases hd : s.discarding with
    | true => rwa [absorb_of_discarding hs hd]
    | false =>
      rcases Nat.lt_or_ge ProgressSink.maxLine (s.pending.length + 1) with hfull | hroom
      · rw [absorb_of_lt _ hfull]
        exact bounded_discard
      · rw [absorb_of_le [b] hd hroom]
        exact ⟨by simpa using hroom, by simp [hd]⟩
  inv_newline _ _ := ⟨Nat.zero_le _, fun _ => rfl⟩

theorem run_eq (d : Decoder π) (chunks : List Bytes) :
    run d chunks = (chunks.flatten.foldl (sink d).step new).finish d :=
  congrArg (finish d) (steady.writes_eq ⟨Nat.zero_le _, fun _ => rfl⟩ chunks)

end WarningSink

structure Findings where
  counters : State.Counters
  sawSummary : Bool
  warnings : ℤ
  errorCode : ErrorCode
  deriving DecidableEq

def ProgressSink.findings (p : ProgressSink π) : Findings :=
  ⟨p.counters, p.sawSummary, p.warnings, p.errorCode⟩

theorem findings_of_core {p q : ProgressSink π} (h : p.core d = q.core d) :
    p.findings = q.findings := by
  have hfindings := congrArg ProgressSink.findings h
  exact hfindings

/-- However a stream is cut into writes, and whatever the clocks of the two runs say, both sinks end
with the same findings. -/
theorem output_independent_of_chunks (d : Decoder π) (env env' : Env) (h : env.Stores)
    (h' : env'.Stores) (hasState : Bool) (chunks chunks' : List Bytes)
    (hstream : chunks.flatten = chunks'.flatten) :
    (ProgressSink.run env d hasState chunks).findings =
        (ProgressSink.run env' d hasState chunks').findings ∧
      (WarningSink.run d chunks).count = (WarningSink.run d chunks').count := by
  constructor
  · rw [ProgressSink.run_eq, ProgressSink.run_eq, hstream]
    exact findings_of_core (ProgressSink.core_finish h h' (ProgressSink.core_foldl h h' rfl _))
  · rw [WarningSink.run_eq, WarningSink.run_eq, hstream]

def errorLines : Decoder Unit where
  trimSpace line := line
  messageType line := if line = [101] then some "error".toList else none
  wire _ := some ⟨"error".toList, none, none, none, none, none, none, none, [], none, none, []⟩
  summary _ := none
  zero := ()
  fraction _ := true
  advanced _ _ := false

theorem output_independent_of_chunks_sample :
    (WarningSink.run errorLines [[101], [10, 101]]).count = 2 ∧
      (ProgressSink.run ⟨fun _ => 0, fun _ => true⟩ errorLines true [[101], [10, 101]]).findings =
        (ProgressSink.run ⟨fun _ => 7, fun _ => true⟩ errorLines true [[101, 10], [], [101]]).findings ∧
      (WarningSink.run errorLines [[101], [10, 101]]).count =
        (WarningSink.run errorLines [[101, 10], [], [101]]).count :=
  ⟨by decide +kernel, output_independent_of_chunks errorLines _ _ (fun _ => rfl) (fun _ => rfl) true
    [[101], [10, 101]] [[101, 10], [], [101]] rfl⟩

end RestFleet.Agent.Output
