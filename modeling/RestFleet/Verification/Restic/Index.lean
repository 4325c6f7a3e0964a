import RestFleet.Model.Restic.Index
import RestFleet.Shared.Checks
import RestFleet.Verification.Strings

/-! # The index of a repository

An index of a well-formed output is complete exactly when the output fits the buffer of the
command. -/

namespace RestFleet.Restic

/-! ### The buffer -/

/-- The buffer keeps the first `maxCommandOutput` bytes and remembers whether there were more. -/
theorem foldl_write (writes : List Bytes) (b : CommandOutput) (h : b.data.length ≤ maxCommandOutput) :
    writes.foldl CommandOutput.write b =
      ⟨(b.data ++ writes.flatten).take maxCommandOutput,
        b.overflow || decide (maxCommandOutput < (b.data ++ writes.flatten).length)⟩ := by
  induction writes generalizing b with
  | nil =>
      have hfits : ¬maxCommandOutput < b.data.length := by omega
      simp [List.take_of_length_le h, hfits]
  | cons p writes ih =>
      rw [List.foldl_cons]
      by_cases hmore : maxCommandOutput - b.data.length < p.length
      · have hwrite : b.write p = ⟨b.data ++ p.take (maxCommandOutput - b.data.length), true⟩ :=
          if_pos hmore
        have hfull : (b.data ++ p.take (maxCommandOutput - b.data.length)).length =
            maxCommandOutput := by
          rw [List.length_append, List.length_take]
          omega
        have hkept : ((b.data ++ p.take (maxCommandOutput - b.data.length)) ++
            writes.flatten).take maxCommandOutput =
            (b.data ++ (p :: writes).flatten).take maxCommandOutput := by
          rw [List.take_left' hfull, List.flatten_cons, List.take_append,
            List.take_of_length_le h, List.take_append_of_le_length (by omega)]
        have hlost : maxCommandOutput < (b.data ++ (p :: writes).flatten).length := by
          rw [List.flatten_cons, List.length_append, List.length_append]
          omega
        rw [hwrite, ih _ (by rw [hfull]), hkept]
        rw [decide_eq_true hlost, Bool.true_or, Bool.or_true]
      · have hwrite : b.write p = { b with data := b.data ++ p } := if_neg hmore
        have hfits : (b.data ++ p).length ≤ maxCommandOutput := by
          rw [List.length_append]
          omega
        rw [hwrite, ih _ hfits]
        simp [List.append_assoc]

theorem run_success {c : Command} (hstarted : c.started = true) (hcanceled : c.canceled = false)
    (hexit : c.exit = .success) :
    run c = if maxCommandOutput < c.writes.flatten.length then .error .invalidOutput
      else .ok c.writes.flatten := by
  have hfold := foldl_write c.writes ⟨[], false⟩ (Nat.zero_le _)
  rw [List.nil_append, Bool.false_or] at hfold
  have hrun : run c = if decide (maxCommandOutput < c.writes.flatten.length) = true then
      .error .invalidOutput else .ok (c.writes.flatten.take maxCommandOutput) := by
    simp only [run, hstarted, hcanceled, hexit, hfold]
    rfl
  rw [hrun]
  by_cases h : maxCommandOutput < c.writes.flatten.length
  · rw [if_pos h, if_pos (decide_eq_true h)]
  · rw [if_neg h, if_neg (by simpa using h), List.take_of_length_le (not_lt.mp h)]

/-! ### The output -/

/-- The entries of a well-formed output: a list of at most `maxIndexSnapshots` items that all pass
the checks. -/
def Lists (time : Text → Option ℤ) (raw : Bytes) (entries : List IndexedSnapshot) : Prop :=
  ∃ items, Json.parse (Utf8.decode raw) = some (.arr items) ∧ items.length ≤ maxIndexSnapshots ∧
    items.mapM (fun j => (WireSnapshot.decode j).bind (WireSnapshot.entry time)) = some entries

theorem isSpace_of_json {c : Char} (h : Json.isSpace c = true) : Text.isSpace c = true := by
  simp only [Json.isSpace, Bool.or_eq_true, decide_eq_true_eq] at h
  rcases h with ((rfl | rfl) | rfl) | rfl <;> decide

/-- `TrimSpace` takes no more from the front of an array than a JSON reader does. -/
theorem head_trimSpace {s rest : Text} (h : Json.skip s = '[' :: rest) :
    s.trimSpace.head? = some '[' := by
  have hfront : s.dropWhile Text.isSpace = '[' :: rest := by
    induction s with
    | nil => cases h
    | cons c s ih =>
        by_cases hc : Json.isSpace c = true
        · rw [List.dropWhile_cons_of_pos (isSpace_of_json hc)]
          exact ih (by simpa [Json.skip, hc] using h)
        · simp only [Json.skip, List.dropWhile_cons_of_neg hc, List.cons.injEq] at h
          rw [h.1, h.2, List.dropWhile_cons_of_neg (by decide)]
  rw [Text.trimSpace, hfront, List.reverse_cons, Text.dropWhile_concat (by decide), List.reverse_append]
  rfl

theorem mapM_bind {α β γ : Type} {f : α → Option β} {g : β → Option γ} {xs : List α} {zs : List γ}
    (h : xs.mapM (fun x => (f x).bind g) = some zs) :
    ∃ ys, xs.mapM f = some ys ∧ ys.mapM g = some zs ∧ ys.length = xs.length := by
  induction xs generalizing zs with
  | nil =>
      cases h
      exact ⟨[], rfl, rfl, rfl⟩
  | cons x xs ih =>
      rw [List.mapM_cons] at h
      obtain ⟨z, hz, h⟩ := Option.bind_eq_some_iff.mp h
      obtain ⟨zs, hzs, h⟩ := Option.bind_eq_some_iff.mp h
      cases h
      obtain ⟨y, hy, hg⟩ := Option.bind_eq_some_iff.mp hz
      obtain ⟨ys, hys, hgs, hlength⟩ := ih hzs
      exact ⟨y :: ys, by simp [hy, hys], by simp [hg, hgs], by simp [hlength]⟩

theorem parseSnapshotIndex_ok {time : Text → Option ℤ} {raw : Bytes}
    {entries : List IndexedSnapshot} (h : Lists time raw entries) :
    parseSnapshotIndex time raw = .ok entries := by
  obtain ⟨items, hparse, hbound, hitems⟩ := h
  obtain ⟨wire, hdecode, hentries, hlength⟩ := mapM_bind hitems
  obtain ⟨rest, hskip⟩ := Json.skip_of_parse_arr hparse
  have hopen : (Text.trimSpace (Utf8.decode raw)).head? = some '[' := head_trimSpace hskip
  unfold parseSnapshotIndex
  dsimp only
  rw [if_neg (not_not_intro hopen), hparse]
  dsimp only
  rw [hdecode]
  dsimp only
  rw [if_neg (by omega), hentries]

structure Command.Succeeds (c : Command) : Prop where
  started : c.started = true
  canceled : c.canceled = false
  exit : c.exit = .success

theorem snapshotIndex_eq {time : Text → Option ℤ} {r : SnapshotIndexRequest} {c : Command}
    {entries : List IndexedSnapshot} (hr : r.valid = true) (hc : c.Succeeds)
    (h : Lists time c.writes.flatten entries) :
    snapshotIndex time r c = if maxCommandOutput < c.writes.flatten.length then
      .error .invalidOutput else .ok entries := by
  have hrun := run_success hc.started hc.canceled hc.exit
  have hindex : snapshotIndex time r c = (run c).bind (parseSnapshotIndex time) := by
    simp only [snapshotIndex, hr]
    rfl
  rw [hindex, hrun]
  split
  · rfl
  · exact parseSnapshotIndex_ok h

/-- The index of a well-formed output holds every entry once, in order, exactly when the output
fits the buffer of the command, however many entries it may have. -/
theorem snapshotIndex_complete_iff {time : Text → Option ℤ} {r : SnapshotIndexRequest} {c : Command}
    {entries : List IndexedSnapshot} (hr : r.valid = true) (hc : c.Succeeds)
    (h : Lists time c.writes.flatten entries) :
    snapshotIndex time r c = .ok entries ↔ c.writes.flatten.length ≤ maxCommandOutput := by
  rw [snapshotIndex_eq hr hc h]
  split
  · rename_i hmore
    exact ⟨fun hok => (nomatch hok), fun hle => absurd hmore (by omega)⟩
  · rename_i hfits
    exact ⟨fun _ => by omega, fun _ => rfl⟩

/-! ### An output that does not fit -/

def sampleItem : Json := .obj [("id".toList, .str (List.replicate 64 'a')),
  ("tree".toList, .str (List.replicate 64 'b')), ("time".toList, .str "0".toList)]

def sampleEntry : IndexedSnapshot :=
  ⟨List.replicate 64 'a', List.replicate 64 'b', 0, [], [], [], 0, 0⟩

def sampleOutput (n : ℕ) : Bytes := Utf8.encode (Json.render (.arr (List.replicate n sampleItem)))

def sampleCommand (n : ℕ) : Command := ⟨true, [sampleOutput n], false, .success⟩

def sampleRequest : SnapshotIndexRequest :=
  ⟨0x70008000000000000001, 0x70008000000000000002, List.replicate 32 1⟩

theorem validItems_replicate {j : Json} (h : Json.Valid j) (n : ℕ) :
    Json.ValidItems (List.replicate n j) := by
  induction n with
  | zero => trivial
  | succ n ih => exact ⟨h, ih⟩

theorem mapM_replicate {α β : Type} {f : α → Option β} {a : α} {b : β} (h : f a = some b) (n : ℕ) :
    (List.replicate n a).mapM f = some (List.replicate n b) := by
  induction n with
  | zero => rfl
  | succ n ih => simp [List.replicate_succ, h, ih]

theorem lists_sampleOutput {n : ℕ} (hn : n ≤ maxIndexSnapshots) :
    Lists (fun _ => some 0) (sampleOutput n) (List.replicate n sampleEntry) := by
  refine ⟨List.replicate n sampleItem, ?_, by simpa using hn, mapM_replicate (by decide) n⟩
  rw [sampleOutput, Utf8.decode_encode]
  have hitem : Json.Valid sampleItem := ⟨trivial, trivial, trivial, trivial⟩
  exact Json.parse_render (validItems_replicate hitem n)

theorem length_sampleOutput (n : ℕ) : n * 157 ≤ (sampleOutput n).length := by
  have hitem : 157 ≤ (Json.render sampleItem).length := by decide +kernel
  have htext := Utf8.length_le_length_encode (Json.render (.arr (List.replicate n sampleItem)))
  rw [Json.length_render_arr, List.map_replicate, List.sum_replicate_nat] at htext
  have hmul : n * 157 ≤ n * (Json.render sampleItem).length := Nat.mul_le_mul_left n hitem
  rw [sampleOutput]
  omega

theorem sampleCommand_succeeds (n : ℕ) : (sampleCommand n).Succeeds := ⟨rfl, rfl, rfl⟩

theorem flatten_sampleCommand (n : ℕ) : (sampleCommand n).writes.flatten = sampleOutput n :=
  List.flatten_singleton

/-- Five hundred snapshots, a hundredth of what the index may hold, do not fit the buffer. -/
theorem snapshotIndex_lost_to_buffer :
    sampleRequest.valid = true ∧ (sampleCommand 500).Succeeds ∧ 500 ≤ maxIndexSnapshots ∧
      Lists (fun _ => some 0) (sampleCommand 500).writes.flatten (List.replicate 500 sampleEntry) ∧
      snapshotIndex (fun _ => some 0) sampleRequest (sampleCommand 500) = .error .invalidOutput := by
  have hlists := lists_sampleOutput (n := 500) (by decide)
  rw [← flatten_sampleCommand] at hlists
  have hrequest : sampleRequest.valid = true := by decide
  refine ⟨hrequest, sampleCommand_succeeds 500, by decide, hlists, ?_⟩
  have hlength := length_sampleOutput 500
  rw [snapshotIndex_eq hrequest (sampleCommand_succeeds 500) hlists, if_pos]
  rw [flatten_sampleCommand]
  exact lt_of_lt_of_le (by decide) hlength

/-- An output with one snapshot fits. -/
theorem snapshotIndex_complete_one :
    snapshotIndex (fun _ => some 0) sampleRequest (sampleCommand 1) = .ok [sampleEntry] := by
  have hlists := lists_sampleOutput (n := 1) (by decide)
  rw [← flatten_sampleCommand] at hlists
  refine (snapshotIndex_complete_iff (by decide) (sampleCommand_succeeds 1) hlists).mpr ?_
  rw [flatten_sampleCommand]
  decide +kernel

end RestFleet.Restic
