import Mathlib.Data.List.Chain
import RestFleet.Model.Agent.Upload
import RestFleet.Verification.Agent.Logs

/-! # The replication of a log

Chunks and acknowledgements may be lost, repeated and overtaken, and an Agent may stop between sending
a chunk and recording it. -/

namespace RestFleet.Agent.Logs

variable {marshal : Entry → Option Bytes} {l l' : Log} {e : Entry}

/-! ### Valid entries -/

theorem validate_marker (h : e.validate = true) :
    ({ e with code := logTruncated, level := "WARN".toList } : Entry).validate = true := by
  simp only [Entry.validate, Bool.and_eq_true] at h ⊢
  exact ⟨⟨h.1.1, by decide⟩, by decide⟩

theorem store_entries {payload : Bytes} {critical : Bool} (h : store l e payload critical = .ok l')
    {s : Stored} (hs : s ∈ l'.entries) : s ∈ l.entries ∨ s.entry = e := by
  rw [(store_ok h).2] at hs
  simp only [put, List.append_assoc, List.mem_append, List.mem_filter, List.mem_singleton] at hs
  rcases hs with hs | rfl | hs
  · exact .inl hs.1
  · exact .inr rfl
  · exact .inl hs.1

theorem appendNew_valid (hvalid : e.validate = true) (h : appendNew marshal l e = .ok (some l'))
    {s : Stored} (hs : s ∈ l'.entries) : s ∈ l.entries ∨ s.entry.validate = true := by
  simp only [appendNew] at h
  split at h
  case h_1 => cases h
  split at h
  case isTrue =>
    split at h
    case isTrue => cases h
    split at h
    case h_1 => cases h
    obtain ⟨_, hstore, hl⟩ := map_ok.mp h
    cases hl
    exact (store_entries hstore hs).imp_right fun heq => by rw [heq]; exact validate_marker hvalid
  case isFalse =>
    obtain ⟨_, hstore, hl⟩ := map_ok.mp h
    cases hl
    exact (store_entries hstore hs).imp_right fun heq => by rw [heq]; exact hvalid

theorem append_valid {available : Bool} {configured : Option ℕ} {log : Option Log}
    (h : appendOperationLog marshal available configured log e = .ok (some l')) {s : Stored}
    (hs : s ∈ l'.entries) : s ∈ (log.getD fresh).entries ∨ s.entry.validate = true := by
  simp only [appendOperationLog] at h
  split at h
  case isTrue => cases h
  split at h
  case isTrue => cases h
  case isFalse hvalid =>
  split at h
  case isTrue =>
    cases h
    exact .inl hs
  case isFalse =>
    obtain ⟨new, hnew, hor⟩ := map_ok.mp h
    cases new with
    | none =>
        cases hor
        exact .inl hs
    | some l'' =>
        cases hor
        exact appendNew_valid (by simpa using hvalid) hnew hs

/-! ### Numbered entries -/

/-- The entries of an operation, numbered from one, each with its JSON, within the limit. -/
structure Numbered (marshal : Entry → Option Bytes) (stored : List Stored) : Prop where
  sequences : stored.map (·.entry.sequence) = List.range' 1 stored.length
  encoded : ∀ s ∈ stored, s.entry.validate = true ∧ marshal s.entry = some s.payload
  limit : (stored.map (·.payload.length)).sum ≤ defaultLogLimitBytes

variable {stored : List Stored}

theorem Numbered.sequence (h : Numbered marshal stored) {i : ℕ} (hi : i < stored.length) :
    stored[i].entry.sequence = i + 1 := by
  have hget := congrArg (·[i]?) h.sequences
  simpa [hi, Nat.add_comm] using hget

theorem Numbered.segment (h : Numbered marshal stored) {a n : ℕ} (hn : a + n ≤ stored.length) :
    ((stored.drop a).take n).map (·.entry.sequence) = List.range' (a + 1) n := by
  apply List.ext_getElem
  · simp only [List.length_map, List.length_take, List.length_drop, List.length_range']
    omega
  · intro i hi _
    simp only [List.length_map, List.length_take, List.length_drop] at hi
    simp only [List.getElem_map, List.getElem_take, List.getElem_drop, List.getElem_range',
      h.sequence (show a + i < stored.length by omega)]
    omega

/-! ### The chunk of the Agent -/

theorem intercalate_concat (sep x y : Bytes) (ys : List Bytes) :
    sep.intercalate (y :: (ys ++ [x])) = sep.intercalate (y :: ys) ++ (sep ++ x) := by
  induction ys generalizing y with
  | nil => simp [List.intercalate]
  | cons z zs ih =>
      simp only [List.intercalate, List.cons_append, List.intersperse_cons_cons, List.flatten_cons,
        List.append_assoc] at ih ⊢
      rw [ih]

/-- The chunk of the `n` entries after the first `a`, without the end of its array. -/
structure Filled (stored : List Stored) (a n : ℕ) (c : Chunk) : Prop where
  count : n ≤ 200
  written : a + n ≤ stored.length
  first : c.first = a + 1
  last : c.last = if n = 0 then 0 else a + n
  json : c.json = 91 :: [44].intercalate (((stored.drop a).take n).map (·.payload))
  size : n ≠ 0 → c.json.length < maxBackupLogChunkBytes

def Chunk.closed (c : Chunk) : Chunk := { c with json := c.json ++ [93] }

variable {a n : ℕ} {c : Chunk}

theorem Filled.append (h : Filled stored a n c) (more : List Stored) :
    Filled (stored ++ more) a n c := by
  have hwritten := h.written
  refine ⟨h.count, ?_, h.first, h.last, ?_, h.size⟩
  · rw [List.length_append]
    omega
  · rw [h.json, List.drop_append_of_le_length (by omega), List.take_append_of_le_length]
    rw [List.length_drop]
    omega

theorem Filled.snoc (hn : Numbered marshal stored) (h : Filled stored a n c)
    (hlt : a + n < stored.length)
    (hfull : ¬ (maxBackupLogChunkBytes < c.json.length + stored[a + n].payload.length + 2 ||
      c.first + 199 ≤ c.last) = true) :
    Filled stored a (n + 1) ⟨c.first, stored[a + n].entry.sequence,
      (if c.last ≠ 0 then c.json ++ [44] else c.json) ++ stored[a + n].payload⟩ := by
  have htake : (stored.drop a).take (n + 1) = (stored.drop a).take n ++ [stored[a + n]] := by
    rw [List.take_add_one, List.getElem?_drop, List.getElem?_eq_getElem hlt, Option.toList_some]
  simp only [Bool.or_eq_true, decide_eq_true_eq, not_or, h.first, h.last] at hfull
  refine ⟨?_, hlt, h.first, by simp [hn.sequence hlt, Nat.add_assoc], ?_, fun _ => ?_⟩
  · split at hfull <;> omega
  · rw [htake, h.json, h.last, List.map_append, List.map_singleton]
    by_cases hzero : n = 0
    · simp [hzero, List.intercalate]
    · have hne : ((stored.drop a).take n).map (·.payload) ≠ [] := by
        simp [hzero]
        omega
      obtain ⟨y, ys, hys⟩ := List.exists_cons_of_ne_nil hne
      simp [hys, hzero, intercalate_concat]
  · split <;> simp <;> omega

/-- The loop goes on with a beginning of what is left. -/
theorem Filled.fill (hn : Numbered marshal stored) (h : Filled stored a n c) :
    ∃ m, Filled stored a m (c.fill (stored.drop (a + n))) := by
  induction hrest : stored.drop (a + n) generalizing n c with
  | nil => exact ⟨n, h⟩
  | cons s rest ih =>
      have hlt : a + n < stored.length := by
        refine Nat.lt_of_not_le fun hle => ?_
        rw [List.drop_of_length_le hle] at hrest
        cases hrest
      rw [List.drop_eq_getElem_cons hlt, List.cons.injEq] at hrest
      obtain ⟨rfl, hrest⟩ := hrest
      rw [Chunk.fill]
      split
      case isTrue => exact ⟨n, h⟩
      case isFalse hfull => exact ih (h.snoc hn hlt hfull) hrest

/-- A chunk that was sent when no more than `k` entries were acknowledged. -/
def Sent (stored : List Stored) (k : ℕ) (c : Chunk) : Prop :=
  ∃ a n c', a ≤ k ∧ n ≠ 0 ∧ Filled stored a n c' ∧ c = c'.closed

theorem Sent.mono {k k' : ℕ} (h : Sent stored k c) (hk : k ≤ k') : Sent stored k' c :=
  let ⟨a, n, c', ha, hsent⟩ := h
  ⟨a, n, c', ha.trans hk, hsent⟩

theorem Sent.append {k : ℕ} (h : Sent stored k c) (more : List Stored) :
    Sent (stored ++ more) k c :=
  let ⟨a, n, c', ha, hn, hfilled, hc⟩ := h
  ⟨a, n, c', ha, hn, hfilled.append more, hc⟩

theorem Sent.last_le {k : ℕ} (h : Sent stored k c) : c.last ≤ stored.length := by
  obtain ⟨a, n, c', -, hn, hfilled, rfl⟩ := h
  exact (hfilled.last.trans (if_neg hn)).trans_le hfilled.written

theorem pendingLog_sent {now : Backup.Stamp} {force : Bool} {r : OperationRecord}
    (hn : Numbered marshal stored) (hack : l.meta.ack ≤ stored.length)
    (hentries : l.entries = stored.drop l.meta.ack) (h : pendingLog now force r l = some c) :
    Sent stored l.meta.ack c := by
  have hseq : l.entries.map (·.entry.sequence) =
      List.range' (l.meta.ack + 1) l.entries.length := by
    have hsegment := hn.segment (a := l.meta.ack) (n := l.entries.length) (by simp [hentries]; omega)
    rwa [← hentries, List.take_length] at hsegment
  have hall : l.entries.dropWhile (·.entry.sequence < l.meta.ack + 1) = stored.drop l.meta.ack := by
    simp only [Nat.lt_succ_iff, dropWhile_sequence _ hseq, Nat.sub_self, List.drop_zero]
    exact hentries
  have hempty : Filled stored l.meta.ack 0 ⟨l.meta.ack + 1, 0, [91]⟩ :=
    ⟨Nat.zero_le _, hack, rfl, rfl, rfl, fun h => absurd rfl h⟩
  obtain ⟨n, hfilled⟩ := hempty.fill hn
  simp only [pendingLog, hall] at h
  split at h
  case isTrue => cases h
  split at h
  case isTrue => cases h
  split at h
  case isTrue => cases h
  case isFalse hsome =>
    cases h
    refine ⟨_, n, _, le_refl _, fun hzero => hsome ?_, hfilled, rfl⟩
    exact hfilled.last.trans (if_pos hzero)

/-! ### The rows of the server -/

def LogRows.upTo (stored : List Stored) (k : ℕ) : LogRows :=
  ⟨k, ((stored.take k).map (·.payload.length)).sum, (stored.take k).map (·.entry)⟩

theorem upTo_append {k : ℕ} (hk : k ≤ stored.length) (more : List Stored) :
    LogRows.upTo (stored ++ more) k = LogRows.upTo stored k := by
  simp [LogRows.upTo, List.take_append_of_le_length hk]

theorem upTo_succ {k : ℕ} (h : Numbered marshal stored) (hk : k < stored.length) :
    LogRows.upTo stored (k + 1) = ⟨stored[k].entry.sequence,
      (LogRows.upTo stored k).bytes + stored[k].payload.length,
      (LogRows.upTo stored k).entries ++ [stored[k].entry]⟩ := by
  simp only [LogRows.upTo, h.sequence hk, List.take_add_one, List.getElem?_eq_getElem hk,
    Option.toList_some, List.map_append, List.map_singleton, List.sum_append, List.sum_singleton]

theorem upTo_bytes {k : ℕ} (h : Numbered marshal stored) :
    (LogRows.upTo stored k).bytes ≤ defaultLogLimitBytes := by
  have hlimit := h.limit
  rw [← List.take_append_drop k stored, List.map_append, List.sum_append] at hlimit
  exact le_trans (Nat.le_add_right _ _) hlimit

theorem upTo_any {k : ℕ} (h : Numbered marshal stored) :
    (LogRows.upTo stored k).entries.any (·.sequence = k + 1) = false := by
  rw [List.any_eq_false]
  intro e he
  obtain ⟨s, hs, rfl⟩ := List.mem_map.mp he
  obtain ⟨i, hi, rfl⟩ := List.getElem_of_mem hs
  rw [List.length_take] at hi
  rw [List.getElem_take, h.sequence (by omega), decide_eq_true_eq]
  omega

/-- What is there already is passed over, and the rest is added. -/
theorem insertEntries_segment (h : Numbered marshal stored) {a n k : ℕ} (ha : a ≤ k)
    (hk : k ≤ stored.length) (hn : a + n ≤ stored.length) :
    insertEntries marshal (((stored.drop a).take n).map (·.entry)) (LogRows.upTo stored k) =
      .ok (LogRows.upTo stored (max k (a + n))) := by
  induction n generalizing a k with
  | zero => simp [insertEntries, ha]
  | succ n ih =>
      have hlt : a < stored.length := by omega
      rw [List.drop_eq_getElem_cons hlt, List.take_succ_cons, List.map_cons, insertEntries,
        h.sequence hlt, show a + (n + 1) = a + 1 + n by omega]
      split
      case isTrue hold => exact ih hold hk (by omega)
      case isFalse hnew =>
        obtain rfl : a = k := by
          simp only [LogRows.upTo] at hnew
          omega
        have hbytes := upTo_bytes (k := a + 1) h
        rw [upTo_succ h hlt] at hbytes
        rw [(h.encoded _ (List.getElem_mem hlt)).2]
        dsimp only
        have hsucc := upTo_succ h hlt
        rw [h.sequence hlt] at hsucc
        rw [if_neg (Nat.not_lt.mpr hbytes), upTo_any h, if_neg (by simp), ← hsucc,
          ih (le_refl _) hlt (by omega)]
        congr 2
        omega

theorem segment_valid (h : Numbered marshal stored) {a n : ℕ} (hpos : 0 < n) (hcount : n ≤ 200)
    (hn : a + n ≤ stored.length) :
    validEntries (((stored.drop a).take n).map (·.entry)) = true := by
  have hlength : (((stored.drop a).take n).map (·.entry)).length = n := by simp; omega
  have hchain : (((stored.drop a).take n).map (·.entry)).IsChain
      fun x y => y.sequence = x.sequence + 1 := by
    rw [← List.isChain_map (f := Entry.sequence) (R := fun x y => y = x + 1), List.map_map]
    exact (h.segment hn).symm ▸ List.isChain_range' (a + 1) n 1
  simp only [validEntries, Bool.and_eq_true, decide_eq_true_eq, List.all_eq_true]
  refine ⟨⟨⟨List.ne_nil_of_length_pos (by rwa [hlength]), hlength.trans_le hcount⟩, ?_⟩, hchain⟩
  intro e he
  obtain ⟨s, hs, rfl⟩ := List.mem_map.mp he
  exact (h.encoded s (List.mem_of_mem_drop (List.mem_of_mem_take hs))).1

variable {w : Wire} {agentID id : UUID}

/-- A chunk that does not begin after the rows is accepted, however often and late it comes. -/
theorem handleLogChunk_sent (hid : Backup.validOperationID id = true) (hagent : agentID.version = 7)
    (hn : Numbered w.marshal stored) {k : ℕ} (h : Sent stored k c) (hk : k ≤ stored.length)
    (owner : Option UUID) :
    handleLogChunk w true owner agentID id c (LogRows.upTo stored k) =
      if owner ≠ some agentID then .error .planBindingInvalid
      else .ok (LogRows.upTo stored (max k c.last)) := by
  obtain ⟨a, n, c, ha, hpos, hc, rfl⟩ := h
  have hthrough : c.last = a + n := hc.last.trans (if_neg hpos)
  have hsequences : (((stored.drop a).take n).map (·.entry)).map (·.sequence) =
      List.range' (a + 1) n := by
    rw [List.map_map]
    exact hn.segment hc.written
  have hhead : (((stored.drop a).take n).map (·.entry)).head?.map (·.sequence) = some c.first := by
    rw [← List.head?_map, hsequences, List.head?_range', if_neg hpos, hc.first]
  have hlast : (((stored.drop a).take n).map (·.entry)).getLast?.map (·.sequence) =
      some c.last := by
    rw [← List.getLast?_map, hsequences, List.getLast?_range', if_neg hpos, hthrough]
    congr 1
    omega
  have hvalid := segment_valid hn (Nat.pos_of_ne_zero hpos) hc.count hc.written
  have hread := w.unmarshal_array ((stored.drop a).take n) fun s hs =>
    hn.encoded s (List.mem_of_mem_drop (List.mem_of_mem_take hs))
  have hsize : ¬ maxBackupLogChunkBytes < (c.json ++ [93]).length := by
    simpa using Nat.succ_le_of_lt (hc.size hpos)
  rw [array, ← hc.json] at hread
  have hinsert := insertEntries_segment hn ha hk hc.written
  rw [← hthrough] at hinsert
  generalize ((stored.drop a).take n).map (·.entry) = entries at *
  have hbounds := hvalid
  simp only [validEntries, Bool.and_eq_true, decide_eq_true_eq] at hbounds
  have hfirst : ¬ (entries.head?.any ((LogRows.upTo stored k).ack + 1 < ·.sequence)) = true := by
    obtain ⟨e, he, hseq⟩ := Option.map_eq_some_iff.mp hhead
    simpa [he, hseq, hc.first, LogRows.upTo] using ha
  simp only [handleLogChunk, Chunk.closed, hid, hsize, hread, hbounds.1.1.1,
    Nat.not_lt.mpr hbounds.1.1.2, hhead, hlast, recordOperationLogs, hagent, hvalid,
    appendOperationLogs, hfirst, hinsert, Bool.not_true, decide_false, Bool.or_false,
    Bool.false_eq_true, if_false, ne_eq, not_true_eq_false]

/-! ### Runs -/

/-- The two ends of a log and all that was sent between them. -/
structure Link where
  history : History
  rows : LogRows
  chunks : List Chunk
  acks : List ℕ

def Link.writes (l : Link) : List Stored := l.history.written.map (·.stored)

/-- The Agent appends, sends, records what it sent and reads acknowledgements; the server takes chunks.
Any chunk and acknowledgement of the past may arrive. -/
inductive Move where
  | append (available : Bool) (configured : Option ℕ) (entry : Entry)
  | send (now : Backup.Stamp) (force : Bool) (r : OperationRecord)
  | mark (i : ℕ) (now : ℤ)
  | deliver (i : ℕ) (owner : Option UUID)
  | acknowledge (i : ℕ)

def Link.step (w : Wire) (agentID id : UUID) (l : Link) : Move → Link
  | .append available configured entry =>
    { l with history := l.history.step w.marshal (.append available configured entry) }
  | .send now force r =>
    { l with chunks := l.chunks ++ (l.history.log.bind (pendingLog now force r)).toList }
  | .mark i now => match l.chunks[i]? with
    | none => l
    | some c => { l with history := l.history.step w.marshal (.sent c.last now) }
  | .deliver i owner => match l.chunks[i]? with
    | none => l
    | some c => match handleLogChunk w true owner agentID id c l.rows with
      | .error _ => l
      | .ok rows => { l with rows := rows, acks := l.acks ++ [rows.ack] }
  | .acknowledge i => match l.acks[i]? with
    | none => l
    | some n => { l with history := l.history.step w.marshal (.acknowledged n) }

def Link.run (w : Wire) (agentID id : UUID) (moves : List Move) : Link :=
  moves.foldl (Link.step w agentID id) ⟨⟨none, []⟩, ⟨0, 0, []⟩, [], []⟩

structure Link.Inv (w : Wire) (l : Link) : Prop where
  sound : l.history.Sound
  encoded : ∀ s ∈ l.writes, s.entry.validate = true ∧ w.marshal s.entry = some s.payload
  rows : l.rows = LogRows.upTo l.writes l.rows.ack
  written : l.rows.ack ≤ l.writes.length
  ack : (l.history.log.getD fresh).meta.ack ≤ l.rows.ack
  chunks : ∀ c ∈ l.chunks, Sent l.writes l.rows.ack c
  acks : ∀ n ∈ l.acks, n ≤ l.rows.ack

theorem markLogsSent_ack {log log' : Option Log} {through : ℕ} {now : ℤ}
    (h : markLogsSent log through now = .ok log') :
    (log'.getD fresh).meta.ack = (log.getD fresh).meta.ack := by
  cases log with
  | none => cases h
  | some log => grind [markLogsSent]

theorem acknowledgeLogs_ack {log log' : Option Log} {through : ℕ}
    (h : acknowledgeLogs log through = .ok log') :
    (log'.getD fresh).meta.ack ≤ max (log.getD fresh).meta.ack through := by
  cases log with
  | none => cases h
  | some log => grind [acknowledgeLogs]

namespace Link

variable {l : Link} (hid : Backup.validOperationID id = true) (hagent : agentID.version = 7)

theorem Inv.length (h : l.Inv w) : l.writes.length = (l.history.log.getD fresh).meta.next := by
  rw [writes, List.length_map]
  exact Sound.length h.sound

theorem Inv.numbered (h : l.Inv w) : Numbered w.marshal l.writes := by
  refine ⟨?_, h.encoded, ?_⟩
  · rw [h.length, writes, List.map_map]
    exact Sound.sequences h.sound
  · have htotal : (l.writes.map (·.payload.length)).sum = total l.history.written := by
      rw [writes, List.map_map]
      rfl
    have hwithin := Sound.within h.sound
    rw [htotal, ← Sound.bytes h.sound]
    by_cases hzero : (l.history.log.getD fresh).meta.limit = 0
    · omega
    · exact hwithin.trans ((Sound.limit h.sound).2 hzero).2

/-- An act of the Agent that writes nothing and acknowledges no more than the rows. -/
theorem Inv.quiet (h : l.Inv w) {act : Act}
    (hwrites : ∀ log', act.writes l.history.log log' = [])
    (hack : ∀ log', act.apply w.marshal l.history.log = .ok log' →
      (log'.getD fresh).meta.ack ≤ l.rows.ack) :
    ({ l with history := l.history.step w.marshal act } : Link).Inv w := by
  have hsound : (l.history.step w.marshal act).Sound := step_sound h.sound act
  revert hsound
  unfold History.step
  split
  case h_1 => exact fun _ => h
  case h_2 log' hok =>
    rw [hwrites log', List.append_nil]
    exact fun hsound => ⟨hsound, h.encoded, h.rows, h.written, hack log' hok, h.chunks, h.acks⟩

theorem Inv.append (h : l.Inv w) (available : Bool) (configured : Option ℕ) (entry : Entry) :
    (l.step w agentID id (.append available configured entry)).Inv w := by
  have hsound : (l.history.step w.marshal (.append available configured entry)).Sound :=
    step_sound h.sound _
  revert hsound
  simp only [step, History.step]
  split
  case h_1 => exact fun _ => h
  case h_2 log' hok =>
    intro hsound
    rcases append_writes h.sound hok with ⟨rfl, hnone⟩ | ⟨x, l', rfl, hone, hx⟩
    · rw [hnone, List.append_nil]
      exact h
    · rw [hone] at hsound ⊢
      have hentries : l'.entries = put (l.history.log.getD fresh).entries x.stored := by
        rw [hx.log_eq]
      have hvalid : x.stored.entry.validate = true := by
        rcases append_valid hok (s := x.stored) (by simp [hentries, put]) with hold | hnew
        · rw [Sound.entries h.sound] at hold
          exact (h.encoded _ (List.mem_of_mem_drop hold)).1
        · exact hnew
      have hwrites : (⟨⟨some l', l.history.written ++ [x]⟩, l.rows, l.chunks, l.acks⟩ : Link).writes =
          l.writes ++ [x.stored] := by simp [writes]
      refine ⟨hsound, ?_, ?_, ?_, ?_, ?_, h.acks⟩
      · rw [hwrites]
        intro s hs
        rcases List.mem_append.mp hs with hs | hs
        · exact h.encoded s hs
        · rw [List.mem_singleton.mp hs]
          exact ⟨hvalid, hx.encoded⟩
      · rw [hwrites, upTo_append h.written]
        exact h.rows
      · rw [hwrites, List.length_append]
        exact Nat.le_add_right_of_le h.written
      · change l'.meta.ack ≤ l.rows.ack
        rw [hx.log_eq]
        exact h.ack
      · rw [hwrites]
        exact fun c hc => (h.chunks c hc).append [x.stored]

theorem Inv.send (h : l.Inv w) (now : Backup.Stamp) (force : Bool) (r : OperationRecord) :
    (l.step w agentID id (.send now force r)).Inv w := by
  refine ⟨h.sound, h.encoded, h.rows, h.written, h.ack, ?_, h.acks⟩
  intro c hc
  rcases List.mem_append.mp hc with hc | hc
  · exact h.chunks c hc
  · obtain ⟨log, hlog, hpending⟩ := Option.bind_eq_some_iff.mp (Option.mem_toList.mp hc)
    have hget : l.history.log.getD fresh = log := by rw [hlog, Option.getD_some]
    have hack := h.ack
    have hentries := Sound.entries h.sound
    rw [hget] at hack hentries
    exact (pendingLog_sent h.numbered (hack.trans h.written) hentries hpending).mono hack

include hid hagent

theorem Inv.deliver (h : l.Inv w) {c : Chunk} (hc : c ∈ l.chunks) (owner : Option UUID) :
    handleLogChunk w true owner agentID id c l.rows =
      if owner ≠ some agentID then .error .planBindingInvalid
      else .ok (LogRows.upTo l.writes (max l.rows.ack c.last)) := by
  rw [← handleLogChunk_sent hid hagent h.numbered (h.chunks c hc) h.written owner, ← h.rows]

theorem Inv.step (h : l.Inv w) (move : Move) : (l.step w agentID id move).Inv w := by
  cases move with
  | append available configured entry => exact h.append available configured entry
  | send now force r => exact h.send now force r
  | mark i now =>
      rw [Link.step]
      split
      · exact h
      · exact h.quiet (fun _ => rfl) fun _ hok => (markLogsSent_ack hok).trans_le h.ack
  | deliver i owner =>
      rw [Link.step]
      split
      case h_1 => exact h
      case h_2 c hget =>
        have hmem := List.mem_of_getElem? hget
        rw [h.deliver hid hagent hmem]
        by_cases howner : owner = some agentID
        · have hlast := (h.chunks c hmem).last_le
          simp only [howner, ne_eq, not_true_eq_false, if_false]
          refine ⟨h.sound, h.encoded, rfl, Nat.max_le.mpr ⟨h.written, hlast⟩,
            h.ack.trans (Nat.le_max_left _ _), ?_, ?_⟩
          · exact fun c hc => (h.chunks c hc).mono (Nat.le_max_left _ _)
          · intro n hn
            rcases List.mem_append.mp hn with hn | hn
            · exact (h.acks n hn).trans (Nat.le_max_left _ _)
            · exact (List.mem_singleton.mp hn).le
        · simpa only [howner, ne_eq, not_false_eq_true, if_true] using h
  | acknowledge i =>
      rw [Link.step]
      split
      case h_1 => exact h
      case h_2 n hget =>
        have hn := h.acks n (List.mem_of_getElem? hget)
        exact h.quiet (fun _ => rfl) fun _ hok =>
          (acknowledgeLogs_ack hok).trans (Nat.max_le.mpr ⟨h.ack, hn⟩)

theorem run_inv (moves : List Move) : (run w agentID id moves).Inv w := by
  have hfold : ∀ (moves : List Move) (l : Link), l.Inv w →
      (moves.foldl (Link.step w agentID id) l).Inv w := by
    intro moves
    induction moves with
    | nil => exact fun _ h => h
    | cons move moves ih => exact fun l h => ih _ (h.step hid hagent move)
  exact hfold moves _ ⟨sound_fresh, by simp [writes], rfl, le_refl 0, le_refl 0, by simp, by simp⟩

end Link

/-- The rows are the beginning of what was written. What the Agent no longer keeps is among them, and
so is all that was acknowledged. No chunk of the past is refused, and none removes a row. -/
structure Replicated (w : Wire) (agentID id : UUID) (l : Link) : Prop where
  rows : l.rows.entries = (l.writes.take l.rows.ack).map (·.entry)
  kept : ∀ s ∈ l.writes, s ∈ (l.history.log.getD fresh).entries ∨ s.entry ∈ l.rows.entries
  acknowledged : ∀ n ∈ l.acks, n ≤ l.rows.entries.length
  accepted : ∀ c ∈ l.chunks, ∃ rows,
    handleLogChunk w true (some agentID) agentID id c l.rows = .ok rows ∧
      l.rows.entries <+: rows.entries ∧ c.last ≤ rows.entries.length

theorem logs_replicated (w : Wire) {agentID id : UUID} (hid : Backup.validOperationID id = true)
    (hagent : agentID.version = 7) (moves : List Move) :
    Replicated w agentID id (Link.run w agentID id moves) := by
  have h := Link.run_inv (w := w) hid hagent moves
  generalize Link.run w agentID id moves = l at h
  have hrows : l.rows.entries = (l.writes.take l.rows.ack).map (·.entry) :=
    congrArg LogRows.entries h.rows
  have hlength : l.rows.entries.length = l.rows.ack := by
    rw [hrows, List.length_map, List.length_take, Nat.min_eq_left h.written]
  refine ⟨hrows, ?_, fun n hn => (h.acks n hn).trans hlength.ge, ?_⟩
  · intro s hs
    rw [Sound.entries h.sound, hrows]
    rw [← List.take_append_drop (l.history.log.getD fresh).meta.ack l.writes, List.mem_append] at hs
    refine hs.symm.imp_right fun htake => List.mem_map_of_mem ?_
    exact (List.take_subset_take_left _ h.ack) htake
  · intro c hc
    refine ⟨_, by rw [h.deliver hid hagent hc]; exact if_neg (by simp), ?_, ?_⟩
    · rw [hrows]
      exact ((List.take_prefix_take_left (Nat.le_max_left _ _)).map _)
    · simp only [LogRows.upTo, List.length_map, List.length_take]
      exact Nat.le_min.mpr ⟨Nat.le_max_right _ _, (h.chunks c hc).last_le⟩

def sampleEntry : Entry := ⟨1, 1, "backup".toList, "INFO".toList, "BACKUP_STARTED".toList, 0, 0⟩

/-- A codec of one entry, as a single byte. -/
def sampleWire : Wire where
  marshal e := if e = sampleEntry then some [0] else none
  unmarshal json := some (List.replicate (json.count 0) sampleEntry)
  unmarshal_array stored h := by
    have hall : stored = List.replicate stored.length ⟨sampleEntry, [0]⟩ := by
      refine List.eq_replicate_of_mem fun s hs => ?_
      have hmarshal := (h s hs).2
      split at hmarshal
      case isTrue hentry =>
        cases s
        cases hmarshal
        exact congrArg (Stored.mk · [0]) hentry
      case isFalse => cases hmarshal
    have hcount : ∀ n : ℕ, ([44].intercalate (List.replicate n [0]) : Bytes).count 0 = n := by
      intro n
      induction n with
      | zero => rfl
      | succ n ih =>
          cases n with
          | zero => rfl
          | succ n =>
              simp [List.intercalate, List.replicate_succ] at ih ⊢
              omega
    rw [hall]
    simp [array, hcount]

def sampleID : UUID := 0x00000000000070008000000000000000

/-- The entry is sent twice, only the second chunk is recorded, and the first one comes last. -/
def sampleMoves : List Move :=
  let r := { newRecord sampleID sampleID 1 [] 5 .succeeded with uploaded := true }
  [.append true none sampleEntry, .send 10 true r, .send 20 true r, .mark 1 20,
    .deliver 1 (some sampleID), .deliver 0 (some sampleID), .acknowledge 1]

theorem logs_replicated_sample :
    (Link.run sampleWire sampleID sampleID sampleMoves).rows.entries = [sampleEntry] ∧
      (Link.run sampleWire sampleID sampleID sampleMoves).acks = [1, 1] ∧
      Replicated sampleWire sampleID sampleID (Link.run sampleWire sampleID sampleID sampleMoves) :=
  ⟨by decide +kernel, by decide +kernel,
    logs_replicated sampleWire (by decide +kernel) (by decide +kernel) sampleMoves⟩

end RestFleet.Agent.Logs
