import Mathlib.Algebra.BigOperators.Group.List.Basic
import Mathlib.Data.List.Nodup
import RestFleet.Model.Agent.Logs
import RestFleet.Shared.Checks

/-! # The budget of a local log

Everything that was ever written to the log of an operation is kept beside the log itself. -/

namespace RestFleet.Agent.Logs

variable {marshal : Entry → Option Bytes} {log log' : Option Log} {l l' : Log} {e : Entry}

/-! ### What was written -/

/-- A stored entry with the code that the caller asked for. -/
structure Written where
  requested : Text
  stored : Stored

namespace Written

def size (w : Written) : ℕ := w.stored.payload.length

def critical (w : Written) : Bool := w.requested ≠ backupProgress

/-- The truncation marker stands for a progress entry. -/
def marker (w : Written) : Bool :=
  w.requested = backupProgress && w.stored.entry.code ≠ backupProgress

def spare (w : Written) : Bool := w.critical || w.marker

end Written

/-- The log of an operation and all that was written to it. -/
structure History where
  log : Option Log
  written : List Written

def Act.writes : Act → Option Log → Option Log → List Written
  | .append _ _ entry, old, new =>
    ((new.getD fresh).entries.drop (old.getD fresh).entries.length).map fun s => ⟨entry.code, s⟩
  | .sent _ _, _, _ | .acknowledged _, _, _ => []

/-- A refused act changes nothing. -/
def History.step (marshal : Entry → Option Bytes) (h : History) (act : Act) : History :=
  match act.apply marshal h.log with
  | .error _ => h
  | .ok log => ⟨log, h.written ++ act.writes h.log log⟩

def run (marshal : Entry → Option Bytes) (acts : List Act) : History :=
  acts.foldl (History.step marshal) ⟨none, []⟩

/-! ### One append -/

inductive Fate (limit : ℕ) (l : Log) (e : Entry) (w : Written) : Prop
  | progress : e.code = backupProgress → w.stored.entry.code = backupProgress →
      l.meta.bytes + w.size ≤ limit - reserve → Fate limit l e w
  | marker : e.code = backupProgress → w.stored.entry.code = logTruncated →
      l.meta.truncated = false → Fate limit l e w
  | critical : e.code ≠ backupProgress → w.stored.entry.code = e.code →
      w.stored.entry.key ∉ l.meta.critical → Fate limit l e w

/-- The log after an entry was written. -/
structure Writes (marshal : Entry → Option Bytes) (limit : ℕ) (l : Log) (e : Entry) (w : Written)
    (l' : Log) : Prop where
  encoded : marshal w.stored.entry = some w.stored.payload
  requested : w.requested = e.code
  sequence : w.stored.entry.sequence = l.meta.next + 1
  place : w.stored.entry.section = e.section
  fate : Fate limit l e w
  fits : l.meta.bytes + w.size ≤ limit
  log_eq : l' =
    { «meta» :=
        { l.meta with
          limit := limit
          next := l.meta.next + 1
          bytes := l.meta.bytes + w.size
          truncated := l.meta.truncated || w.marker
          critical := if w.critical then w.stored.entry.key :: l.meta.critical else l.meta.critical }
      entries := put l.entries w.stored }

theorem store_ok {payload : Bytes} {critical : Bool} (h : store l e payload critical = .ok l') :
    l.meta.bytes + payload.length ≤ l.meta.limit ∧ l' =
      { «meta» :=
          { l.meta with
            next := e.sequence
            bytes := l.meta.bytes + payload.length
            critical := if critical then e.key :: l.meta.critical else l.meta.critical }
        entries := put l.entries ⟨e, payload⟩ } := by
  unfold store at h
  split at h
  case isTrue => cases h
  case isFalse hfits =>
    cases h
    exact ⟨Nat.not_lt.mp hfits, rfl⟩

theorem logTruncated_ne : logTruncated ≠ backupProgress := by decide

theorem appendNew_ok {new : Option Log} (h : appendNew marshal l e = .ok new)
    (hseq : e.sequence = l.meta.next + 1)
    (hkey : e.code ≠ backupProgress → e.key ∉ l.meta.critical) :
    new = none ∨ ∃ w l', new = some l' ∧ Writes marshal l.meta.limit l e w l' := by
  unfold appendNew at h
  dsimp only at h
  split at h
  case h_1 => cases h
  case h_2 payload hpayload =>
    split at h
    case isTrue hfull =>
      rw [Bool.and_eq_true, Bool.not_eq_true', decide_eq_false_iff_not, not_not] at hfull
      split at h
      case isTrue =>
        cases h
        exact .inl rfl
      case isFalse hopen =>
        rw [Bool.not_eq_true] at hopen
        split at h
        case h_1 => cases h
        case h_2 payload hpayload =>
          obtain ⟨l', hstore, rfl⟩ := map_ok.mp h
          obtain ⟨hfits, hlog⟩ := store_ok hstore
          refine .inr ⟨⟨e.code, ⟨{ e with code := logTruncated, level := "WARN".toList }, payload⟩⟩,
            l', rfl, hpayload, rfl, hseq, rfl, .marker hfull.1 rfl hopen, hfits, ?_⟩
          rw [hlog]
          simp [Written.marker, Written.critical, Written.size, hfull.1, logTruncated_ne, hseq]
    case isFalse hfree =>
      obtain ⟨l', hstore, rfl⟩ := map_ok.mp h
      obtain ⟨hfits, hlog⟩ := store_ok hstore
      refine .inr ⟨⟨e.code, ⟨e, payload⟩⟩, l', rfl, hpayload, rfl, hseq, rfl, ?_, hfits, ?_⟩
      · by_cases hcode : e.code = backupProgress
        · refine .progress hcode hcode ?_
          simp only [hcode, ne_eq, not_true_eq_false, decide_false, Bool.not_false, Bool.true_and,
            Bool.or_eq_true, decide_eq_true_eq, not_or, Nat.not_lt] at hfree
          exact hfree.2
        · exact .critical hcode rfl (hkey hcode)
      · rw [hlog]
        simp [Written.marker, Written.critical, Written.size, hseq]

theorem append_ok {available : Bool} {configured : Option ℕ}
    (h : appendOperationLog marshal available configured log e = .ok log') :
    log' = log ∨ ∃ w l', log' = some l' ∧
      Writes marshal (logLimit (log.getD fresh).meta.limit configured) (log.getD fresh) e w l' := by
  unfold appendOperationLog at h
  split at h
  case isTrue => cases h
  case isFalse =>
  dsimp only at h
  split at h
  case isTrue => cases h
  case isFalse =>
  split at h
  case isTrue =>
    cases h
    exact .inl rfl
  case isFalse hnew =>
    obtain ⟨new, hnewLog, rfl⟩ := map_ok.mp h
    rcases appendNew_ok hnewLog rfl (by simpa using hnew) with rfl | ⟨w, l', rfl, hw⟩
    · exact .inl rfl
    · refine .inr ⟨w, l', rfl, hw.encoded, hw.requested, hw.sequence, hw.place, ?_, hw.fits, hw.log_eq⟩
      cases hw.fate with
      | progress hcode hstored hroom => exact .progress hcode hstored hroom
      | marker hcode hstored hopen => exact .marker hcode hstored hopen
      | critical hcode hstored hkey => exact .critical hcode hstored hkey

/-! ### The invariant -/

theorem logLimit_of_ne {limit : ℕ} (h : limit ≠ 0) (configured : Option ℕ) :
    logLimit limit configured = limit := if_pos h

theorem logLimit_bounds (configured : Option ℕ) :
    64 * 2 ^ 10 ≤ logLimit 0 configured ∧ logLimit 0 configured ≤ defaultLogLimitBytes := by
  simp only [logLimit, ne_eq, not_true_eq_false, if_false]
  split
  · decide
  · rename_i hrange
    simp only [Bool.or_eq_true, decide_eq_true_eq, not_or, Nat.not_lt] at hrange
    exact hrange

def total (written : List Written) : ℕ := (written.map Written.size).sum

@[simp] theorem total_nil : total [] = 0 := rfl

@[simp] theorem total_append (a b : List Written) : total (a ++ b) = total a + total b := by
  simp [total]

@[simp] theorem total_singleton (w : Written) : total [w] = w.size := by simp [total]

/-- How a log depends on what was written to it. -/
structure Sound (l : Log) (written : List Written) : Prop where
  sequences : written.map (·.stored.entry.sequence) = List.range' 1 l.meta.next
  entries : l.entries = (written.map (·.stored)).drop l.meta.ack
  ack_le : l.meta.ack ≤ l.meta.next
  bytes : l.meta.bytes = total written
  within : l.meta.bytes ≤ l.meta.limit
  limit : (l.meta.limit = 0 → written = []) ∧ (l.meta.limit ≠ 0 →
    64 * 2 ^ 10 ≤ l.meta.limit ∧ l.meta.limit ≤ defaultLogLimitBytes)
  markers : written.countP Written.marker = if l.meta.truncated then 1 else 0
  critical : l.meta.critical.reverse = (written.filter Written.critical).map (·.stored.entry.key)
  distinct : l.meta.critical.Nodup
  reserved : l.meta.limit ≠ 0 →
    l.meta.bytes + reserve ≤ l.meta.limit + total (written.filter Written.spare)

theorem sound_fresh : Sound fresh [] where
  sequences := rfl
  entries := rfl
  ack_le := le_refl 0
  bytes := rfl
  within := le_refl 0
  limit := ⟨fun _ => rfl, fun h => absurd rfl h⟩
  markers := rfl
  critical := rfl
  distinct := List.nodup_nil
  reserved h := absurd rfl h

variable {written : List Written}

theorem Sound.length (h : Sound l written) : written.length = l.meta.next := by
  have hlength := congrArg List.length h.sequences
  simpa using hlength

theorem Sound.put_eq (h : Sound l written) {s : Stored} (hs : s.entry.sequence = l.meta.next + 1) :
    put l.entries s = l.entries ++ [s] := by
  have hle : ∀ x ∈ l.entries, x.entry.sequence ≤ l.meta.next := by
    intro x hx
    rw [h.entries] at hx
    obtain ⟨w, hw, rfl⟩ := List.mem_map.mp (List.mem_of_mem_drop hx)
    have hmem : w.stored.entry.sequence ∈ List.range' 1 l.meta.next := by
      rw [← h.sequences]
      exact List.mem_map_of_mem hw
    have := List.mem_range'_1.mp hmem
    omega
  have hbelow : l.entries.filter (·.entry.sequence < s.entry.sequence) = l.entries := by
    rw [List.filter_eq_self]
    intro x hx
    have := hle x hx
    simp only [decide_eq_true_eq]
    omega
  have habove : l.entries.filter (s.entry.sequence < ·.entry.sequence) = [] := by
    rw [List.filter_eq_nil_iff]
    intro x hx
    have := hle x hx
    simp only [decide_eq_true_eq]
    omega
  rw [put, hbelow, habove, List.append_nil]

theorem Sound.limit_bounds (h : Sound l written) (configured : Option ℕ) :
    64 * 2 ^ 10 ≤ logLimit l.meta.limit configured ∧
      logLimit l.meta.limit configured ≤ defaultLogLimitBytes := by
  by_cases hzero : l.meta.limit = 0
  · rw [hzero]
    exact logLimit_bounds configured
  · rw [logLimit_of_ne hzero]
    exact h.limit.2 hzero

/-- What progress entries leave free, seen from the limit of an append. -/
theorem Sound.reserved_limit (h : Sound l written) (configured : Option ℕ) :
    l.meta.bytes + reserve ≤
      logLimit l.meta.limit configured + total (written.filter Written.spare) := by
  by_cases hzero : l.meta.limit = 0
  · have hbytes : l.meta.bytes = 0 := by rw [h.bytes, h.limit.1 hzero, total_nil]
    have hbounds := h.limit_bounds configured
    have hreserve : reserve ≤ 64 * 2 ^ 10 := by decide
    omega
  · rw [logLimit_of_ne hzero]
    exact h.reserved hzero

/-- The marker and the critical entries use the reserve; a progress entry ends below it. -/
theorem Writes.reserved {configured : Option ℕ} {w : Written} (h : Sound l written)
    (hw : Writes marshal (logLimit l.meta.limit configured) l e w l') :
    l.meta.bytes + w.size + reserve ≤
      logLimit l.meta.limit configured + total ((written ++ [w]).filter Written.spare) := by
  have hfree := h.reserved_limit configured
  have hbounds := h.limit_bounds configured
  have hreserve : reserve ≤ 64 * 2 ^ 10 := by decide
  have hspare (hspare : w.spare = true) :
      total ((written ++ [w]).filter Written.spare) = total (written.filter Written.spare) + w.size := by
    simp [List.filter_append, hspare]
  cases hw.fate with
  | progress hcode hstored hroom => omega
  | marker hcode hstored _ =>
      rw [hspare (by simp [Written.spare, Written.marker, hw.requested, hcode, hstored, logTruncated_ne])]
      omega
  | critical hcode _ _ =>
      rw [hspare (by simp [Written.spare, Written.critical, hw.requested, hcode])]
      omega

theorem Writes.markers {limit : ℕ} {w : Written} (h : Sound l written) (hw : Writes marshal limit l e w l') :
    (written ++ [w]).countP Written.marker = if l.meta.truncated || w.marker then 1 else 0 := by
  rw [List.countP_append, h.markers]
  cases hw.fate with
  | progress _ hstored _ => simp [Written.marker, hstored]
  | marker _ _ hopen =>
      cases hm : w.marker <;> simp [hopen, hm]
  | critical hcode _ _ => simp [Written.marker, hw.requested, hcode]

theorem Writes.sound {configured : Option ℕ} {w : Written} (h : Sound l written)
    (hw : Writes marshal (logLimit l.meta.limit configured) l e w l') : Sound l' (written ++ [w]) := by
  have hbounds := h.limit_bounds configured
  have hne : logLimit l.meta.limit configured ≠ 0 := by omega
  have hlength := h.length
  have hack := h.ack_le
  have hreserved := Writes.reserved h hw
  have hmarkers := Writes.markers h hw
  rw [hw.log_eq]
  refine ⟨?_, ?_, ?_, ?_, hw.fits, ⟨fun hzero => absurd hzero hne, fun _ => hbounds⟩, hmarkers, ?_, ?_,
    fun _ => hreserved⟩
  · rw [List.map_append, h.sequences, List.range'_1_concat]
    simp [hw.sequence, Nat.add_comm]
  · rw [h.put_eq hw.sequence, h.entries, List.map_append, List.drop_append_of_le_length]
    · rfl
    · rw [List.length_map, hlength]
      exact hack
  · exact Nat.le_succ_of_le hack
  · rw [total_append, total_singleton, h.bytes]
  · cases hc : w.critical with
    | true => simp [List.filter_append, hc, h.critical]
    | false => simp [List.filter_append, hc, h.critical]
  · cases hw.fate with
    | progress hcode _ _ => simpa [Written.critical, hw.requested, hcode] using h.distinct
    | marker hcode _ _ => simpa [Written.critical, hw.requested, hcode] using h.distinct
    | critical hcode _ hkey =>
        simpa [Written.critical, hw.requested, hcode] using ⟨hkey, h.distinct⟩

/-- Of numbered entries those up to a number are the first ones. -/
theorem dropWhile_sequence {entries : List Stored} {n : ℕ} (through : ℕ)
    (h : entries.map (·.entry.sequence) = List.range' (n + 1) entries.length) :
    entries.dropWhile (·.entry.sequence ≤ through) = entries.drop (through - n) := by
  induction entries generalizing n with
  | nil => simp
  | cons x entries ih =>
      rw [List.map_cons, List.length_cons, List.range'_succ, List.cons.injEq] at h
      by_cases hx : x.entry.sequence ≤ through
      · rw [List.dropWhile_cons_of_pos (by simpa using hx), ih h.2,
          show through - n = through - (n + 1) + 1 by omega, List.drop_succ_cons]
      · rw [List.dropWhile_cons_of_neg (by simpa using hx), show through - n = 0 by omega,
          List.drop_zero]

theorem Sound.stored (h : Sound l written) :
    l.entries.map (·.entry.sequence) = List.range' (l.meta.ack + 1) (l.meta.next - l.meta.ack) := by
  have hmap : (written.map (·.stored)).map (·.entry.sequence) = List.range' 1 l.meta.next := by
    rw [List.map_map]
    exact h.sequences
  rw [h.entries, List.map_drop, hmap, List.drop_range']
  congr 1
  omega

theorem Sound.sent (h : Sound l written) (through : ℕ) (now : ℤ) :
    Sound { l with «meta» := { l.meta with sentThrough := through, lastSentAt := now } } written :=
  ⟨h.sequences, h.entries, h.ack_le, h.bytes, h.within, h.limit, h.markers, h.critical, h.distinct,
    h.reserved⟩

theorem Sound.acknowledged (h : Sound l written) {through : ℕ} (hack : l.meta.ack < through)
    (hnext : through ≤ l.meta.next) :
    Sound
      { «meta» := { l.meta with ack := through, lastSentAt := 0 }
        entries := l.entries.dropWhile (·.entry.sequence ≤ through) } written := by
  refine ⟨h.sequences, ?_, hnext, h.bytes, h.within, h.limit, h.markers, h.critical, h.distinct,
    h.reserved⟩
  have hnumbered : l.entries.map (·.entry.sequence) =
      List.range' (l.meta.ack + 1) l.entries.length := by
    rw [h.stored]
    have hlength := congrArg List.length h.stored
    rw [List.length_map, List.length_range'] at hlength
    rw [hlength]
  change l.entries.dropWhile _ = (written.map (·.stored)).drop through
  rw [dropWhile_sequence through hnumbered, h.entries, List.drop_drop]
  congr 1
  omega

/-! ### Runs -/

def History.Sound (h : History) : Prop := Logs.Sound (h.log.getD fresh) h.written

theorem append_writes {h : History} (hs : h.Sound) {available : Bool} {configured : Option ℕ}
    (hok : appendOperationLog marshal available configured h.log e = .ok log') :
    log' = h.log ∧ (Act.append available configured e).writes h.log log' = [] ∨
      ∃ w l', log' = some l' ∧ (Act.append available configured e).writes h.log log' = [w] ∧
        Writes marshal (logLimit (h.log.getD fresh).meta.limit configured) (h.log.getD fresh) e w l' := by
  rcases append_ok hok with rfl | ⟨w, l', rfl, hw⟩
  · exact .inl ⟨rfl, by simp [Act.writes]⟩
  · refine .inr ⟨w, l', rfl, ?_, hw⟩
    have hentries : l'.entries = (h.log.getD fresh).entries ++ [w.stored] := by
      rw [hw.log_eq]
      exact Logs.Sound.put_eq hs hw.sequence
    rw [Act.writes, Option.getD_some, hentries, List.drop_left, List.map_singleton, ← hw.requested]

theorem markLogsSent_sound (hs : Sound (log.getD fresh) written) {through : ℕ} {now : ℤ}
    (hok : markLogsSent log through now = .ok log') : Sound (log'.getD fresh) written := by
  cases log with
  | none => cases hok
  | some l =>
      rw [markLogsSent] at hok
      split at hok
      case isTrue => cases hok
      case isFalse =>
        cases hok
        exact Sound.sent hs through now

theorem acknowledgeLogs_sound (hs : Sound (log.getD fresh) written) {through : ℕ}
    (hok : acknowledgeLogs log through = .ok log') : Sound (log'.getD fresh) written := by
  cases log with
  | none => cases hok
  | some l =>
      rw [acknowledgeLogs] at hok
      split at hok
      case isTrue => cases hok
      case isFalse hrange =>
        simp only [Bool.or_eq_true, decide_eq_true_eq, not_or, Nat.not_lt] at hrange
        split at hok
        case isTrue =>
          cases hok
          exact hs
        case isFalse hold =>
          cases hok
          exact Sound.acknowledged hs (Nat.not_le.mp hold) hrange.2

theorem step_sound {h : History} (hs : h.Sound) (act : Act) : (h.step marshal act).Sound := by
  unfold History.step
  split
  case h_1 => exact hs
  case h_2 log' hok =>
    cases act with
    | append available configured entry =>
        rcases append_writes hs hok with ⟨rfl, hnone⟩ | ⟨w, l', rfl, hone, hw⟩
        · rw [hnone, List.append_nil]
          exact hs
        · rw [hone]
          exact Writes.sound hs hw
    | sent through now =>
        rw [Act.writes, List.append_nil]
        exact markLogsSent_sound hs hok
    | acknowledged through =>
        rw [Act.writes, List.append_nil]
        exact acknowledgeLogs_sound hs hok

end RestFleet.Agent.Logs
