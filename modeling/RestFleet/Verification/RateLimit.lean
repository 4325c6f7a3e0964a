import Mathlib.Algebra.Order.Ring.Int
import RestFleet.Model.RateLimit

/-! # What the rate limiter admits -/

namespace RestFleet

namespace RateLimiter

variable {l : RateLimiter} {now : ℤ} {key : Text} {keys : List Text} {e : RateWindow} {c : Call}

/-! ## The purge -/

theorem lookup_deleteEnded : (l.deleteEnded now).entries.lookup key = some e ↔
    l.entries.lookup key = some e ∧ l.ended now e = false := by
  simp only [← Option.mem_def, AList.mem_lookup_iff]
  simp [deleteEnded]

@[simp] theorem purge_limit : (l.purge now).limit = l.limit := by
  unfold purge
  split <;> rfl

@[simp] theorem purge_window : (l.purge now).window = l.window := by
  unfold purge
  split <;> rfl

@[simp] theorem purge_ended : (l.purge now).ended = l.ended := by
  funext now' e
  simp [ended]

theorem lookup_of_purge (h : (l.purge now).entries.lookup key = some e) :
    l.entries.lookup key = some e := by
  unfold purge at h
  split at h
  · exact (lookup_deleteEnded.mp h).1
  · exact h

theorem lookup_purge (h : l.entries.lookup key = some e) (hrun : l.ended now e = false) :
    (l.purge now).entries.lookup key = some e := by
  unfold purge
  split
  · exact lookup_deleteEnded.mpr ⟨h, hrun⟩
  · exact h

theorem size_purge_le : (l.purge now).size ≤ l.size := by
  unfold purge
  split
  · simpa [size, deleteEnded, AList.keys, List.keys] using List.length_filter_le _ _
  · exact le_rfl

/-! ## Charging -/

@[simp] theorem chargeAll_nil : l.chargeAll now [] = l := rfl

@[simp] theorem chargeAll_cons {k : Text} :
    l.chargeAll now (k :: keys) = (l.charge now k).chargeAll now keys := rfl

@[simp] theorem chargeAll_limit : (l.chargeAll now keys).limit = l.limit := by
  induction keys generalizing l with
  | nil => rfl
  | cons k rest ih => exact ih

@[simp] theorem chargeAll_window : (l.chargeAll now keys).window = l.window := by
  induction keys generalizing l with
  | nil => rfl
  | cons k rest ih => exact ih

theorem lookup_charge_self : (l.charge now key).entries.lookup key = some (l.charged now key) :=
  AList.lookup_insert _

theorem lookup_charge_ne {k : Text} (h : key ≠ k) :
    (l.charge now k).entries.lookup key = l.entries.lookup key :=
  AList.lookup_insert_ne h

/-- A running window keeps its start and counts every charge. -/
theorem lookup_chargeAll_running (h : l.entries.lookup key = some e)
    (hrun : l.ended now e = false) :
    (l.chargeAll now keys).entries.lookup key = some ⟨e.start, e.count + keys.count key⟩ := by
  induction keys generalizing l e with
  | nil => simpa using h
  | cons k rest ih =>
      by_cases hk : key = k
      · subst hk
        have hstep : (l.charge now key).entries.lookup key = some ⟨e.start, e.count + 1⟩ := by
          rw [lookup_charge_self]
          simp [charged, h, hrun]
        rw [chargeAll_cons, ih hstep hrun, List.count_cons_self, Nat.add_assoc, Nat.add_comm 1]
      · rw [chargeAll_cons, ih ((lookup_charge_ne hk).trans h) hrun,
          List.count_cons_of_ne (Ne.symm hk)]

/-- The key has no running window at the time of the call. -/
def Idle (l : RateLimiter) (now : ℤ) (key : Text) : Prop :=
  ∀ e, l.entries.lookup key = some e → l.ended now e = true

theorem Idle.charged (h : l.Idle now key) : l.charged now key = ⟨now, 1⟩ := by
  unfold RateLimiter.charged
  cases he : l.entries.lookup key with
  | none => rfl
  | some e => simp [h e he]

theorem lookup_chargeAll_idle (hwindow : 0 < l.window) (h : l.Idle now key) (hmem : key ∈ keys) :
    ∃ n, 1 ≤ n ∧ (l.chargeAll now keys).entries.lookup key = some ⟨now, n⟩ := by
  induction keys generalizing l with
  | nil => cases hmem
  | cons k rest ih =>
      by_cases hk : key = k
      · subst hk
        have hrun : (l.charge now key).ended now ⟨now, 1⟩ = false := by simpa [ended, charge] using hwindow
        have hopen := lookup_charge_self.trans (congrArg some h.charged)
        exact ⟨_, Nat.le_add_right 1 _, lookup_chargeAll_running hopen hrun⟩
      · refine ih hwindow (fun e he => h e ?_) ((List.mem_cons.mp hmem).resolve_left hk)
        rwa [lookup_charge_ne hk] at he

theorem mem_keys_chargeAll :
    key ∈ (l.chargeAll now keys).entries.keys ↔ key ∈ l.entries.keys ∨ key ∈ keys := by
  induction keys generalizing l with
  | nil => simp
  | cons k rest ih =>
      rw [chargeAll_cons, ih, ← AList.mem_keys, ← AList.mem_keys, charge, AList.mem_insert]
      rw [List.mem_cons, or_assoc, or_left_comm]

theorem size_chargeAll_le : (l.chargeAll now keys).size ≤ l.size + (l.newKeys keys).length := by
  rw [size, size, ← List.length_append]
  refine (List.subperm_of_subset (AList.keys_nodup _) fun key hkey => ?_).length_le
  rcases mem_keys_chargeAll.mp hkey with h | h
  · exact List.mem_append_left _ h
  · by_cases hold : key ∈ l.entries.keys
    · exact List.mem_append_left _ hold
    · exact List.mem_append_right _ (List.mem_dedup.mpr (List.mem_filter.mpr ⟨h, by simpa⟩))

/-! ## One call -/

theorem allow_of_allows (h : l.allows c = true) :
    l.allow c = (l.purge c.now).chargeAll c.now c.keys := if_pos h

theorem allow_of_refuses (h : l.allows c = false) : l.allow c = l.purge c.now := by
  simp [allow, h]

@[simp] theorem allow_limit : (l.allow c).limit = l.limit := by
  unfold allow
  split <;> simp

@[simp] theorem allow_window : (l.allow c).window = l.window := by
  unfold allow
  split <;> simp

/-- A call keeps every window that has not ended and adds its own charges of the key. -/
theorem lookup_allow_running (h : l.entries.lookup key = some e)
    (hrun : l.ended c.now e = false) :
    (l.allow c).entries.lookup key =
      some ⟨e.start, e.count + if l.allows c then c.keys.count key else 0⟩ := by
  have hkept := lookup_purge h hrun
  cases ha : l.allows c with
  | true =>
      rw [allow_of_allows ha]
      exact lookup_chargeAll_running hkept (by rwa [purge_ended])
  | false => rwa [allow_of_refuses ha]

/-- An allowed call has found room in every running window of its keys. -/
theorem count_lt_of_allows (ha : l.allows c = true) (hmem : key ∈ c.keys)
    (h : l.entries.lookup key = some e) (hrun : l.ended c.now e = false) : e.count < l.limit := by
  simp only [allows, Bool.and_eq_true, Bool.not_eq_true', List.any_eq_false] at ha
  have hroom := ha.2 key hmem
  simpa [exhausted, lookup_purge h hrun, hrun] using hroom

theorem size_allow_le (h : l.size ≤ maxRateLimitEntries) :
    (l.allow c).size ≤ maxRateLimitEntries := by
  cases ha : l.allows c with
  | true =>
      rw [allow_of_allows ha]
      simp only [allows, Bool.and_eq_true, decide_eq_true_eq] at ha
      exact size_chargeAll_le.trans ha.1
  | false =>
      rw [allow_of_refuses ha]
      exact size_purge_le.trans h

/-! ## Runs -/

theorem run_limit {calls : List Call} : (l.run calls).limit = l.limit := by
  induction calls generalizing l with
  | nil => rfl
  | cons c rest ih => exact ih.trans allow_limit

theorem run_window {calls : List Call} : (l.run calls).window = l.window := by
  induction calls generalizing l with
  | nil => rfl
  | cons c rest ih => exact ih.trans allow_window

theorem size_run_le {calls : List Call} (h : l.size ≤ maxRateLimitEntries) :
    (l.run calls).size ≤ maxRateLimitEntries := by
  induction calls generalizing l with
  | nil => exact h
  | cons c rest ih => exact ih (size_allow_le h)

theorem charges_eq_zero {stop : ℤ} {calls : List Call} (h : ∀ c ∈ calls, stop ≤ c.now) :
    l.charges key stop calls = 0 := by
  induction calls generalizing l with
  | nil => rfl
  | cons c rest ih =>
      have hlate : ¬ c.now < stop := not_lt.mpr (h c List.mem_cons_self)
      simp [charges, hlate, ih fun c' hc' => h c' (List.mem_cons_of_mem _ hc')]

/-- Until a running window ends, the calls that charge its key fit in what its count leaves. -/
theorem charges_running {calls : List Call} (hclock : calls.Pairwise (·.now ≤ ·.now))
    (h : l.entries.lookup key = some e) :
    l.charges key (e.start + l.window) calls ≤ l.limit - e.count := by
  induction calls generalizing l e with
  | nil => exact Nat.zero_le _
  | cons c rest ih =>
      obtain ⟨hlater, hclock'⟩ := List.pairwise_cons.mp hclock
      by_cases hend : e.start + l.window ≤ c.now
      · -- the clock does not go back, so neither this call nor a later one is in the window
        rw [charges_eq_zero (List.forall_mem_cons.mpr
          ⟨hend, fun c' hc' => hend.trans (hlater c' hc')⟩)]
        exact Nat.zero_le _
      have hrun : l.ended c.now e = false := by
        simp only [ended, decide_eq_false_iff_not]
        omega
      have hrest := ih hclock' (lookup_allow_running h hrun)
      simp only [allow_window, allow_limit] at hrest
      rw [charges]
      split
      · rename_i hc
        have hmem := List.contains_iff_mem.mp hc.2.1
        have hroom := count_lt_of_allows hc.1 hmem h hrun
        have hcount := List.count_pos_iff.mpr hmem
        rw [if_pos hc.1] at hrest
        omega
      · omega

/-- The calls that charge a key in the window that an allowed call opens are at most the limit. -/
theorem charges_opened {rest : List Call} (hlimit : 1 ≤ l.limit)
    (hclock : (c :: rest).Pairwise (·.now ≤ ·.now)) (hmem : key ∈ c.keys)
    (hidle : l.Idle c.now key) (ha : l.allows c = true) :
    l.charges key (c.now + l.window) (c :: rest) ≤ l.limit := by
  obtain ⟨hlater, hclock'⟩ := List.pairwise_cons.mp hclock
  by_cases hwindow : 0 < l.window
  · have hpurged : (l.purge c.now).Idle c.now key := fun e he => by
      rw [purge_ended]
      exact hidle e (lookup_of_purge he)
    obtain ⟨n, hn, hopen⟩ := lookup_chargeAll_idle (by rwa [purge_window]) hpurged hmem
    rw [← allow_of_allows ha] at hopen
    have hrest := charges_running hclock' hopen
    simp only [allow_window, allow_limit] at hrest
    rw [charges]
    split <;> omega
  · rw [charges_eq_zero (List.forall_mem_cons.mpr ⟨by omega, fun c' hc' => ?_⟩)]
    · exact Nat.zero_le _
    · have := hlater c' hc'
      omega

/-- If the clock does not go back: the calls that charge a key within the window that one of them
opens are at most `limit`; a refused call changes no entry; an entry whose window has not ended
survives every call; there are never more than `maxRateLimitEntries` entries. -/
theorem rateLimiter_limits (limit : ℕ) (window : ℤ) (before rest : List Call) (c : Call)
    (hlimit : 1 ≤ limit) (hclock : (before ++ c :: rest).Pairwise (·.now ≤ ·.now)) :
    let l := (newRateLimiter limit window).run before
    (∀ key ∈ c.keys, l.Idle c.now key → l.allows c = true →
      l.charges key (c.now + window) (c :: rest) ≤ limit) ∧
    (l.allows c = false → ∀ key e, (l.allow c).entries.lookup key = some e →
      l.entries.lookup key = some e) ∧
    (∀ key e, l.entries.lookup key = some e → c.now < e.start + window →
      ∃ e', (l.allow c).entries.lookup key = some e' ∧ e'.start = e.start ∧ e.count ≤ e'.count) ∧
    (l.allow c).size ≤ maxRateLimitEntries := by
  intro l
  have hl : l.limit = limit := run_limit
  have hw : l.window = window := run_window
  refine ⟨fun key hmem hidle ha => ?_, fun ha key e he => ?_, fun key e he hlt => ?_, ?_⟩
  · have hcount := charges_opened (hl ▸ hlimit) (List.pairwise_append.mp hclock).2.1 hmem hidle ha
    rwa [hl, hw] at hcount
  · rw [allow_of_refuses ha] at he
    exact lookup_of_purge he
  · have hrun : l.ended c.now e = false := by
      simp only [ended, decide_eq_false_iff_not, hw]
      omega
    exact ⟨_, lookup_allow_running he hrun, rfl, Nat.le_add_right _ _⟩
  · exact size_allow_le (size_run_le (Nat.zero_le _))

/-- Two charges of one key by the first call leave no room for the second, which is refused until
the window ends. -/
theorem rateLimiter_limits_two :
    let calls : List Call := [⟨1, [['b'], ['a']]⟩, ⟨4, [['a']]⟩, ⟨5, [['a']]⟩]
    let l := newRateLimiter 2 5
    l.charges ['a'] 5 (⟨0, [['a'], ['a']]⟩ :: calls) = 1 ∧
      l.charges ['a'] 5 (⟨0, [['a'], ['a']]⟩ :: calls) ≤ 2 :=
  ⟨by decide, (rateLimiter_limits 2 5 [] _ ⟨0, [['a'], ['a']]⟩ (by decide) (by decide)).1 ['a']
    (by decide) (fun _ he => nomatch he) (by decide)⟩

end RateLimiter

end RestFleet
