import RestFleet.Shared.Triple
import RestFleet.Verification.Session.Log

/-! # The outline of a session

The invariant of the session state and what a handler may rely on while others run. -/

namespace RestFleet.Session

open Outline

/-- Every mutation in the log, the pending one apart, was answered 200. -/
def AllSettled (log : List Event) (pending : Option ℕ) : Prop :=
  ∀ id m path body, .sent id m path body ∈ log → m = .post ∨ m = .delete → some id ≠ pending →
    Settled log id

/-- A denial that leaves the attempt retryable. -/
def Lenient (event : GatewayEvent) : Prop :=
  event.authenticated = true ∧ event.reason = .requestLimit

/-- What the flags say about the log. -/
structure RetryInv (s : State) : Prop where
  snapshot : ∀ id path body, .sent id .post path body ∈ s.log → "snapshots/".toList <+: path →
    s.flags.retryUnsafe = true
  settled : s.writer = none → s.flags.retryUnsafe = false → AllSettled s.log none
  denied : ∀ event recorded, .audited event recorded ∈ s.log → event.action = .denied →
    s.flags.retryUnsafe = true ∨ Lenient event

structure Inv (cfg : Config) (sha256 : Bytes → Bytes) (s : State) : Prop where
  log : Checked (EventOk cfg sha256) s.log
  closed : s.closed = true → s.cancelled = true
  inside : ∀ t, s.writer = some t → t ∈ s.handlers
  keys : (s.locks.map Prod.fst).Nodup
  count : s.locks.length ≤ maxLocks
  limit : (postedLocks s.log).length ≤ maxLocks
  posted : s.closed = false → ∀ path ∈ postedLocks s.log, path ∈ s.locks.map Prod.fst
  owned : ∀ path, s.locks.lookup path = some true →
    IsLock path ∧ Confirmed s.log path ∧ ¬ Deleted s.log path
  retry : RetryInv s

/-- What a handler tolerates: inside the lifecycle lock the session is not closed, and inside
the write semaphore nobody else mutates or changes the map. -/
structure Rely (t : ℕ) (s s' : State) : Prop where
  log : ∃ new, s'.log = s.log ++ new ∧ (s.writer = some t → ∀ e ∈ new, ¬ e.Mutates)
  flags : s.flags.retryUnsafe = true → s'.flags.retryUnsafe = true
  handler : t ∈ s.handlers → t ∈ s'.handlers ∧ s'.closed = s.closed
  writer : s'.writer = some t ↔ s.writer = some t
  locks : s.writer = some t → s'.locks = s.locks

theorem Rely.refl (t : ℕ) (s : State) : Rely t s s :=
  ⟨⟨[], by simp⟩, id, fun h => ⟨h, rfl⟩, Iff.rfl, fun _ => rfl⟩

theorem Rely.trans (t : ℕ) (s s' s'' : State) (h : Rely t s s') (h' : Rely t s' s'') :
    Rely t s s'' := by
  obtain ⟨new, hnew, hquiet⟩ := h.log
  obtain ⟨new', hnew', hquiet'⟩ := h'.log
  refine ⟨⟨new ++ new', by simp [hnew, hnew'], ?_⟩, h'.flags ∘ h.flags, ?_,
    h'.writer.trans h.writer, ?_⟩
  · intro hw e he
    rcases List.mem_append.mp he with he | he
    · exact hquiet hw e he
    · exact hquiet' (h.writer.mpr hw) e he
  · intro ht
    obtain ⟨ht', hc⟩ := h.handler ht
    obtain ⟨ht'', hc'⟩ := h'.handler ht'
    exact ⟨ht'', hc'.trans hc⟩
  · intro hw
    rw [h'.locks (h.writer.mpr hw), h.locks hw]

def outline (cfg : Config) (sha256 : Bytes → Bytes) : Outline (system cfg sha256) where
  inv := Inv cfg sha256
  rely := Rely
  refl := Rely.refl
  trans := Rely.trans

variable {cfg : Config} {sha256 : Bytes → Bytes} {t : ℕ} {s : State}

theorem inv_initial : Inv cfg sha256 State.initial := by
  refine ⟨Checked.nil, ?_, ?_, ?_, ?_, ?_, ?_, ?_, ⟨?_, ?_, ?_⟩⟩ <;>
    simp [State.initial, postedLocks, AllSettled]

/-! ## Adding an event -/

theorem AllSettled.append {log new : List Event} {pending : Option ℕ}
    (h : AllSettled log pending) (hnew : ∀ e ∈ new, ¬ e.Mutates) :
    AllSettled (log ++ new) pending := by
  intro id m path body hmem hm hne
  rcases List.mem_append.mp hmem with hlog | hmem
  · exact (h id m path body hlog hm hne).append
  · exact absurd hm (hnew _ hmem)

theorem RetryInv.append {e : Event} (h : RetryInv s) (hm : ¬ e.Mutates)
    (hd : ∀ event recorded, e = .audited event recorded → event.action = .denied →
      s.flags.retryUnsafe = true ∨ Lenient event) :
    RetryInv { s with log := s.log ++ [e] } := by
  have hnew : ∀ e' ∈ [e], ¬ e'.Mutates := by simpa using hm
  refine ⟨?_, fun hw hf => (h.settled hw hf).append hnew, ?_⟩
  · intro id path body hmem hsnap
    rcases List.mem_append.mp hmem with hlog | hmem
    · exact h.snapshot id path body hlog hsnap
    · exact absurd (Or.inl rfl) (hnew _ hmem)
  · intro event recorded hmem hden
    rcases List.mem_append.mp hmem with hlog | hmem
    · exact h.denied event recorded hlog hden
    · exact hd event recorded (List.mem_singleton.mp hmem).symm hden

theorem Inv.append {e : Event} (h : Inv cfg sha256 s) (he : EventOk cfg sha256 s.log e)
    (hm : ¬ e.Mutates)
    (hd : ∀ event recorded, e = .audited event recorded → event.action = .denied →
      s.flags.retryUnsafe = true ∨ Lenient event) :
    Inv cfg sha256 { s with log := s.log ++ [e] } := by
  have hnew : ∀ e' ∈ [e], ¬ e'.Mutates := by simpa using hm
  have hlocks : postedLocks (s.log ++ [e]) = postedLocks s.log := by
    simp [postedLocks_snoc, Event.postedLock_of_not_mutates hm]
  refine ⟨h.log.snoc he, h.closed, h.inside, h.keys, h.count, ?_, ?_, ?_, h.retry.append hm hd⟩
  · simpa only [hlocks] using h.limit
  · simpa only [hlocks] using h.posted
  · intro path hlookup
    obtain ⟨hlock, hc, hdel⟩ := h.owned path hlookup
    exact ⟨hlock, hc.append, fun hd => hdel ((deleted_append_iff hnew).mp hd)⟩

theorem Rely.append {e : Event} (hm : ¬ e.Mutates) (u : ℕ) :
    Rely u s { s with log := s.log ++ [e] } :=
  ⟨⟨[e], rfl, fun _ => by simpa using hm⟩, id, fun h => ⟨h, rfl⟩, Iff.rfl, fun _ => rfl⟩

/-! ## Operations that disturb nobody -/

def Op.observes : Op → Bool
  | .sessionErr | .guardOk | .requestErr | .readFull _ | .lookupLock _ | .lockCount
  | .newRequest | .copyBody => true
  | _ => false

theorem eq_of_observes {op : Op} (h : op.observes = true) {r : Reply op} {s' : State}
    (ha : act t op s r s') : s' = s := by
  cases op with
  | sessionErr | readFull | lookupLock | lockCount => exact ha.2
  | guardOk | requestErr | newRequest | copyBody => exact ha
  | _ => cases h

theorem quietOp_observes {op : Op} (h : op.observes = true) :
    (outline cfg sha256).QuietOp t op := by
  intro s r s' hi ha
  obtain rfl := eq_of_observes h ha
  exact ⟨hi, fun u => Rely.refl u s'⟩

theorem quietOp_receive (id : ℕ) : (outline cfg sha256).QuietOp t (.receive id) := by
  rintro s r _ hi rfl
  exact ⟨hi.append trivial not_false (by simp), Rely.append not_false⟩

theorem quietOp_send {m : Method} (hm : m = .get ∨ m = .head) (path : Text) (body : Bytes)
    (range : Text) : (outline cfg sha256).QuietOp t (.send m path body range) := by
  rintro s r _ hi ⟨-, rfl⟩
  have hquiet : ¬ (Event.sent s.log.length m path body).Mutates := by
    rcases hm with rfl | rfl <;> simp [Event.Mutates]
  have hok : EventOk cfg sha256 s.log (.sent s.log.length m path body) := by
    rcases hm with rfl | rfl <;> simp [EventOk, SendOk]
  exact ⟨hi.append hok hquiet (by simp), Rely.append hquiet⟩

theorem quietOp_audit {event : GatewayEvent} (h : event.action ≠ .denied) :
    (outline cfg sha256).QuietOp t (.audit event) := by
  rintro s r _ hi rfl
  refine ⟨hi.append trivial not_false ?_, Rely.append not_false⟩
  intro event' recorded heq hden
  cases heq
  exact absurd hden h

theorem RetryInv.or {flags : RetryFlags} (h : RetryInv s) :
    RetryInv { s with flags := s.flags.or flags } := by
  refine ⟨?_, ?_, ?_⟩
  · intro id path body hmem hsnap
    simp [RetryFlags.or, h.snapshot id path body hmem hsnap]
  · intro hw hf
    simp only [RetryFlags.or, Bool.or_eq_false_iff] at hf
    exact h.settled hw hf.1
  · intro event recorded hmem hden
    rcases h.denied event recorded hmem hden with hf | hl
    · exact Or.inl (by simp [RetryFlags.or, hf])
    · exact Or.inr hl

theorem quietOp_orFlags (flags : RetryFlags) :
    (outline cfg sha256).QuietOp t (.orFlags flags) := by
  rintro s r _ hi rfl
  refine ⟨⟨hi.log, hi.closed, hi.inside, hi.keys, hi.count, hi.limit, hi.posted, hi.owned,
    hi.retry.or⟩, fun u => ⟨⟨[], by simp⟩, ?_, fun h => ⟨h, rfl⟩, Iff.rfl, fun _ => rfl⟩⟩
  intro hf
  simp [RetryFlags.or, hf]

theorem quietOp_requests {op : Op}
    (h : ∀ s r s', act t op s r s' → ∃ n, s' = { s with requests := n }) :
    (outline cfg sha256).QuietOp t op := by
  intro s r s' hi ha
  obtain ⟨n, rfl⟩ := h s r s' ha
  refine ⟨⟨hi.log, hi.closed, hi.inside, hi.keys, hi.count, hi.limit, hi.posted, hi.owned,
    ⟨hi.retry.snapshot, hi.retry.settled, hi.retry.denied⟩⟩, ?_⟩
  exact fun u => ⟨⟨[], by simp⟩, id, fun h => ⟨h, rfl⟩, Iff.rfl, fun _ => rfl⟩

theorem quietOp_acquireRequest : (outline cfg sha256).QuietOp t .acquireRequest := by
  refine quietOp_requests ?_
  rintro s r s' (⟨-, -, rfl⟩ | ⟨-, -, rfl⟩)
  · exact ⟨_, rfl⟩
  · exact ⟨_, rfl⟩

theorem quietOp_releaseRequest : (outline cfg sha256).QuietOp t .releaseRequest := by
  refine quietOp_requests ?_
  rintro s r s' rfl
  exact ⟨_, rfl⟩

/-! ## The session map -/

theorem lookup_assign (locks : List (Text × Bool)) (path p : Text) (confirmed : Bool) :
    (assign locks path confirmed).lookup p =
      if p = path then some confirmed else locks.lookup p := by
  unfold assign
  by_cases hp : p = path
  · simp [hp]
  · have hne : (p == path) = false := by simpa using hp
    rw [List.lookup_cons, hne, if_neg hp]
    induction locks with
    | nil => rfl
    | cons entry locks ih => grind

theorem mem_keys_of_lookup {locks : List (Text × Bool)} {path : Text} {confirmed : Bool}
    (h : locks.lookup path = some confirmed) : path ∈ locks.map Prod.fst := by
  induction locks with
  | nil => simp at h
  | cons entry locks ih => grind

theorem mem_keys_assign {locks : List (Text × Bool)} {path p : Text} {confirmed : Bool}
    (h : p ∈ locks.map Prod.fst) : p ∈ (assign locks path confirmed).map Prod.fst := by
  simp only [assign, List.map_cons, List.mem_cons, List.mem_map, List.mem_filter] at h ⊢
  obtain ⟨entry, hmem, rfl⟩ := h
  by_cases hp : entry.1 = path
  · exact Or.inl hp
  · exact Or.inr ⟨entry, ⟨hmem, by simpa using hp⟩, rfl⟩

theorem keys_assign_nodup {locks : List (Text × Bool)} {path : Text} {confirmed : Bool}
    (h : (locks.map Prod.fst).Nodup) : ((assign locks path confirmed).map Prod.fst).Nodup := by
  rw [assign, List.map_cons, List.nodup_cons]
  refine ⟨by simp, ?_⟩
  exact h.sublist (List.filter_sublist.map Prod.fst)

theorem length_assign_le {locks : List (Text × Bool)} {path : Text} {confirmed : Bool}
    (h : path ∈ locks.map Prod.fst ∨ locks.length < maxLocks) (hl : locks.length ≤ maxLocks) :
    (assign locks path confirmed).length ≤ maxLocks := by
  rw [assign, List.length_cons]
  have hle := List.length_filter_le (fun entry => decide (entry.1 ≠ path)) locks
  rcases h with h | h
  · obtain ⟨entry, hmem, rfl⟩ := List.mem_map.mp h
    have hlt : (locks.filter fun e => decide (e.1 ≠ entry.1)).length < locks.length :=
      List.length_filter_lt_length_iff_exists.mpr ⟨entry, hmem, by simp⟩
    omega
  · omega

theorem Inv.assign {path : Text} {confirmed : Bool} (h : Inv cfg sha256 s)
    (hcount : path ∈ s.locks.map Prod.fst ∨ s.locks.length < maxLocks)
    (howned : confirmed = true → IsLock path ∧ Confirmed s.log path ∧ ¬ Deleted s.log path) :
    Inv cfg sha256 { s with locks := assign s.locks path confirmed } := by
  refine ⟨h.log, h.closed, h.inside, keys_assign_nodup h.keys, length_assign_le hcount h.count,
    h.limit, fun hc p hp => mem_keys_assign (h.posted hc p hp), ?_,
    ⟨h.retry.snapshot, h.retry.settled, h.retry.denied⟩⟩
  intro p hlookup
  rw [lookup_assign] at hlookup
  by_cases hp : p = path
  · rw [if_pos hp] at hlookup
    cases hlookup
    exact hp ▸ howned rfl
  · rw [if_neg hp] at hlookup
    exact h.owned p hlookup

end RestFleet.Session
