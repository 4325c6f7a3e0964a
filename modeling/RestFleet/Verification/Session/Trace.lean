import RestFleet.Shared.Execution
import RestFleet.Verification.Session.Handlers

/-! # What a session forwards -/

namespace RestFleet.Session

open Outline

variable {cfg : Config} {sha256 : Bytes → Bytes} {t : ℕ} {path : Text}

/-! ## Routing -/

theorem objectPath_eq_some {u : URL} (h : objectPath cfg u = some path) :
    path = "config".toList ∨ ∃ kind name, path.cut '/' = some (kind, name) ∧
      (kind = "keys".toList ∨ kind ∈ mutableKinds) ∧ (name = [] ∨ objectName name = true) := by
  unfold objectPath at h
  split at h
  · cases h
  · dsimp only at h
    split at h
    · rename_i hconfig
      cases h
      exact Or.inl hconfig
    · split at h
      · cases h
      · rename_i kind name hcut
        split at h
        · cases h
        · rename_i hkind
          split at h
          · rename_i hname
            cases h
            refine Or.inr ⟨kind, name, hcut, ?_, hname⟩
            simp only [mutableKinds, List.mem_cons, List.not_mem_nil, or_false]
            by_contra hne
            simp only [not_or] at hne
            exact hkind ⟨hne.2.1, hne.2.2.1, hne.2.2.2.1, hne.1, hne.2.2.2.2⟩
          · cases h

/-- What passes the checks before the write semaphore is a writable object. -/
theorem writable_of_objectPath {u : URL} (h : objectPath cfg u = some path)
    (hconfig : path ≠ "config".toList) (hkeys : ¬ path.hasPrefix "keys/".toList = true)
    (hlist : ¬ path.hasSuffix "/".toList = true) : Writable path := by
  rcases objectPath_eq_some h with hc | ⟨kind, name, hcut, hkind, hname⟩
  · exact absurd hc hconfig
  have hpath := Text.cut_eq_some hcut
  rcases hkind with rfl | hkind
  · refine absurd ((Text.hasPrefix_iff _ _).mpr ?_) hkeys
    exact ⟨name, by rw [hpath]; rfl⟩
  rcases hname with rfl | hname
  · refine absurd ((Text.hasSuffix_iff _ _).mpr ?_) hlist
    exact ⟨kind, by rw [hpath]; rfl⟩
  · exact ⟨name, ⟨kind, hkind, hpath, hname⟩, by rw [hcut]; rfl⟩

/-! ## Whole requests -/

/-- A handler under the lifecycle lock that does not hold the write semaphore. -/
def Entered (t : ℕ) (s : State) : Prop := t ∈ s.handlers ∧ s.writer ≠ some t

theorem stable_entered : (outline cfg sha256).Stable t (Entered t) := by
  intro s s' hr h
  exact ⟨(hr.handler h.1).1, fun hw => h.2 (hr.writer.mp hw)⟩

/-- As `Entered`, before the session is closed. -/
def Admitted (t : ℕ) (s : State) : Prop := Entered t s ∧ Inside t s

theorem stable_admitted : (outline cfg sha256).Stable t (Admitted t) :=
  stable_entered.and stable_inside

theorem deny_entered (authenticated : Bool) (reason : EventReason) (status : ℕ) :
    (outline cfg sha256).Triple t (Admitted t) (deny cfg authenticated reason status)
      fun _ => Entered t :=
  (deny_triple stable_admitted _ _ _).conseq (fun _ h => h) fun _ _ _ h => h.1

theorem mutate_triple (hreader : cfg.reader = none) (hpath : Writable path) (r : Request) :
    (outline cfg sha256).Triple t (Writing t) (mutate cfg sha256 r path)
      fun _ => Writing t := by
  unfold mutate
  split
  · exact removeLock_triple hreader
  · exact create_triple hreader hpath r

theorem serveAdmitted_triple {r : Request} (hpath : objectPath cfg r.url = some path) :
    (outline cfg sha256).Triple t (Admitted t) (serveAdmitted cfg sha256 r path)
      fun _ => Entered t := by
  unfold serveAdmitted
  split
  · rename_i hm
    have hm' : r.method = .get ∨ r.method = .head := hm.imp_right fun h => h.1
    exact ((quiet_read hm' path).triple stable_admitted).conseq (fun _ h => h) fun _ _ _ h => h.1
  split
  · exact deny_entered _ _ _
  rename_i hreader
  have hreader : cfg.reader = none := by simpa using hreader
  split
  · exact deny_entered _ _ _
  split
  · exact deny_entered _ _ _
  rename_i hobject
  simp only [not_or] at hobject
  have hwritable := writable_of_objectPath hpath hobject.1 hobject.2.1 hobject.2.2.1
  refine Triple.step stable_admitted (R := fun acquired s =>
    (acquired = true → Writing t s) ∧ (acquired = false → Admitted t s)) ?_ ?_
  · intro s acquired s' hi h ha
    obtain ⟨hg, hheld, hsame⟩ := acquireWrite_allows hi h.2 ha
    exact ⟨hg, hheld, fun hf => (hsame hf) ▸ h⟩
  intro acquired
  cases acquired with
  | false =>
      refine Triple.conseq (Triple.done stable_admitted fun _ _ h => h.1)
        (fun s h => h.2 rfl) fun _ _ _ h => h
  | true =>
      change (outline cfg sha256).Triple t _ (mutate cfg sha256 r path >>= _) _
      refine Triple.bind ((mutate_triple hreader hwritable r).conseq (fun s h => h.1 rfl)
        fun _ _ _ h => h) ?_
      intro outcome
      refine Triple.step stable_writing (R := fun _ => Entered t) ?_ ?_
      · intro s _ s' hi h ha
        exact releaseWrite_allows hi h ha
      · exact fun _ => Triple.done stable_entered fun _ _ h => h

theorem serve_triple (r : Request) :
    (outline cfg sha256).Triple t (Entered t) (serve cfg sha256 r) fun _ => Entered t := by
  unfold serve
  refine Triple.step stable_entered (R := fun cancelled s =>
    Entered t s ∧ (cancelled = false → s.closed = false)) ?_ ?_
  · rintro s cancelled s' hi h ⟨hc, rfl⟩
    refine ⟨⟨hi, fun u _ => Rely.refl u s'⟩, h, fun hf => ?_⟩
    by_contra hne
    rw [hi.closed (by simpa using hne)] at hc
    exact absurd (hc.symm.trans hf) (by simp)
  intro cancelled
  cases cancelled with
  | true =>
      exact (deny_triple stable_entered _ _ _).conseq (fun _ h => h.1) fun _ _ _ h => h
  | false =>
      change (outline cfg sha256).Triple t _ (guardFails cfg >>= _) _
      refine Triple.bind ((quiet_guardFails.triple stable_admitted).conseq
        (fun s h => ⟨h.1, h.1.1, h.2 rfl⟩) fun _ _ _ h => h) ?_
      intro failed
      cases failed with
      | true => exact deny_entered _ _ _
      | false =>
          cases htls : r.tls with
          | none => exact deny_entered _ _ _
          | some tls =>
              simp only [Bool.false_eq_true, if_false]
              split
              · exact deny_entered _ _ _
              split
              · exact deny_entered _ _ _
              cases hpath : objectPath cfg r.url with
              | none => exact deny_entered _ _ _
              | some path =>
                  refine Triple.quiet stable_admitted quietOp_acquireRequest ?_
                  intro acquired
                  cases acquired with
                  | false => exact deny_entered _ _ _
                  | true =>
                      change (outline cfg sha256).Triple t _ (serveAdmitted cfg sha256 r path >>= _) _
                      refine (serveAdmitted_triple hpath).bind fun _ => ?_
                      exact Triple.quiet stable_entered quietOp_releaseRequest fun _ =>
                        Triple.done stable_entered fun _ _ h => h

/-- The lifecycle lock around a handler. -/
theorem locked_safe {α : Type} {p : Prog α} {s : State}
    (h : (outline cfg sha256).Triple t (Entered t) p fun _ => Entered t) :
    (outline cfg sha256).Safe t (fun _ _ => True)
      (do perform .rLock; let _ ← p; perform .rUnlock) s := by
  have hstable : (outline cfg sha256).Stable t fun _ => True := Stable.pure
  have htriple : (outline cfg sha256).Triple t (fun _ => True)
      (do perform .rLock; let _ ← p; perform .rUnlock) fun _ _ => True := by
    refine Triple.step hstable (R := fun _ => Entered t) (fun s r s' hi _ ha =>
      rLock_allows hi ha) fun _ => h.bind fun _ => ?_
    refine Triple.step stable_entered (R := fun _ _ => True) ?_ fun _ => ?_
    · exact fun s r s' hi h ha => ⟨rUnlock_allows hi h.2 ha, trivial⟩
    · exact Triple.done hstable fun _ _ h => h
  exact htriple s trivial

theorem sound : (outline cfg sha256).Sound where
  spawn := by
    rintro t p s _ hi ⟨rfl, hp⟩
    refine ⟨⟨hi, fun u _ => Rely.refl u _⟩, ?_⟩
    rcases hp with ⟨r, rfl⟩ | rfl
    · exact locked_safe (serve_triple r)
    · exact locked_safe ((quiet_request (Or.inr rfl) _ _ _).triple stable_entered)
  kill := fun _ _ _ _ h => h.elim
  env := by
    intro s s' hi he
    cases he with
    | cancel =>
        refine ⟨⟨hi.log, fun _ => rfl, hi.inside, hi.keys, hi.count, hi.limit, hi.posted,
          hi.owned, ⟨hi.retry.snapshot, hi.retry.settled, hi.retry.denied⟩⟩, ?_⟩
        exact fun u => ⟨⟨[], by simp⟩, id, fun h => ⟨h, rfl⟩, Iff.rfl, fun _ => rfl⟩
    | close hc hh =>
        have hwriter : ∀ u, s.writer ≠ some u := by
          intro u hu
          have hmem := hi.inside u hu
          rw [hh] at hmem
          cases hmem
        refine ⟨⟨hi.log, fun _ => hc, hi.inside, List.nodup_nil, Nat.zero_le _, hi.limit,
          by simp, by simp, ⟨hi.retry.snapshot, hi.retry.settled, hi.retry.denied⟩⟩, ?_⟩
        intro u
        refine ⟨⟨[], by simp⟩, id, ?_, Iff.rfl, fun h => absurd h (hwriter u)⟩
        intro h
        rw [hh] at h
        cases h

theorem inv_of_reachable {c : RestFleet.Config State ℕ Op Reply}
    (h : (system cfg sha256).Reachable State.initial c) : Inv cfg sha256 c.state :=
  sound.inv_of_reachable inv_initial h

/-! ## The trace of a session -/

/-- The requests that a session may forward, over its whole history. -/
structure TraceSpec (cfg : Config) (sha256 : Bytes → Bytes) (trace : List Event) : Prop where
  sent_once : ∀ before id m path body after, trace = before ++ .sent id m path body :: after →
    ∀ m' path' body', .sent id m' path' body' ∉ before ++ after
  post_object : ∀ id path body, .sent id .post path body ∈ trace →
    ∃ kind ∈ ["data", "index", "snapshots", "locks"], ∃ name : Text,
      path = kind.toList ++ '/' :: name ∧ name.length = 64 ∧
      name.all Text.isLowerHex = true ∧ name = Text.hexEncode (sha256 body)
  post_probed : ∀ before id path body after, trace = before ++ .sent id .post path body :: after →
    ∃ earlier probe middle response, before = earlier ++ .sent probe .head path [] :: middle ∧
      .answered probe (.ok response) ∈ middle ∧ response.status = 404 ∧
      ∀ e ∈ middle, ¬ e.Mutates
  immutable : ∀ id m path body, .sent id m path body ∈ trace → m = .post ∨ m = .delete →
    path ≠ "config".toList ∧ ¬ "keys/".toList <+: path
  delete_owned : ∀ before id path body after,
    trace = before ++ .sent id .delete path body :: after →
    "locks/".toList <+: path ∧ ∃ earlier post lock middle response,
      before = earlier ++ .sent post .post path lock :: middle ∧
      .answered post (.ok response) ∈ middle ∧ response.status = 200
  delete_once : ∀ before id path body after,
    trace = before ++ .sent id .delete path body :: after → ¬ Deleted before path
  post_once : ∀ before id path body after,
    trace = before ++ .sent id .post path body :: after → "locks/".toList <+: path →
    ¬ Posted before path
  posted_locks : (postedLocks trace).length ≤ 1024
  reader_reads : cfg.reader.isSome = true → ∀ id m path body, .sent id m path body ∈ trace →
    m = .get ∨ m = .head

theorem ObjectPath.not_config {path name : Text} (h : ObjectPath path name) :
    path ≠ "config".toList := by
  obtain ⟨kind, -, rfl, -⟩ := h
  intro heq
  have hmem : '/' ∈ "config".toList := heq ▸ by simp
  simp at hmem

theorem ObjectPath.not_keys {path name : Text} (h : ObjectPath path name) :
    ¬ "keys/".toList <+: path := by
  obtain ⟨kind, hkind, rfl, -⟩ := h
  simp only [mutableKinds, List.mem_cons, List.not_mem_nil, or_false] at hkind
  rcases hkind with rfl | rfl | rfl | rfl <;> simp [List.cons_prefix_cons]

theorem IsLock.not_config {path : Text} (h : IsLock path) : path ≠ "config".toList := by
  rintro rfl
  simp [IsLock, List.cons_prefix_cons] at h

theorem IsLock.not_keys {path : Text} (h : IsLock path) : ¬ "keys/".toList <+: path := by
  obtain ⟨rest, rfl⟩ := h
  simp [List.cons_prefix_cons]

theorem sendOk_reader {m : Method} {body : Bytes} {log : List Event}
    (h : SendOk cfg sha256 log m path body) (hreader : cfg.reader.isSome = true) :
    m = .get ∨ m = .head := by
  have hne : cfg.reader ≠ none := Option.isSome_iff_ne_none.mp hreader
  cases m with
  | get => exact Or.inl rfl
  | head => exact Or.inr rfl
  | post => exact absurd h.1 hne
  | delete => exact absurd h.1 hne
  | other name => exact h

theorem sendOk_immutable {m : Method} {body : Bytes} {log : List Event}
    (h : SendOk cfg sha256 log m path body) (hm : m = .post ∨ m = .delete) :
    path ≠ "config".toList ∧ ¬ "keys/".toList <+: path := by
  rcases hm with rfl | rfl
  · exact ⟨h.2.1.not_config, h.2.1.not_keys⟩
  · exact ⟨h.2.1.not_config, h.2.1.not_keys⟩

/-- Requests are numbered by their position in the log. -/
theorem sent_once_of_checked {log before after : List Event} {id : ℕ} {m : Method}
    {body : Bytes} (h : Checked (EventOk cfg sha256) log)
    (heq : log = before ++ .sent id m path body :: after) (m' : Method) (path' : Text)
    (body' : Bytes) : .sent id m' path' body' ∉ before ++ after := by
  have hid : id = before.length := (h before _ after heq).1
  intro hmem
  rcases List.mem_append.mp hmem with hmem | hmem
  · obtain ⟨front, back, rfl⟩ := List.append_of_mem hmem
    have hid' : id = front.length :=
      (h front (.sent id m' path' body') (back ++ .sent id m path body :: after)
        (by simp [heq])).1
    simp only [List.length_append, List.length_cons] at hid
    omega
  · obtain ⟨front, back, rfl⟩ := List.append_of_mem hmem
    have hid' : id = (before ++ .sent id m path body :: front).length :=
      (h _ (.sent id m' path' body') back (by simp [heq])).1
    simp only [List.length_append, List.length_cons] at hid'
    omega

/-- In every run of a session its forwarded requests meet the specification. -/
theorem trace_spec (cfg : Config) (sha256 : Bytes → Bytes)
    (c : RestFleet.Config State ℕ Op Reply)
    (h : (system cfg sha256).Reachable State.initial c) : TraceSpec cfg sha256 c.state.log := by
  have hi : Inv cfg sha256 c.state := inv_of_reachable h
  have hsend : ∀ id m path body, .sent id m path body ∈ c.state.log →
      ∃ log, SendOk cfg sha256 log m path body := by
    intro id m path body hmem
    obtain ⟨before, after, heq⟩ := List.append_of_mem hmem
    exact ⟨before, (hi.log before _ after heq).2⟩
  constructor
  case sent_once =>
    exact fun before id m path body after heq => sent_once_of_checked hi.log heq
  case post_object =>
    intro id path body hmem
    obtain ⟨log, -, ⟨kind, hkind, hpath, hname⟩, -⟩ := hsend id _ path body hmem
    obtain ⟨hlength, hhex⟩ : (Text.hexEncode (sha256 body)).length = 64 ∧
        (Text.hexEncode (sha256 body)).all Text.isLowerHex = true := by
      simpa [objectName] using hname
    obtain ⟨k, hk, rfl⟩ : ∃ k ∈ ["data", "index", "snapshots", "locks"], k.toList = kind := by
      simpa [mutableKinds, eq_comm] using hkind
    exact ⟨k, hk, _, hpath, hlength, hhex, rfl⟩
  case post_probed =>
    exact fun before id path body after heq => (hi.log before _ after heq).2.2.2.1
  case immutable =>
    intro id m path body hmem hm
    obtain ⟨log, hok⟩ := hsend id m path body hmem
    exact sendOk_immutable hok hm
  case delete_owned =>
    intro before id path body after heq
    obtain ⟨-, -, hlock, hconfirmed, -⟩ := hi.log before _ after heq
    exact ⟨hlock, hconfirmed⟩
  case delete_once =>
    intro before id path body after heq
    obtain ⟨-, -, -, -, hdeleted⟩ := hi.log before _ after heq
    exact hdeleted
  case post_once =>
    intro before id path body after heq hlock
    exact (hi.log before _ after heq).2.2.2.2 hlock
  case posted_locks => exact hi.limit
  case reader_reads =>
    intro hreader id m path body hmem
    obtain ⟨log, hok⟩ := hsend id m path body hmem
    exact sendOk_reader hok hreader

/-! ## A computed session -/

/-- A backend that answers each method with a fixed status, and a client that sends `body`. -/
def oracle (cfg : Config) (sha256 : Bytes → Bytes) (status : Method → ℕ) (body : Bytes) :
    Oracle (system cfg sha256) where
  next := fun t op s => match op with
    | .rLock => if t ∈ s.handlers then none else some ((), { s with handlers := t :: s.handlers })
    | .rUnlock => some ((), { s with handlers := s.handlers.erase t })
    | .sessionErr => some (s.cancelled, s)
    | .guardOk => some (true, s)
    | .acquireRequest =>
      if s.requests < maxRequests then some (true, { s with requests := s.requests + 1 })
      else some (false, s)
    | .releaseRequest => some ((), { s with requests := s.requests - 1 })
    | .acquireWrite =>
      if s.writer = none then some (true, { s with writer := some t }) else some (false, s)
    | .releaseWrite => some ((), { s with writer := none })
    | .requestErr => some (false, s)
    | .readFull n => if body.length = n then some (some body, s) else some (none, s)
    | .lookupLock path => some (s.locks.lookup path, s)
    | .lockCount => some (s.locks.length, s)
    | .setLock path confirmed => some ((), { s with locks := assign s.locks path confirmed })
    | .newRequest => some (true, s)
    | .send m path body _ =>
      some (s.log.length, { s with log := s.log ++ [.sent s.log.length m path body] })
    | .receive id =>
      let m := match s.log[id]? with | some (.sent _ m _ _) => m | _ => .get
      let answer : Answer := .ok ⟨status m, fun _ => [], 0⟩
      some (answer, { s with log := s.log ++ [.answered id answer] })
    | .orFlags flags => some ((), { s with flags := s.flags.or flags })
    | .audit event => some (true, { s with log := s.log ++ [.audited event true] })
    | .copyBody => some (true, s)
  allowed := by
    intro t op s r s' h
    cases op <;> simp only [system, act] <;> grind

def sampleConfig : Config := ⟨GatewayBinding.zero, UUID.nil, none, List.replicate 32 0, false⟩

def sampleHash (_ : Bytes) : Bytes := List.replicate 32 0

def samplePath : Text := "locks/".toList ++ List.replicate 64 '0'

def sampleRequest (m : Method) : Request where
  method := m
  url := ⟨sampleConfig.pathPrefix ++ samplePath, [], [], false, [], false, [], [], []⟩
  tls := some ⟨versionTLS12, none, none⟩
  basicAuth := some (UUID.nil.text, [])
  authorizationValues := 1
  contentLength := 1
  range := []

def sampleOracle : Oracle (system sampleConfig sampleHash) :=
  oracle sampleConfig sampleHash (fun m => if m = .head then 404 else 200) [7]

/-- A request served alone, as the oracle decides. -/
theorem reachable_request {cfg : Config} {sha256 : Bytes → Bytes}
    {o : Oracle (system cfg sha256)} {s s' : State} {t n : ℕ} {r : Request} {p : Prog Unit}
    {threads : ℕ → Option (Prog Unit)}
    (h : (system cfg sha256).Reachable State.initial ⟨s, threads⟩) (ht : threads t = none)
    (ha : o.advance t n (serveHTTP cfg sha256 r) s = some (p, s')) :
    (system cfg sha256).Reachable State.initial ⟨s', Function.update threads t (some p)⟩ :=
  (h.step (.spawn ht ⟨rfl, Or.inl ⟨r, rfl⟩⟩)).trans (o.advance_run ha)

def samplePosted : State := { State.initial with
  locks := [(samplePath, true)]
  log := [.sent 0 .head samplePath [], .answered 0 (.ok ⟨404, fun _ => [], 0⟩),
    .sent 2 .post samplePath [7], .answered 2 (.ok ⟨200, fun _ => [], 0⟩)] }

def sampleDeleted : State := { State.initial with
  locks := [(samplePath, false)]
  log := samplePosted.log ++ [.audited ⟨GatewayBinding.zero, true, .lockCleanup, .ownedLock⟩ true,
    .sent 5 .delete samplePath [], .answered 5 (.ok ⟨200, fun _ => [], 0⟩)] }

/-- A session that creates a lock and removes it again. -/
theorem trace_spec_lock_cycle : ∃ c, (system sampleConfig sampleHash).Reachable State.initial c ∧
    Posted c.state.log samplePath ∧ Deleted c.state.log samplePath ∧
    TraceSpec sampleConfig sampleHash c.state.log := by
  have hpost : sampleOracle.advance 0 40
      (serveHTTP sampleConfig sampleHash (sampleRequest .post)) State.initial =
      some (.done (), samplePosted) := rfl
  have hdelete : sampleOracle.advance 1 40
      (serveHTTP sampleConfig sampleHash (sampleRequest .delete)) samplePosted =
      some (.done (), sampleDeleted) := rfl
  have hreach := reachable_request (reachable_request .refl rfl hpost) rfl hdelete
  exact ⟨_, hreach, ⟨2, [7], by simp [sampleDeleted, samplePosted]⟩,
    ⟨5, [], by simp [sampleDeleted]⟩, trace_spec sampleConfig sampleHash _ hreach⟩

/-! ## The retry code -/

/-- What the Agent may rely on when it tries the backup again. -/
structure Repeatable (trace : List Event) : Prop where
  unposted : ∀ id path body, .sent id .post path body ∈ trace → ¬ "snapshots/".toList <+: path
  settled : ∀ id m path body, .sent id m path body ∈ trace → m = .post ∨ m = .delete →
    Settled trace id
  denied : ∀ event recorded, .audited event recorded ∈ trace → event.action = .denied → Lenient event

/-- In every run of a session, a retry code that is read while no handler is under way says that no
snapshot was posted, every mutation was answered 200 and nothing but the request limit was denied. -/
theorem retry_code_repeatable (cfg : Config) (sha256 : Bytes → Bytes)
    (c : RestFleet.Config State ℕ Op Reply) (h : (system cfg sha256).Reachable State.initial c)
    (hjoined : c.state.handlers = []) {code : RetryCode} (hcode : c.state.flags.code = some code) :
    Repeatable c.state.log := by
  have hi : Inv cfg sha256 c.state := inv_of_reachable h
  have hsafe : c.state.flags.retryUnsafe = false := by
    cases hflag : c.state.flags.retryUnsafe with
    | false => rfl
    | true => simp [RetryFlags.code, hflag] at hcode
  have hwriter : c.state.writer = none := by
    cases hwriter : c.state.writer with
    | none => rfl
    | some t => simpa [hjoined] using hi.inside t hwriter
  constructor
  case unposted =>
    intro id path body hsent hsnapshot
    simpa [hsafe] using hi.retry.snapshot id path body hsent hsnapshot
  case settled =>
    exact fun id m path body hsent hm =>
      hi.retry.settled hwriter hsafe id m path body hsent hm (Option.some_ne_none id)
  case denied =>
    exact fun event recorded haudited hdenied =>
      (hi.retry.denied event recorded haudited hdenied).resolve_left (by simp [hsafe])

/-- The backend limits the rate of a read. -/
theorem retry_code_repeatable_limited : ∃ c, (system sampleConfig sampleHash).Reachable State.initial c ∧
    c.state.flags.code = some .gatewayRateLimited ∧ Repeatable c.state.log := by
  have hread : (oracle sampleConfig sampleHash (fun _ => 429) [7]).advance 0 40
      (serveHTTP sampleConfig sampleHash (sampleRequest .get)) State.initial =
      some (.done (), { State.initial with
        flags := retryRateLimited
        log := [.sent 0 .get samplePath [], .answered 0 (.ok ⟨429, fun _ => [], 0⟩)] }) := rfl
  have hreach := reachable_request .refl rfl hread
  exact ⟨_, hreach, rfl, retry_code_repeatable sampleConfig sampleHash _ hreach rfl rfl⟩

end RestFleet.Session
