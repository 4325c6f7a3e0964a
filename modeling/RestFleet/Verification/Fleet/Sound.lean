import RestFleet.Shared.Schedule
import RestFleet.Verification.Fleet.Transactions

/-! # The requests of the fleet refine its history -/

namespace RestFleet.Fleet

abbrev Safe {α : Type} (site : Site) (t : ℕ) (p : FleetM α) : Prop :=
  Tx.Request (arrivals site) journal.discipline t (fun _ => True) p fun _ _ => True

variable {site : Site} {t : ℕ} {α β : Type} {keys : List Key} {P : Database → Prop}

theorem persists_true : Persists fun _ => True := Tx.persists_const

theorem clock_safe : Safe site t clock :=
  Tx.Request.choose (M := schema) persists_true .clock

theorem newV7_safe : Safe site t newV7 :=
  Tx.Body.bind (Tx.Request.choose (M := schema) persists_true .uuid) fun _ =>
    Tx.Request.done persists_true

theorem runTx_safe {body : FleetM α}
    (h : Spec site t (Within t [] id fun _ => True) body fun _ _ => True) :
    Safe site t (runTx body) :=
  Tx.Request.transaction (M := schema) persists_true h

theorem query_safe {g : Database → α} : Safe site t (query g) :=
  Tx.Request.query (M := schema) (R := fun _ _ => True) persists_true (fun _ => persists_true)
    fun _ _ _ => trivial

/-! ## Hosts and tokens -/

theorem createHost_safe : Safe site t createHost := by
  refine Tx.Body.bind newV7_safe fun i => Tx.Body.bind clock_safe fun now => ?_
  exact runTx_safe (createHostTx_spec i now)

theorem updateHost_safe (i : UUID) (expected : ℤ) : Safe site t (updateHost i expected) := by
  unfold updateHost
  split
  · exact Tx.Body.throw
  · exact Tx.Body.bind clock_safe fun now => runTx_safe (updateHostTx_spec i expected now)

theorem setHostEnabled_safe (i : UUID) (expected : ℤ) (enabled : Bool) :
    Safe site t (setHostEnabled i expected enabled) := by
  unfold setHostEnabled
  split
  · exact Tx.Body.throw
  · refine Tx.Body.bind clock_safe fun now => ?_
    exact runTx_safe (setHostStatusTx_spec i expected enabled now)

theorem createEnrollmentToken_safe (hostID : UUID) (expiresIn : ℤ) (actor : UUID) :
    Safe site t (createEnrollmentToken site hostID expiresIn actor) := by
  unfold createEnrollmentToken
  extract_lets ttl
  split
  · exact Tx.Body.throw
  split
  · exact Tx.Body.throw
  refine Tx.Body.bind (Tx.Request.choose (M := schema) persists_true .secret) fun secret => ?_
  refine Tx.Body.bind newV7_safe fun i => Tx.Body.bind clock_safe fun now => ?_
  refine Tx.Body.bind (runTx_safe (createEnrollmentTokenTx_spec i rfl rfl)) fun _ => ?_
  exact Tx.Request.done persists_true

theorem revokeEnrollmentToken_safe (i : UUID) : Safe site t (revokeEnrollmentToken i) :=
  Tx.Body.bind clock_safe fun now => runTx_safe (revokeEnrollmentTokenTx_spec i now)

/-! ## Enrollment -/

theorem newV7_spec (hP : Keeps t keys P) :
    Spec site t (Within t keys id P) newV7 fun _ => Within t keys id P :=
  Tx.Body.choose hP fun _ => Tx.Body.pure (Tx.stable_in hP) fun _ _ h => h

theorem issueAgentCertificate_spec (csr : Text) (agentID : UUID) (now : Stamp)
    (hP : Keeps t keys P) :
    Spec site t (Within t keys id P) (issueAgentCertificate site csr agentID now)
      fun _ => Within t keys id P := by
  unfold issueAgentCertificate
  split
  · exact Tx.Body.pure (Tx.stable_in hP) fun _ _ h => h
  · refine Tx.Body.choose hP fun serial => Tx.Body.bind (newV7_spec hP) fun i => ?_
    exact Tx.Body.pure (Tx.stable_in hP) fun _ _ h => h

theorem enrollmentMaterial_issues (r : EnrollmentRequest) (now : Stamp) :
    Issues site t (enrollmentMaterial site r now) := by
  intro hostID keys P hP
  unfold enrollmentMaterial
  split
  · exact Tx.Body.throw
  split
  · exact Tx.Body.throw
  split
  · exact Tx.Body.throw
  split
  · exact Tx.Body.throw
  refine Tx.Body.bind (newV7_spec hP) fun agentID => ?_
  refine Tx.Body.bind (issueAgentCertificate_spec r.csr agentID now hP) fun issued => ?_
  split
  · exact Tx.Body.throw
  · exact Tx.Body.pure (Tx.stable_in hP) fun _ _ h => ⟨rfl, h⟩

theorem enrollAgent_safe (r : EnrollmentRequest) : Safe site t (enrollAgent site r) := by
  unfold enrollAgent
  split
  · exact Tx.Body.throw
  split
  · exact Tx.Body.throw
  refine Tx.Body.bind clock_safe fun now => ?_
  exact runTx_safe (consumeEnrollmentTokenTx_spec (enrollmentMaterial_issues r now) _ now)

/-! ## Agents and their streams -/

theorem revokeAgent_safe (i : UUID) (reason : Text) : Safe site t (revokeAgent i reason) := by
  unfold revokeAgent
  split
  · exact Tx.Body.throw
  · exact Tx.Body.bind clock_safe fun now => runTx_safe (revokeAgentTx_spec i reason.trimSpace now)

theorem authenticate_safe (i : UUID) (serial : Text) : Safe site t (authenticate i serial) := by
  refine Tx.Body.bind clock_safe fun now => Tx.Body.bind query_safe fun found => ?_
  split
  · exact Tx.Body.throw
  · exact Tx.Request.done persists_true

theorem issueAgentCertificate_safe (csr : Text) (agentID : UUID) (now : Stamp) :
    Safe site t (issueAgentCertificate site csr agentID now) := by
  unfold issueAgentCertificate
  split
  · exact Tx.Request.done persists_true
  · refine Tx.Body.bind (Tx.Request.choose (M := schema) persists_true .serial) fun serial => ?_
    exact Tx.Body.bind newV7_safe fun i => Tx.Request.done persists_true

theorem rotateAgentCertificate_safe (i : UUID) (serial csr : Text) :
    Safe site t (rotateAgentCertificate site i serial csr) := by
  unfold rotateAgentCertificate
  split
  · exact Tx.Body.throw
  split
  · exact Tx.Body.throw
  refine Tx.Body.bind (authenticate_safe i serial) fun now => ?_
  refine Tx.Body.bind (issueAgentCertificate_safe csr i now) fun issued => ?_
  split
  · exact Tx.Body.throw
  · exact runTx_safe (rotateAgentCertificateTx_spec i serial _ now)

theorem rotations_safe (i : UUID) (serial : Text) (requests : List Text) :
    Safe site t (rotations site i serial requests) := by
  induction requests with
  | nil => exact Tx.Request.done persists_true
  | cons csr rest ih => exact Tx.Body.bind (rotateAgentCertificate_safe i serial csr) fun _ => ih

/-! ## The server -/

theorem report_safe {request : FleetM α} (h : Safe site t request) :
    Tx.Safely (M := schema) (arrivals site) journal.discipline t (fun _ => True)
      (report request) := by
  unfold report
  exact Tx.Safely.bind (M := schema) h fun _ => Tx.Safely.done (M := schema)

theorem program_safe (c : Call) :
    Tx.Safely (M := schema) (arrivals site) journal.discipline t (fun _ => True)
      (c.program site) := by
  cases c with
  | createHost => exact report_safe createHost_safe
  | updateHost i expected => exact report_safe (updateHost_safe i expected)
  | setHostEnabled i expected enabled => exact report_safe (setHostEnabled_safe i expected enabled)
  | createEnrollmentToken hostID expiresIn actor =>
      exact report_safe (createEnrollmentToken_safe hostID expiresIn actor)
  | revokeEnrollmentToken i => exact report_safe (revokeEnrollmentToken_safe i)
  | enrollAgent request => exact report_safe (enrollAgent_safe request)
  | revokeAgent i reason => exact report_safe (revokeAgent_safe i reason)
  | connect i serial requests =>
      exact report_safe (Tx.Body.bind (authenticate_safe i serial) fun _ =>
        rotations_safe i serial requests)

/-- What every run of the server leaves is the replay of entries that fit. -/
theorem reaches_of_reachable {c : Config (Tx.State schema) ℕ (Tx.Op schema) (Tx.Reply schema)}
    (hc : (server site).Reachable (Tx.State.initial .empty) c) : journal.Reaches c.state.db := by
  refine Tx.Journal.reaches_of_reachable (J := journal) ?_ rfl hc
  rintro t p ⟨call, rfl⟩
  exact program_safe call

/-! ## Runs that compute -/

/-- A request arrives on a connection, or goes on for a number of statements, with the time, the
identifier and the random text that it gets. -/
inductive Move where
  | call (t : ℕ) (c : Call)
  | go (t n : ℕ) (now : Stamp) (fresh : { i : UUID // i.isV7 = true }) (text : Text)

def Move.turn (site : Site) : Move → Tx.Turn schema
  | .call t c => .spawn t (c.program site)
  | .go t n now fresh text =>
    .run t (fun | .uuid => fresh | .clock => now | .serial => text | .secret => text) n

instance : DecidableRel schema.conflicts := fun _ _ => inferInstanceAs (Decidable False)

def play (site : Site) (moves : List Move) : Option (Tx.Machine schema) :=
  (Tx.Machine.start (M := schema) .empty).schedule (moves.map (Move.turn site))

theorem reachable_of_play {moves : List Move} {m : Tx.Machine schema}
    (h : play site moves = some m) :
    (server site).Reachable (Tx.State.initial .empty) ⟨m.state, m.threads⟩ := by
  refine Tx.schedule_reachable ?_ h
  intro turn hturn
  obtain ⟨move, -, rfl⟩ := List.mem_map.mp hturn
  cases move with
  | call t c => exact ⟨c, rfl⟩
  | go t n now fresh text => trivial

def sampleSite : Site := ⟨true, fun token => token, fun _ => true, fun csr => some csr⟩

def sampleID (n : ℕ) : UUID := BitVec.ofNat 128 (0x70008000000000000000 + n)

def agentDraw : { i : UUID // i.isV7 = true } := ⟨sampleID 3, by decide⟩

def sampleRequest : EnrollmentRequest :=
  ⟨"token".toList, "key".toList, "00000000000070008000000000000009".toList, "1".toList, "1.0".toList,
    "host".toList, "linux".toList, "amd64".toList, []⟩

def sampleOpening : List Move :=
  [.call 0 .createHost,
    .go 0 50 0 ⟨sampleID 1, by decide⟩ [],
    .call 1 (.createEnrollmentToken (sampleID 1) 0 (sampleID 0)),
    .go 1 50 0 ⟨sampleID 2, by decide⟩ "token".toList]

end RestFleet.Fleet
