import RestFleet.Verification.Fleet.Invariant

/-! # The transactions append entries that fit -/

namespace RestFleet.Fleet

/-- A transaction that holds `keys`, has the writes `f` pending and knows `P`. -/
abbrev Within (t : ℕ) (keys : List Key) (f : Database → Database) (P : Database → Prop)
    (s : Tx.State schema) : Prop :=
  Tx.In (M := schema) t keys f P s

abbrev Spec {α : Type} (site : Site) (t : ℕ) (A : Tx.State schema → Prop) (p : FleetM α)
    (Q : α → Tx.State schema → Prop) : Prop :=
  Tx.Body (arrivals site) journal.discipline t A p Q

variable {site : Site} {t : ℕ} {keys : List Key} {f : Database → Database}
  {P : Database → Prop} {α β : Type} {Q : α → Tx.State schema → Prop}

theorem keeps_true : Keeps t keys fun _ => True := Tx.lasts_const

theorem commit_spec {k : Unit → FleetM α} (e : Entry) (hP : Keeps t keys P)
    (hf : ∀ db, f db = e.commit db) (hg : ∀ db, journal.Reaches db → P db → e.Fits db)
    (hkeys : ∀ k, e.touches k → k ∈ keys)
    (hk : Spec site t (Within t [] id fun _ => True) (k ()) Q) :
    Spec site t (Within t keys f P) (Tx.commit >>= k) Q := by
  refine Tx.Body.commit (fun _ => True) hP ?_ hk
  intro db hr h
  have heq : f db = e.commit db := hf db
  rw [heq]
  exact ⟨Tx.Journal.commits (J := journal) hr (hg db hr h) hkeys nofun, trivial⟩

theorem finish_spec {a : α} :
    Spec site t (Within t [] id fun _ => True) (pure a : FleetM α) fun _ _ => True :=
  Tx.Body.pure (Tx.stable_in keeps_true) fun _ _ _ => trivial

theorem glance_spec {k : Database → FleetM α} (hP : Keeps t keys P)
    (hk : ∀ v, Spec site t (Within t keys f P) (k v) Q) :
    Spec site t (Within t keys f P) (Tx.view >>= k) Q :=
  Tx.Body.see (S := fun _ => True) hP (fun _ _ _ => trivial) fun v _ => hk v

/-! ## Updates of one row -/

/-- What lasts of a row in a snapshot: what it was then, and that it stays. -/
def Snapshot (row : Database → Option β) (G : Database → Prop) (v db : Database) : Prop :=
  (v.trail.length ≤ db.trail.length ∧ row (db.past v.trail.length) = row v ∧
      G (db.past v.trail.length)) ∧
    ((row v).isSome → (row db).isSome)

theorem persists_snapshot {row : Database → Option β} {G : Database → Prop} {v : Database}
    (hrow : Persists fun db => (row db).isSome) : Persists (Snapshot row G v) := by
  intro db db' he h
  refine ⟨persists_past (F := fun w => row w = row v ∧ G w) db db' he h.1, fun hv => ?_⟩
  exact hrow db db' he (h.2 hv)

/-- The pending writes are not to the rows that are read. -/
structure Apart (f : Database → Database) (row : Database → Option β) : Prop where
  row : ∀ db, row (f db) = row db
  trail : ∀ db, (f db).trail = db.trail

theorem snapshot_of_view {row : Database → Option β} {G : Database → Prop} {db : Database}
    (hf : Apart f row) (hr : journal.Reaches db) (hG : G db) : Snapshot row G (f db) db := by
  rw [Snapshot, hf.row, hf.trail, past_length hr]
  exact ⟨⟨Nat.le_refl _, rfl, hG⟩, fun h => h⟩

def Matched (t : ℕ) (keys : List Key) (f : Database → Database) (P G : Database → Prop) (k : Key)
    (row : Database → Option β) (cond : β → Bool) : Option β × ℕ → Tx.State schema → Prop
  | (some a, _), s => cond a = true ∧ Within t (k :: keys) f (fun db => row db = some a ∧ P db) s
  | (none, n), s => Within t keys f (fun db =>
      (n ≤ db.trail.length ∧ (row (db.past n)).any cond = false ∧ G (db.past n)) ∧ P db) s

theorem lockMatching_spec {row : Database → Option β} {cond : β → Bool} {k : Key}
    {G : Database → Prop} {v : Database} (hP : Keeps t keys P) (hf : Apart f row)
    (hpresent : ∀ db, present k db = (row db).isSome)
    (hpersists : Persists fun db => (row db).isSome)
    (hkeep : ∀ a, Keeps t (k :: keys) fun db => row db = a)
    (hG : ∀ db, journal.Reaches db → P db → G db) :
    Spec site t (Within t keys f fun db => Snapshot row G v db ∧ P db)
      (lockMatching k row cond v) (Matched t keys f P G k row cond) := by
  have hsnap : Keeps t keys fun db => Snapshot row G v db ∧ P db :=
    (persists_snapshot hpersists).lasts.and hP
  unfold lockMatching
  split
  · rename_i hmatch
    have hsome : (row v).isSome := by
      cases hv : row v with
      | none => simp [hv] at hmatch
      | some a => rfl
    refine Tx.Body.find (T := fun _ => True) (F := fun _ => False) hsnap
      (fun _ _ _ _ => trivial) ?_ ?_ ?_
    · intro db _ h hp
      change present k (f db) = false at hp
      rw [hpresent, hf.row, h.1.2 hsome] at hp
      cases hp
    · -- The row that is there once the lock is held.
      refine Tx.Body.view (R := fun w db => row db = row w ∧
        (w.trail.length ≤ db.trail.length ∧ row (db.past w.trail.length) = row w ∧
          G (db.past w.trail.length)) ∧ P db) (keeps_true.and hsnap).cons ?_ fun w => ?_
      · intro db hr h
        exact ⟨(hf.row db).symm, (snapshot_of_view hf hr (hG db hr h.2.2)).1, h.2.2⟩
      · refine Tx.Body.pure (Tx.stable_in ((hkeep _).and
          ((persists_past (F := fun u => row u = row w ∧ G u)).lasts.and hP.cons))) ?_
        intro s _ hs
        cases hfilter : (row w).filter cond with
        | none =>
            refine hs.drop.mono (fun _ hk => hk) fun h => ⟨⟨h.2.1.1, ?_, h.2.1.2.2⟩, h.2.2⟩
            rw [h.2.1.2.1]
            cases hw : row w with
            | none => rfl
            | some a => simpa [hw] using hfilter
        | some a =>
            obtain ⟨hrow, hcond⟩ := Option.filter_eq_some_iff.mp hfilter
            exact ⟨hcond, hs.mono (fun _ hk => hk) fun h => ⟨h.1.trans hrow, h.2.2⟩⟩
    · intro s hs
      exact hs.fact.1.elim
  · rename_i hmatch
    refine Tx.Body.pure (Tx.stable_in hsnap) fun s _ hs => ?_
    refine hs.mono (fun _ hk => hk) fun h => ⟨⟨h.1.1.1, ?_, h.1.1.2.2⟩, h.2⟩
    rw [h.1.1.2.1]
    exact Bool.eq_false_iff.mpr hmatch

/-! ## Hosts -/

theorem createHostTx_spec (i : UUID) (now : Stamp) :
    Spec site t (Within t [] id fun _ => True) (createHostTx i now) fun _ _ => True := by
  refine Tx.Body.claim keeps_true ?_
  refine Tx.Body.check (F := fun db => db.hosts.row i = none) keeps_true ?_
    (fun _ _ => Tx.Body.throw) fun v _ => ?_
  · intro db _ _ hfree
    simpa using hfree
  have hkeep : Keeps t [.host i] fun db => db.hosts.row i = none ∧ True :=
    (keeps_host (F := fun x => x = none) List.mem_cons_self).and keeps_true
  refine Tx.Body.write hkeep (Tx.Body.last (commit_spec (.hostCreated i now) hkeep (fun _ => rfl)
    (fun db _ h => h.1) ?_ finish_spec))
  intro k hk
  rw [hk]
  exact List.mem_cons_self

theorem hostMissing_spec {i : UUID} :
    Spec site t (Within t keys f P) (hostMissing i : FleetM α) Q := by
  refine Tx.Body.forget (glance_spec keeps_true fun v => ?_)
  split <;> exact Tx.Body.throw

theorem lockHost_spec {i : UUID} {cond : Host → Bool} {G : Database → Prop} {v : Database}
    (hP : Keeps t keys P) (hf : Apart f fun db => db.hosts.row i)
    (hG : ∀ db, journal.Reaches db → P db → G db) :
    Spec site t (Within t keys f fun db => Snapshot (fun db => db.hosts.row i) G v db ∧ P db)
      (lockMatching (.host i) (fun db => db.hosts.row i) cond v)
      (Matched t keys f P G (.host i) (fun db => db.hosts.row i) cond) :=
  lockMatching_spec hP hf (fun _ => rfl) persists_host
    (fun a => keeps_host (F := fun x => x = a) List.mem_cons_self) hG

theorem apart_id {row : Database → Option β} : Apart id row := ⟨fun _ => rfl, fun _ => rfl⟩

theorem updateHostTx_spec (i : UUID) (expected : ℤ) (now : Stamp) :
    Spec site t (Within t [] id fun _ => True) (updateHostTx i expected now) fun _ _ => True := by
  refine Tx.Body.view (R := fun v db => Snapshot (fun db => db.hosts.row i) (fun _ => True) v db ∧
    True) keeps_true (fun db hr _ => ⟨snapshot_of_view apart_id hr trivial, trivial⟩) fun v => ?_
  refine Tx.Body.bind (lockHost_spec keeps_true apart_id fun _ _ _ => trivial) fun (found, n) => ?_
  cases found with
  | none => exact hostMissing_spec
  | some h =>
      refine Tx.Body.of_pre fun _ => ?_
      have hkeep : Keeps t [.host i] fun db => db.hosts.row i = some h ∧ True :=
        (keeps_host (F := fun x => x = some h) List.mem_cons_self).and keeps_true
      refine Tx.Body.write hkeep (Tx.Body.last (commit_spec (.hostUpdated i now) hkeep (fun _ => rfl)
        (fun db _ hd => ?_) (fun k hk => ?_) finish_spec))
      · have hrow : db.hosts.row i = some h := hd.1
        exact Option.isSome_of_mem hrow
      · rw [hk]
        exact List.mem_cons_self

theorem setHostStatusTx_spec (i : UUID) (expected : ℤ) (enabled : Bool) (now : Stamp) :
    Spec site t (Within t [] id fun _ => True) (setHostStatusTx i expected enabled now)
      fun _ _ => True := by
  refine Tx.Body.view (R := fun v db => Snapshot (fun db => db.hosts.row i) (fun _ => True) v db ∧
    v.trail.length ≤ db.trail.length ∧
      (db.past v.trail.length).hasActiveAgent i = v.hasActiveAgent i) keeps_true ?_ fun v => ?_
  · intro db hr _
    refine ⟨snapshot_of_view apart_id hr trivial, Nat.le_refl _, ?_⟩
    rw [id, past_length hr]
  have hpast : ∀ keys, Keeps t keys fun db => v.trail.length ≤ db.trail.length ∧
      (db.past v.trail.length).hasActiveAgent i = v.hasActiveAgent i := fun keys =>
    (persists_past (F := fun w => w.hasActiveAgent i = v.hasActiveAgent i)).lasts
  refine Tx.Body.bind (lockHost_spec (hpast []) apart_id fun _ _ _ => trivial) fun (found, n) => ?_
  cases found with
  | none => exact hostMissing_spec
  | some h =>
      refine Tx.Body.of_pre fun _ => ?_
      have hrow : Keeps t [.host i] fun db => db.hosts.row i = some h :=
        keeps_host (F := fun x => x = some h) List.mem_cons_self
      have hkeep := hrow.and (hpast [.host i])
      refine Tx.Body.write hkeep (commit_spec (.hostSet i enabled _ v.trail.length now) hkeep
        (fun _ => rfl) (fun db _ hd => ?_) (fun k hk => ?_) finish_spec)
      · have hrow : db.hosts.row i = some h := hd.1
        exact ⟨Option.isSome_of_mem hrow, hd.2.1, by rw [hd.2.2]⟩
      · rw [hk]
        exact List.mem_cons_self

/-! ## Enrollment tokens -/

theorem createEnrollmentTokenTx_spec (i : UUID) {token : Token} (hused : token.usedAt = none)
    (hrevoked : token.revokedAt = none) :
    Spec site t (Within t [] id fun _ => True) (createEnrollmentTokenTx i token)
      fun _ _ => True := by
  refine Tx.Body.branch (T := fun db => (db.hosts.row token.hostID).isSome) (F := fun _ => True)
    keeps_true ?_ (fun _ _ _ _ => trivial) (fun v _ => ?_) fun v _ => Tx.Body.throw
  · intro db _ _ h
    cases hrow : db.hosts.row token.hostID with
    | none => simp [hrow] at h
    | some host => rfl
  have hhost : ∀ keys, Keeps t keys fun db => (db.hosts.row token.hostID).isSome = true ∧ True :=
    fun keys => persists_host.lasts.and keeps_true
  refine Tx.Body.claim (hhost []) (Tx.Body.claim (hhost _) ?_)
  refine Tx.Body.check (F := fun db => db.tokens.row i = none) (hhost _) ?_
    (fun _ _ => Tx.Body.throw) fun v _ => ?_
  · intro db _ _ hfree
    simp only [id_eq, Bool.or_eq_true, not_or, Bool.not_eq_true, Option.isSome_eq_false_iff,
      Option.isNone_iff_eq_none] at hfree
    exact hfree.1
  have hrow : Keeps t [.tokenHash token.tokenHash, .token i] fun db => db.tokens.row i = none :=
    keeps_token (F := fun x => x = none) (by simp)
  have hkeep := hrow.and (hhost _)
  refine Tx.Body.write hkeep (Tx.Body.last (commit_spec (.tokenCreated i token) hkeep (fun _ => rfl)
    (fun db _ h => ⟨h.1, h.2.1, hused, hrevoked⟩) (fun k hk => ?_) finish_spec))
  rw [hk]
  simp

theorem revokeEnrollmentTokenTx_spec (i : UUID) (now : Stamp) :
    Spec site t (Within t [] id fun _ => True) (revokeEnrollmentTokenTx i now) fun _ _ => True := by
  refine Tx.Body.view (R := fun v db => Snapshot (fun db => db.tokens.row i) (fun _ => True) v db ∧
    True) keeps_true (fun db hr _ => ⟨snapshot_of_view apart_id hr trivial, trivial⟩) fun v => ?_
  refine Tx.Body.bind (lockMatching_spec keeps_true apart_id (fun _ => rfl) persists_token
    (fun a => keeps_token (F := fun x => x = a) List.mem_cons_self) fun _ _ _ => trivial)
    fun (found, n) => ?_
  cases found with
  | none => exact Tx.Body.throw
  | some token =>
      refine Tx.Body.of_pre fun husable => ?_
      have hkeep : Keeps t [.token i] fun db => db.tokens.row i = some token ∧ True :=
        (keeps_token (F := fun x => x = some token) List.mem_cons_self).and keeps_true
      refine Tx.Body.write hkeep (Tx.Body.last (commit_spec (.tokenRevoked i now) hkeep
        (fun _ => rfl) (fun db _ h => ⟨token, h.1, husable⟩) (fun k hk => ?_) finish_spec))
      rw [hk]
      exact List.mem_cons_self

/-! ## Agents -/

def agentKeys (i : UUID) (agent : Agent) : List Key :=
  [.activeAgent agent.hostID, .agentSerial agent.certificateSerial,
    .fingerprint agent.publicKeyFingerprint, .installID agent.installID, .agent i]

theorem insertAgent_spec (i : UUID) (agent : Agent) (hP : Keeps t keys P) :
    Spec site t (Within t keys id P) (insertAgent i agent) fun _ =>
      Within t (agentKeys i agent ++ keys) (fun db => db.insertAgent i agent) fun db =>
        (db.agents.row i = none ∧ db.hasActiveAgent agent.hostID = false) ∧ P db := by
  refine Tx.Body.claim hP (Tx.Body.claim hP.cons (Tx.Body.claim hP.cons.cons
    (Tx.Body.claim hP.cons.cons.cons (Tx.Body.claim hP.cons.cons.cons.cons ?_))))
  have hP' : Keeps t (agentKeys i agent ++ keys) P := hP.cons.cons.cons.cons.cons
  refine Tx.Body.check (F := fun db => db.agents.row i = none ∧
    db.hasActiveAgent agent.hostID = false) hP' ?_ (fun _ _ => Tx.Body.throw) fun v _ => ?_
  · intro db _ _ hfree
    simp only [id_eq, Bool.or_eq_true, not_or, Bool.not_eq_true, Option.isSome_eq_false_iff,
      Option.isNone_iff_eq_none] at hfree
    exact ⟨hfree.1.1, hfree.2⟩
  have hkeep : Keeps t (agentKeys i agent ++ keys) fun db =>
      (db.agents.row i = none ∧ db.hasActiveAgent agent.hostID = false) ∧ P db :=
    ((keeps_agent (F := fun x => x = none) (by simp [agentKeys])).and
      (keeps_free (by simp [agentKeys]))).and hP'
  refine Tx.Body.last (Tx.Body.write hkeep ?_)
  exact Tx.Body.pure (Tx.stable_in hkeep) fun _ _ h => h

theorem insertCertificate_spec (c : Certificate) (hP : Keeps t keys P)
    (hf : ∀ db, (f db).certificates = db.certificates) :
    Spec site t (Within t keys f P) (insertCertificate c) fun _ =>
      Within t (.certificateID c.id :: .certificate c.serialNumber :: keys)
        (fun db => (f db).insertCertificate c) fun db =>
          db.certificates.row c.serialNumber = none ∧ P db := by
  refine Tx.Body.claim hP (Tx.Body.claim hP.cons ?_)
  refine Tx.Body.check (F := fun db => db.certificates.row c.serialNumber = none) hP.cons.cons ?_
    (fun _ _ => Tx.Body.throw) fun v _ => ?_
  · intro db _ _ hfree
    simp only [Database.certificateTaken, hf, Bool.or_eq_true, not_or, Bool.not_eq_true,
      Option.isSome_eq_false_iff, Option.isNone_iff_eq_none] at hfree
    exact hfree.1
  have hkeep : Keeps t (.certificateID c.id :: .certificate c.serialNumber :: keys) fun db =>
      db.certificates.row c.serialNumber = none ∧ P db := (keeps_serial (by simp)).and hP.cons.cons
  refine Tx.Body.last (Tx.Body.write hkeep ?_)
  exact Tx.Body.pure (Tx.stable_in hkeep) fun _ _ h => h

def hostKeys (missed : Option ℕ) (i : UUID) : List Key := if missed.isSome then [] else [.host i]

theorem keeps_missed (known : Database → Prop) (i : UUID) (cond : HostStatus → Bool)
    (missed : Option ℕ) :
    Keeps t (hostKeys missed i ++ keys) fun db => Missed db known i cond missed := by
  cases missed with
  | none => exact keeps_host (F := fun x => ∃ h, x = some h ∧ cond h.status = true) (by simp [hostKeys])
  | some n =>
      exact (persists_past (F := fun w => known w ∧
        ∃ h, w.hosts.row i = some h ∧ cond h.status = false)).lasts

theorem updateHostStatus_spec (known : Database → Prop) {i : UUID} {cond : HostStatus → Bool}
    {status : HostStatus} {now : Stamp} (hP : Keeps t keys P)
    (hf : Apart f fun db => db.hosts.row i) (hhost : ∀ db, P db → (db.hosts.row i).isSome)
    (hknown : ∀ db, journal.Reaches db → P db → known db) :
    Spec site t (Within t keys f P) (updateHostStatus i cond status now) fun missed =>
      Within t (hostKeys missed i ++ keys) (fun db => (f db).setHostStatus? missed i status now)
        fun db => Missed db known i cond missed ∧ P db := by
  have hG : ∀ db, journal.Reaches db → P db → known db ∧ (db.hosts.row i).isSome = true :=
    fun db hr h => ⟨hknown db hr h, hhost db h⟩
  refine Tx.Body.view (R := fun v db => Snapshot (fun db => db.hosts.row i)
    (fun w => known w ∧ (w.hosts.row i).isSome = true) v db ∧ P db) hP
    (fun db hr h => ⟨snapshot_of_view hf hr (hG db hr h), h⟩) fun v => ?_
  refine Tx.Body.bind (lockHost_spec hP hf hG) fun (found, n) => ?_
  have hkeep : ∀ missed, Keeps t (hostKeys missed i ++ keys) fun db =>
      Missed db known i cond missed ∧ P db := fun missed =>
    (keeps_missed known i cond missed).and (hP.mono fun _ hk => List.mem_append_right _ hk)
  cases found with
  | none =>
      refine Tx.Body.conseq (Tx.Body.pure (Tx.stable_in (hkeep (some n))) fun _ _ h => h)
        (fun s hs => ?_) fun _ _ _ h => h
      refine hs.mono (fun _ hk => hk) fun h => ⟨⟨h.1.1, h.1.2.2.1, ?_⟩, h.2⟩
      obtain ⟨-, hany, -, hsome⟩ := h.1
      obtain ⟨row, hrow⟩ := Option.isSome_iff_exists.mp hsome
      exact ⟨row, hrow, by simpa [hrow] using hany⟩
  | some row =>
      refine Tx.Body.of_pre fun hcond => ?_
      have hlast : Keeps t (.host i :: keys) fun db => db.hosts.row i = some row ∧ P db :=
        (keeps_host (F := fun x => x = some row) List.mem_cons_self).and hP.cons
      refine Tx.Body.write hlast ?_
      refine Tx.Body.conseq (Tx.Body.pure (Tx.stable_in (hkeep none)) fun _ _ h => h)
        (fun s hs => ?_) fun _ _ _ h => h
      exact hs.mono (fun _ hk => hk) fun h => ⟨⟨row, h.1, hcond⟩, h.2⟩

def Redeems (hostID : UUID) (now : Stamp) (x : Option Token) : Prop :=
  ∃ token, x = some token ∧ token.usable now = true ∧ token.hostID = hostID

theorem lockToken_spec (hash : TokenHash) (now : Stamp) :
    Spec site t (Within t [] id fun _ => True) (lockToken hash now) fun r =>
      Within t [.token r.1] id fun db =>
        Redeems r.2 now (db.tokens.row r.1) ∧ (db.hosts.row r.2).isSome = true := by
  refine Tx.Body.view (R := fun v db => ∀ i, (v.tokens.row i).isSome → (db.tokens.row i).isSome)
    keeps_true (fun _ _ _ _ h => h) fun v => ?_
  have hseen : Keeps t [] fun db => ∀ i, (v.tokens.row i).isSome → (db.tokens.row i).isSome := by
    intro db db' _ _ he h i hi
    exact persists_token db db' he (h i hi)
  split
  · exact Tx.Body.throw
  rename_i i _
  split
  · exact Tx.Body.throw
  rename_i host hjoin
  have hsome : (v.tokens.row i).isSome := by
    cases hv : v.tokens.row i with
    | none => simp [hv] at hjoin
    | some token => rfl
  refine Tx.Body.find (T := fun _ => True) (F := fun _ => False) hseen (fun _ _ _ _ => trivial) ?_ ?_
    fun s hs => hs.fact.1.elim
  · intro db _ h hp
    have hp : (db.tokens.row i).isSome = false := hp
    rw [h i hsome] at hp
    cases hp
  refine Tx.Body.view (R := fun w db => (∀ token, w.tokens.row i = some token →
    (db.hosts.row token.hostID).isSome = true) ∧ db.tokens.row i = w.tokens.row i)
    (keeps_true.and hseen.cons) ?_ fun w => ?_
  · exact fun db hr _ => ⟨fun token htoken => (hosted_of_reaches hr).token i token htoken, rfl⟩
  split
  · exact Tx.Body.throw
  rename_i token htoken
  split
  · rename_i husable
    rw [Bool.and_eq_true] at husable
    have hkeep : Keeps t [.token i] fun db => Redeems token.hostID now (db.tokens.row i) ∧
        (db.hosts.row token.hostID).isSome = true :=
      (keeps_token (F := Redeems token.hostID now) List.mem_cons_self).and persists_host.lasts
    refine Tx.Body.conseq (Tx.Body.pure (Tx.stable_in hkeep) fun _ _ h => h) (fun s hs => ?_)
      fun _ _ _ h => h
    refine hs.mono (fun _ hk => hk) fun h => ⟨⟨token, h.2.trans htoken, husable.1, rfl⟩, ?_⟩
    exact h.1 token htoken
  · exact Tx.Body.throw

/-- An issuer that neither reads nor writes. -/
def Issues (site : Site) (t : ℕ) (issue : UUID → FleetM EnrollmentMaterial) : Prop :=
  ∀ hostID keys P, Keeps t keys P → Spec site t (Within t keys id P) (issue hostID)
    fun m s => m.agent.status = .active ∧ Within t keys id P s

theorem consumeEnrollmentTokenTx_spec {issue : UUID → FleetM EnrollmentMaterial}
    (hissue : Issues site t issue) (hash : TokenHash) (now : Stamp) :
    Spec site t (Within t [] id fun _ => True) (consumeEnrollmentTokenTx hash now issue)
      fun _ _ => True := by
  refine Tx.Body.bind (lockToken_spec hash now) fun (tokenID, hostID) => ?_
  have htoken : ∀ keys, .token tokenID ∈ keys → Keeps t keys fun db =>
      Redeems hostID now (db.tokens.row tokenID) ∧ (db.hosts.row hostID).isSome = true :=
    fun keys hk => (keeps_token (F := Redeems hostID now) hk).and persists_host.lasts
  refine Tx.Body.bind (hissue hostID [.token tokenID] _ (htoken _ List.mem_cons_self)) fun m => ?_
  refine Tx.Body.of_pre fun hactive => ?_
  refine Tx.Body.bind (insertAgent_spec m.agentID { m.agent with hostID := hostID }
    (htoken _ List.mem_cons_self)) fun _ => ?_
  have hrow : Keeps t (agentKeys m.agentID { m.agent with hostID := hostID } ++ [.token tokenID])
      fun db => db.agents.row m.agentID = none :=
    keeps_agent (F := fun x => x = none) (by simp [agentKeys])
  have hfree : Keeps t (agentKeys m.agentID { m.agent with hostID := hostID } ++ [.token tokenID])
      fun db => db.hasActiveAgent hostID = false := keeps_free (by simp [agentKeys])
  have hagent := (hrow.and hfree).and (htoken _ (by simp [agentKeys]))
  refine Tx.Body.bind (insertCertificate_spec m.certificate hagent fun _ => rfl) fun _ => ?_
  have hserial : Keeps t (.certificateID m.certificate.id ::
      .certificate m.certificate.serialNumber ::
        (agentKeys m.agentID { m.agent with hostID := hostID } ++ [.token tokenID]))
      fun db => db.certificates.row m.certificate.serialNumber = none := keeps_serial (by simp)
  have hall := hserial.and hagent.cons.cons
  refine glance_spec hall fun v => ?_
  split
  · refine Tx.Body.write hall ?_
    refine Tx.Body.bind (updateHostStatus_spec (fun _ => True) hall
      ⟨fun _ => rfl, fun _ => rfl⟩ (fun db h => h.2.2.2) fun _ _ _ => trivial) fun missed => ?_
    have hmissed := (keeps_missed (fun _ => True) hostID HostStatus.enrollable missed).and
        (hall.mono fun _ hk => List.mem_append_right (hostKeys missed hostID) hk)
    refine Tx.Body.write hmissed (commit_spec (.enrolled tokenID m.agentID
      { m.agent with hostID := hostID } m.certificate now missed) hmissed (fun _ => rfl) ?_ ?_
      finish_spec)
    · intro db _ h
      obtain ⟨hmiss, hcert, ⟨hrow, hfree⟩, hredeems, -⟩ := h
      exact ⟨hredeems, hrow, hactive, hfree, hcert, hmiss⟩
    · rintro k (rfl | rfl | rfl | rfl | ⟨rfl, rfl⟩)
      · simp
      · simp [agentKeys]
      · simp [agentKeys]
      · simp
      · simp [hostKeys]
  · exact Tx.Body.throw

theorem revokeAgentTx_spec (i : UUID) (reason : Text) (now : Stamp) :
    Spec site t (Within t [] id fun _ => True) (revokeAgentTx i reason now) fun _ _ => True := by
  refine Tx.Body.lock keeps_true ?_ Tx.Body.throw
  refine Tx.Body.view (R := fun v db => (∀ hostID, ActiveOn v i hostID →
    (db.hosts.row hostID).isSome = true) ∧ db.agents.row i = v.agents.row i) keeps_true ?_
    fun v => ?_
  · exact fun db hr _ => ⟨fun hostID h => (hosted_of_reaches hr).agent i hostID h, rfl⟩
  have hseen : Keeps t [.agent i] fun db => (∀ hostID, ActiveOn v i hostID →
      (db.hosts.row hostID).isSome = true) ∧ db.agents.row i = v.agents.row i := by
    refine Tx.Lasts.and ?_ (keeps_agent (F := fun x => x = v.agents.row i) List.mem_cons_self)
    intro db db' _ _ he h hostID hactive
    exact persists_host db db' he (h hostID hactive)
  split
  · exact Tx.Body.throw
  rename_i agent hrow
  split
  · exact Tx.Body.last (Tx.Body.commit_unchanged hseen finish_spec)
  rename_i hstatus
  have hv : ActiveOn v i agent.hostID := ⟨agent, hrow, rfl, hstatus⟩
  refine Tx.Body.claim hseen (Tx.Body.write hseen.cons (Tx.Body.write hseen.cons ?_))
  have hactive : ∀ db, (∀ hostID, ActiveOn v i hostID → (db.hosts.row hostID).isSome = true) ∧
      db.agents.row i = v.agents.row i → ActiveOn db i agent.hostID :=
    fun db h => ⟨agent, h.2.trans hrow, rfl, hstatus⟩
  refine Tx.Body.bind (updateHostStatus_spec (fun w => ActiveOn w i agent.hostID)
    hseen.cons ⟨fun _ => rfl, fun _ => rfl⟩ (fun db h => h.1 _ hv) fun db _ h => hactive db h)
    fun missed => ?_
  have hmissed := (keeps_missed (fun w => ActiveOn w i agent.hostID) agent.hostID
    (fun s => s = .active) missed).and
      ((hseen.cons (k := Key.activeAgent agent.hostID)).mono fun _ hk =>
        List.mem_append_right (hostKeys missed agent.hostID) hk)
  refine Tx.Body.write hmissed (Tx.Body.last (commit_spec (.agentRevoked i agent.hostID reason now
    missed) hmissed (fun _ => rfl) (fun db _ h => ⟨hactive db h.2, h.1⟩) ?_ finish_spec))
  rintro k (rfl | rfl | ⟨rfl, rfl⟩)
  · simp
  · simp
  · simp [hostKeys]

theorem of_rotating {db : Database} {i : UUID} {serial : Text} {now : Stamp} {agent : Agent}
    (h : db.rotating i serial now = some agent) :
    (db.agents.row i).isSome ∧ Owned db serial i := by
  unfold Database.rotating at h
  split at h
  · rename_i a c ha hc
    split at h
    · rename_i hcond
      simp only [Bool.and_eq_true, decide_eq_true_eq] at hcond
      exact ⟨Option.isSome_of_mem ha, c, hc, hcond.1.1⟩
    · cases h
  · cases h

theorem lockAny_spec {k₀ : Key} {p : FleetM α} (hP : Keeps t keys P)
    (h : Spec site t (Within t keys f P) p Q) :
    Spec site t (Within t keys f P) (Tx.lock k₀ >>= fun _ => p) Q :=
  Tx.Body.lock hP (h.conseq (fun _ hs => hs.drop) fun _ _ _ hq => hq) h

theorem rotateAgentCertificateTx_spec (i : UUID) (serial : Text) (c : Certificate) (now : Stamp) :
    Spec site t (Within t [] id fun _ => True)
      (rotateAgentCertificateTx i serial c now (now + 24 * hour)) fun _ _ => True := by
  refine Tx.Body.branch (T := fun _ => True) (F := fun db => (db.agents.row i).isSome = true)
    keeps_true (fun _ _ _ _ => trivial) ?_ (fun _ _ => Tx.Body.throw) fun v _ => ?_
  · intro db _ _ hsome
    obtain ⟨agent, hagent⟩ := Option.ne_none_iff_exists'.mp (by simpa using hsome)
    exact (of_rotating hagent).1
  have hrow : ∀ keys, Keeps t keys fun db => (db.agents.row i).isSome = true ∧ True :=
    fun keys => persists_agent.lasts.and keeps_true
  refine Tx.Body.find (T := fun _ => True) (F := fun _ => False) (hrow []) (fun _ _ _ _ => trivial) ?_
    ?_ fun s hs => hs.fact.1.elim
  · intro db _ h hp
    have hp : (db.agents.row i).isSome = false := hp
    rw [h.1] at hp
    cases hp
  refine lockAny_spec (keeps_true.and (hrow _)) ?_
  refine Tx.Body.view (R := fun w db => ∀ agent, w.rotating i serial now = some agent →
    Owned db serial i) (keeps_true.and (hrow _)) (fun db _ _ agent h => (of_rotating h).2) fun w => ?_
  split
  · exact Tx.Body.throw
  rename_i agent hagent
  split
  · exact Tx.Body.throw
  have howned : ∀ keys, Keeps t keys fun db => Owned db serial i := fun keys => persists_owned.lasts
  refine Tx.Body.conseq (A := Within t [.agent i] id fun db => Owned db serial i) ?_
    (fun s hs => hs.mono (fun _ hk => hk) fun h => h agent hagent) fun _ _ _ h => h
  refine Tx.Body.bind (insertCertificate_spec c (howned _) fun _ => rfl) fun _ => ?_
  have hserial : Keeps t [.certificateID c.id, .certificate c.serialNumber, .agent i]
      fun db => db.certificates.row c.serialNumber = none := keeps_serial (by simp)
  have hall := hserial.and (howned _)
  refine Tx.Body.write hall (Tx.Body.claim hall (Tx.Body.claim hall.cons ?_))
  refine glance_spec hall.cons.cons fun u => ?_
  split
  · exact Tx.Body.throw
  refine Tx.Body.write hall.cons.cons (Tx.Body.last (commit_spec (.rotated i serial c now)
    hall.cons.cons (fun _ => rfl) (fun db _ h => ⟨h.2, h.1⟩) ?_ finish_spec))
  rintro k (rfl | rfl) <;> simp

end RestFleet.Fleet
