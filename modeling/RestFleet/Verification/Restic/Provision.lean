import RestFleet.Model.Restic.Provision
import RestFleet.Shared.Checks

/-! # Attempts to initialise a repository

An attempt learns of the repository by its commands, and one that fails may have had its effect. -/

namespace RestFleet.Restic.Provision

abbrev Event := (o : Op) × Reply o

/-- The identifier of the repository, if there is one. -/
abbrev Hidden := Option Text

/-- What a command does to the repository, and what it says about it. However `init` ends, it may have
created the repository; one that exists stays as it is. -/
def Effect (repo : Hidden) : Event → Hidden → Prop
  | ⟨.exec .catConfig, c⟩, repo' => repo' = repo ∧
      (run c = .error .repositoryAbsent → repo = none) ∧
      ∀ raw printed, run c = .ok raw → printedConfig raw = some printed → repo = some printed.1
  | ⟨.exec .init, _⟩, repo' => repo = none ∨ repo' = repo
  | _, repo' => repo' = repo

/-- The repository along a list of events. -/
def Plays (repo : Hidden) : List Event → Hidden → Prop
  | [], repo' => repo' = repo
  | e :: rest, repo' => ∃ between, Effect repo e between ∧ Plays between rest repo'

theorem plays_append {repo repo' : Hidden} {es es' : List Event} :
    Plays repo (es ++ es') repo' ↔ ∃ between, Plays repo es between ∧ Plays between es' repo' := by
  induction es generalizing repo with
  | nil => simp [Plays]
  | cons e rest ih =>
      simp only [List.cons_append, Plays, ih]
      constructor
      · rintro ⟨x, hx, y, hy, hrest⟩
        exact ⟨y, ⟨x, hx, hy⟩, hrest⟩
      · rintro ⟨y, ⟨x, hx, hy⟩, hrest⟩
        exact ⟨x, hx, y, hy, hrest⟩

/-! ## What an attempt runs -/

def readOf (expected : Text) (c : Command) : Except ProvisionError RepositoryInfo :=
  (run c).mapError .command >>= parseConfig expected

/-- What the last check makes of its command. -/
def emptied (info : RepositoryInfo) (c : Command) : Except ProvisionError RepositoryInfo :=
  (run c).mapError .command >>= fun raw =>
    match printedSnapshots raw with
    | none => .error (.command .invalidOutput)
    | some items => if items.isEmpty then .ok info else .error .repositoryInUse

variable {allowed : (o : Op) → Reply o → Prop} {es : List Event} {expected : Text}
  {r : Except ProvisionError RepositoryInfo}

theorem trace_execute {k : Kind} {raw : Except ProvisionError Bytes}
    (h : (execute k).Trace allowed es raw) :
    ∃ c : Command, es = [⟨.exec k, c⟩] ∧ raw = (run c).mapError .command := by
  obtain ⟨c, rest, -, rfl, rfl, rfl⟩ := Program.trace_perform_bind h
  exact ⟨c, rfl, rfl⟩

theorem trace_readConfig (h : (readConfig expected).Trace allowed es r) :
    ∃ c : Command, es = [⟨.exec .catConfig, c⟩] ∧ r = readOf expected c := by
  obtain ⟨raw, es₁, es₂, rfl, hexecute, rfl, rfl⟩ := Program.trace_bind h
  obtain ⟨c, rfl, rfl⟩ := trace_execute hexecute
  exact ⟨c, rfl, rfl⟩

theorem trace_verifyEmpty {info : RepositoryInfo} (h : (verifyEmpty info).Trace allowed es r) :
    ∃ c : Command, es = [⟨.exec .snapshots, c⟩] ∧ r = emptied info c := by
  obtain ⟨raw, es₁, es₂, rfl, hexecute, rfl, rfl⟩ := Program.trace_bind h
  obtain ⟨c, rfl, rfl⟩ := trace_execute hexecute
  exact ⟨c, rfl, rfl⟩

/-- The commands of `create`: `init` alone, or with a read after it, or all three. -/
inductive Creation : List Event → Except ProvisionError RepositoryInfo → Prop where
  | failed {c e} : Creation [⟨.exec .init, c⟩] (.error e)
  | unread {c c' e} : Creation [⟨.exec .init, c⟩, ⟨.exec .catConfig, c'⟩] (.error e)
  | read {c c₁ c₂ raw id info} (hraw : run c = .ok raw) (hid : initializedID raw = some id)
      (hread : readOf id c₁ = .ok info) :
      Creation [⟨.exec .init, c⟩, ⟨.exec .catConfig, c₁⟩, ⟨.exec .snapshots, c₂⟩] (emptied info c₂)

theorem creation_of_trace (h : create.Trace allowed es r) : Creation es r := by
  obtain ⟨raw, es₁, es₂, rfl, hexecute, hrest⟩ := Program.trace_bind h
  obtain ⟨c, rfl, rfl⟩ := trace_execute hexecute
  cases hraw : run c with
  | error e =>
      rw [hraw] at hrest
      obtain ⟨rfl, rfl⟩ := hrest
      exact .failed
  | ok raw =>
      rw [hraw] at hrest
      cases hid : initializedID raw with
      | none =>
          simp only [Except.mapError, hid] at hrest
          obtain ⟨rfl, rfl⟩ := hrest
          exact .failed
      | some id =>
          simp only [Except.mapError, hid] at hrest
          obtain ⟨read, es₃, es₄, rfl, hreading, hverify⟩ := Program.trace_bind hrest
          obtain ⟨c₁, rfl, rfl⟩ := trace_readConfig hreading
          cases hread : readOf id c₁ with
          | error e =>
              simp only [hread] at hverify
              obtain ⟨rfl, rfl⟩ := hverify
              exact .unread
          | ok info =>
              simp only [hread] at hverify
              obtain ⟨c₂, rfl, rfl⟩ := trace_verifyEmpty hverify
              exact .read hraw hid hread

/-- The commands of `initialize`. -/
inductive Initialization (expected : Text) : List Event → Except ProvisionError RepositoryInfo → Prop
  | refused {c e} : Initialization expected [⟨.exec .catConfig, c⟩] (.error e)
  | present {c c' info} (hread : readOf expected c = .ok info) :
      Initialization expected [⟨.exec .catConfig, c⟩, ⟨.exec .snapshots, c'⟩] (emptied info c')
  | absent {c es r} (habsent : run c = .error .repositoryAbsent) (hexpected : expected = [])
      (hcreation : Creation es r) : Initialization expected (⟨.exec .catConfig, c⟩ :: es) r

theorem absent_of_readOf {c : Command}
    (h : readOf expected c = .error (.command .repositoryAbsent)) :
    run c = .error .repositoryAbsent := by
  unfold readOf at h
  cases hrun : run c with
  | error e =>
      rw [hrun] at h
      cases h
      rfl
  | ok raw =>
      rw [hrun] at h
      change parseConfig expected raw = _ at h
      unfold parseConfig at h
      split at h
      · cases h
      · split_ifs at h
        cases h

theorem initialization_of_trace (h : (initializeRepository expected).Trace allowed es r) :
    Initialization expected es r := by
  obtain ⟨read, es₁, es₂, rfl, hreading, hrest⟩ := Program.trace_bind h
  obtain ⟨c, rfl, rfl⟩ := trace_readConfig hreading
  cases hread : readOf expected c with
  | ok info =>
      rw [hread] at hrest
      obtain ⟨c', rfl, rfl⟩ := trace_verifyEmpty hrest
      exact .present hread
  | error e =>
      simp only [hread] at hrest
      split_ifs at hrest with habsent
      · obtain ⟨rfl, hexpected⟩ := habsent
        exact .absent (absent_of_readOf hread) hexpected (creation_of_trace hrest)
      · obtain ⟨rfl, rfl⟩ := hrest
        exact .refused

inductive Provisioning (request : ProvisionRequest) :
    List Event → Except ProvisionError RepositoryInfo → Prop where
  | invalid {e} : Provisioning request [] (.error e)
  | unprepared {e} : Provisioning request [⟨.prepare, false⟩] (.error e)
  | prepared {es : List Event} {r : Except ProvisionError RepositoryInfo} {finished : Bool}
      (h : Initialization request.expectedID es r) :
      Provisioning request (⟨.prepare, true⟩ :: es ++ [⟨.finish, finished⟩])
        (if finished then r else .error .runtime)

theorem provisioning_of_trace {request : ProvisionRequest}
    (h : (provision request).Trace allowed es r) : Provisioning request es r := by
  unfold provision at h
  split_ifs at h
  · obtain ⟨rfl, rfl⟩ := h
    exact .invalid
  · obtain ⟨prepared, es₁, -, rfl, h₁⟩ := Program.trace_perform_bind h
    cases hprepared : prepared with
    | false =>
        subst hprepared
        obtain ⟨rfl, rfl⟩ := h₁
        exact .unprepared
    | true =>
        subst hprepared
        obtain ⟨result, es₂, es₃, rfl, hsteps, h₂⟩ := Program.trace_bind h₁
        obtain ⟨(finished : Bool), es₄, -, rfl, h₃⟩ := Program.trace_perform_bind h₂
        have hr : es₄ = [] ∧ r = if finished then result else .error .runtime := by
          cases hfinished : finished with
          | false =>
              subst hfinished
              exact ⟨h₃.1, h₃.2.symm⟩
          | true =>
              subst hfinished
              exact ⟨h₃.1, h₃.2.symm⟩
        obtain ⟨rfl, rfl⟩ := hr
        exact .prepared (initialization_of_trace hsteps)

/-! ## Where a repository is created -/

/-- The event at which `init` runs comes right after a read that found no repository. -/
structure Justified (expected : Text) (before : List Event) : Prop where
  unexpected : expected = []
  once : .exec .init ∉ before.map Sigma.fst
  absent : ∃ front c, before = front ++ [⟨.exec .catConfig, c⟩] ∧ run c = .error .repositoryAbsent

theorem Creation.ops {es : List Event} (h : Creation es r) :
    ∃ c rest, es = ⟨.exec .init, c⟩ :: rest ∧ .exec .init ∉ rest.map Sigma.fst := by
  cases h with
  | failed => exact ⟨_, _, rfl, by simp⟩
  | unread => exact ⟨_, _, rfl, by simp⟩
  | read => exact ⟨_, _, rfl, by simp⟩

theorem Provisioning.justified {request : ProvisionRequest} (h : Provisioning request es r)
    {before after : List Event} {c : Command} (hes : es = before ++ ⟨.exec .init, c⟩ :: after) :
    Justified request.expectedID before := by
  have hops : .exec .init ∈ es.map Sigma.fst := by simp [hes]
  cases h with
  | invalid => simp at hops
  | unprepared => simp at hops
  | prepared h =>
      cases h with
      | refused => simp at hops
      | present => simp at hops
      | @absent c' tail _ habsent hexpected hcreation =>
          obtain ⟨c₁, rest, rfl, hrest⟩ := hcreation.ops
          -- `init` occurs once, so that the lists before it are the same.
          have hmap := congrArg (List.map Sigma.fst) hes
          simp only [List.map_append, List.map_cons, List.cons_append, List.map_nil] at hmap
          match before, hes, hmap with
          | [], _, hmap => simp at hmap
          | [x], _, hmap => simp at hmap
          | [x, y], hes, _ =>
              simp only [List.cons_append, List.nil_append, List.cons.injEq] at hes
              obtain ⟨rfl, rfl, -⟩ := hes
              exact ⟨hexpected, by simp, [⟨.prepare, true⟩], c', rfl, habsent⟩
          | x :: y :: z :: w, _, hmap =>
              simp only [List.map_cons, List.cons_append, List.cons.injEq] at hmap
              have hmem : .exec .init ∈ rest.map Sigma.fst ++ [.finish] := by simp [hmap.2.2.2]
              simp [hrest] at hmem

/-! ## What a success rests on -/

theorem readOf_ok {c : Command} {info : RepositoryInfo} (h : readOf expected c = .ok info) :
    ∃ raw, run c = .ok raw ∧ printedConfig raw = some (info.id, 2) ∧ info.formatVersion = 2 ∧
      (expected ≠ [] → info.id = expected) := by
  unfold readOf at h
  obtain ⟨raw, hraw, hparse⟩ := bind_ok.mp h
  cases hrun : run c with
  | error e =>
      rw [hrun] at hraw
      cases hraw
  | ok output =>
      rw [hrun] at hraw
      cases hraw
      unfold parseConfig at hparse
      split at hparse
      · cases hparse
      · next id version hprinted =>
          split_ifs at hparse with hmatch
          cases hparse
          simp only [Bool.or_eq_true, Bool.and_eq_true, decide_eq_true_eq, not_or, not_not,
            not_and] at hmatch
          obtain ⟨rfl, hexpected⟩ := hmatch
          exact ⟨raw, rfl, hprinted, rfl, hexpected⟩

theorem emptied_ok {info info' : RepositoryInfo} {c : Command} (h : emptied info c = .ok info') :
    info' = info ∧ ∃ raw, run c = .ok raw ∧ printedSnapshots raw = some [] := by
  unfold emptied at h
  obtain ⟨raw, hraw, hcheck⟩ := bind_ok.mp h
  cases hrun : run c with
  | error e =>
      rw [hrun] at hraw
      cases hraw
  | ok output =>
      rw [hrun] at hraw
      cases hraw
      split at hcheck
      · cases hcheck
      · next items hitems =>
          split_ifs at hcheck with hempty
          cases hcheck
          exact ⟨rfl, raw, rfl, by rw [hitems, List.isEmpty_iff.mp hempty]⟩

theorem initializedLoop_ne_nil {n : ℕ} {found text id : Text}
    (h : initializedLoop n found text = some id) : id ≠ [] := by
  induction n generalizing found text with
  | zero => cases h
  | succ n ih =>
      unfold initializedLoop at h
      split at h
      · split at h
        · cases h
        · next hfound => exact (Option.some.inj h) ▸ hfound
      · split at h
        · cases h
        · split at h
          · cases h
          · split at h
            · cases h
            · split at h
              · split at h
                · cases h
                · exact ih h
              · exact ih h

/-- What a success says about the commands of its attempt. -/
structure Verified (expected : Text) (events : List Event) (info : RepositoryInfo) : Prop where
  reread : ∃ front c back raw, events = front ++ ⟨.exec .catConfig, c⟩ :: back ∧
    .exec .init ∉ back.map Sigma.fst ∧ run c = .ok raw ∧ printedConfig raw = some (info.id, 2)
  version : info.formatVersion = 2
  expected : expected ≠ [] → info.id = expected
  printed : ∀ c, ⟨.exec .init, c⟩ ∈ events →
    ∃ raw, run c = .ok raw ∧ initializedID raw = some info.id
  empty : ∃ c raw, ⟨.exec .snapshots, c⟩ ∈ events ∧ run c = .ok raw ∧
    printedSnapshots raw = some []

theorem Initialization.verified {info : RepositoryInfo}
    (h : Initialization expected es (.ok info)) : Verified expected es info := by
  generalize hr : Except.ok info = r at h
  cases h with
  | refused => cases hr
  | @present c c' info' hread =>
      obtain ⟨rfl, raw', hraw', hempty⟩ := emptied_ok hr.symm
      obtain ⟨raw, hraw, hprinted, hversion, hexpected⟩ := readOf_ok hread
      refine ⟨⟨[], c, _, raw, rfl, by simp, hraw, hprinted⟩, hversion, hexpected, ?_,
        c', raw', by simp, hraw', hempty⟩
      intro c hc
      rcases List.mem_cons.mp hc with h | h
      · cases h
      · cases List.mem_singleton.mp h
  | @absent c es' r' habsent hexpected hcreation =>
      cases hcreation with
      | failed => cases hr
      | unread => cases hr
      | @read c₁ c₂ c₃ raw₁ id info' hraw₁ hid hread =>
          obtain ⟨rfl, raw', hraw', hempty⟩ := emptied_ok hr.symm
          obtain ⟨raw, hraw, hprinted, hversion, hsame⟩ := readOf_ok hread
          refine ⟨⟨[⟨.exec .catConfig, c⟩, ⟨.exec .init, c₁⟩], c₂, _, raw, rfl, by simp, hraw,
            hprinted⟩, hversion, fun hne => absurd hexpected hne, ?_, c₃, raw', by simp, hraw',
            hempty⟩
          intro c' hc'
          have hc : c' = c₁ := by
            rcases List.mem_cons.mp hc' with h | h
            · cases h
            rcases List.mem_cons.mp h with h | h
            · cases h
              rfl
            rcases List.mem_cons.mp h with h | h
            · cases h
            · cases List.mem_singleton.mp h
          rw [hc, hsame (initializedLoop_ne_nil hid)]
          exact ⟨raw₁, hraw₁, hid⟩

theorem Verified.prepared {info : RepositoryInfo} {finished : Bool} (h : Verified expected es info) :
    Verified expected (⟨.prepare, true⟩ :: es ++ [⟨.finish, finished⟩]) info := by
  obtain ⟨⟨front, c, back, raw, rfl, hback, hraw, hprinted⟩, hversion, hexpected, hinit, c', raw',
    hc', hraw', hempty⟩ := h
  refine ⟨⟨⟨.prepare, true⟩ :: front, c, back ++ [⟨.finish, finished⟩], raw, by simp, ?_, hraw,
    hprinted⟩, hversion, hexpected, ?_, c', raw', ?_, hraw', hempty⟩
  · simpa using hback
  · intro c'' hmem
    rcases List.mem_append.mp hmem with hmem | hmem
    · rcases List.mem_cons.mp hmem with hmem | hmem
      · cases hmem
      · exact hinit c'' hmem
    · cases List.mem_singleton.mp hmem
  · exact List.mem_append_left _ (List.mem_cons_of_mem _ hc')

theorem Provisioning.verified {request : ProvisionRequest} {info : RepositoryInfo}
    (h : Provisioning request es (.ok info)) : Verified request.expectedID es info := by
  generalize hr : Except.ok info = r at h
  cases h with
  | invalid => cases hr
  | unprepared => cases hr
  | prepared h =>
      split_ifs at hr with hfinished
      subst hr
      exact h.verified.prepared

/-! ## Sequences of attempts -/

theorem plays_of_no_init {repo repo' : Hidden} (h : Plays repo es repo')
    (hes : .exec .init ∉ es.map Sigma.fst) : repo' = repo := by
  induction es generalizing repo with
  | nil => exact h
  | cons e rest ih =>
      obtain ⟨between, heffect, hrest⟩ := h
      simp only [List.map_cons, List.mem_cons, not_or] at hes
      rw [ih hrest hes.2]
      obtain ⟨op, reply⟩ := e
      match op, reply, heffect, hes with
      | .prepare, _, heffect, _ => exact heffect
      | .finish, _, heffect, _ => exact heffect
      | .exec .catConfig, _, heffect, _ => exact heffect.1
      | .exec .snapshots, _, heffect, _ => exact heffect
      | .exec .init, _, _, hes => exact absurd rfl hes.1

/-- An attempt of which `result` is reported; without one it was broken off after its events. -/
structure Attempt where
  request : ProvisionRequest
  events : List Event
  result : Option (Except ProvisionError RepositoryInfo)

/-- The events are those of `Provision`, whatever its operations are answered. -/
def Attempt.Possible (a : Attempt) : Prop :=
  ∃ rest r, (provision a.request).Trace (fun _ _ => True) (a.events ++ rest) r ∧
    ∀ r', a.result = some r' → rest = [] ∧ r = r'

/-- `init` runs at most once, only if no identifier is expected and the read right before it has found
no repository. A success has an identifier that was read after any `init`, in version 2 and with no
snapshots, and the repository has this identifier. -/
theorem repository_initialised_safely (start : Hidden) (earlier : List Attempt) (a : Attempt)
    (ha : a.Possible) :
    (∀ before c after, a.events = before ++ ⟨.exec .init, c⟩ :: after →
      Justified a.request.expectedID before ∧
        ∀ repo, Plays start (earlier.flatMap (·.events) ++ before) repo → repo = none) ∧
      ∀ info, a.result = some (.ok info) → Verified a.request.expectedID a.events info ∧
        ∀ repo, Plays start (earlier.flatMap (·.events) ++ a.events) repo → repo = some info.id := by
  obtain ⟨rest, r, htrace, hresult⟩ := ha
  have hprovisioning := provisioning_of_trace htrace
  refine ⟨fun before c after hes => ?_, fun info hinfo => ?_⟩
  · have hall : a.events ++ rest = before ++ ⟨.exec .init, c⟩ :: (after ++ rest) := by simp [hes]
    have hjustified := hprovisioning.justified hall
    refine ⟨hjustified, fun repo hplays => ?_⟩
    obtain ⟨front, c', rfl, habsent⟩ := hjustified.absent
    rw [← List.append_assoc] at hplays
    obtain ⟨between, -, after', ⟨hsame, hnone, -⟩, hend⟩ := plays_append.mp hplays
    rw [hend, hsame, hnone habsent]
  · obtain ⟨rfl, rfl⟩ := hresult _ hinfo
    rw [List.append_nil] at hprovisioning
    have hverified := hprovisioning.verified
    refine ⟨hverified, fun repo hplays => ?_⟩
    obtain ⟨front, c, back, raw, hevents, hback, hraw, hprinted⟩ := hverified.reread
    rw [hevents, ← List.append_assoc] at hplays
    obtain ⟨between, -, after, ⟨hsame, -, hread⟩, hend⟩ := plays_append.mp hplays
    rw [plays_of_no_init hend hback, hsame, hread raw _ hraw hprinted]

/-! ### A new repository -/

def sampleID : Text := List.replicate 64 'a'

def succeeds (output : String) : Command := ⟨true, [Utf8.encode output.toList], false, .success⟩

def sampleInitOutput : String :=
  "\x7b\"message_type\":\"initialized\",\"id\":\"" ++ String.ofList sampleID ++ "\"\x7d"

def sampleInit : Command := succeeds sampleInitOutput

def sampleConfig : Command :=
  succeeds ("\x7b\"version\":2,\"id\":\"" ++ String.ofList sampleID ++ "\"\x7d")

def sampleAttempt : Attempt where
  request := ⟨0x01890000000070008000000000000001, 0x01890000000070008000000000000002,
    List.replicate 32 65, []⟩
  events := [⟨.prepare, true⟩, ⟨.exec .catConfig, (⟨true, [], false, .code 10⟩ : Command)⟩,
    ⟨.exec .init, sampleInit⟩, ⟨.exec .catConfig, sampleConfig⟩,
    ⟨.exec .snapshots, succeeds "[]"⟩, ⟨.finish, true⟩]
  result := some (.ok ⟨sampleID, 2⟩)

theorem execute_trace (k : Kind) (c : Command) :
    (execute k).Trace (fun _ _ => True) [⟨.exec k, c⟩] ((run c).mapError .command) :=
  ⟨c, [], trivial, rfl, rfl, rfl⟩

theorem readConfig_trace (expected : Text) (c : Command) :
    (readConfig expected).Trace (fun _ _ => True) [⟨.exec .catConfig, c⟩] (readOf expected c) :=
  ⟨c, [], trivial, rfl, rfl, rfl⟩

theorem verifyEmpty_trace (info : RepositoryInfo) (c : Command) :
    (verifyEmpty info).Trace (fun _ _ => True) [⟨.exec .snapshots, c⟩] (emptied info c) :=
  ⟨c, [], trivial, rfl, rfl, rfl⟩

theorem create_trace : create.Trace (fun _ _ => True)
    [⟨.exec .init, sampleInit⟩, ⟨.exec .catConfig, sampleConfig⟩,
      ⟨.exec .snapshots, succeeds "[]"⟩] (.ok ⟨sampleID, 2⟩) := by
  have hinit : (run sampleInit).mapError ProvisionError.command =
      .ok (Utf8.encode sampleInitOutput.toList) := by decide +kernel
  have hid : initializedID (Utf8.encode sampleInitOutput.toList) = some sampleID := by
    rw [initializedID, Utf8.decode_encode]
    decide +kernel
  have hread : readOf sampleID sampleConfig = .ok ⟨sampleID, 2⟩ := by decide +kernel
  have hempty : emptied ⟨sampleID, 2⟩ (succeeds "[]") = .ok ⟨sampleID, 2⟩ := by decide +kernel
  refine (execute_trace .init sampleInit).bind ?_
  rw [hinit]
  simp only [hid]
  refine (readConfig_trace sampleID sampleConfig).bind ?_
  rw [hread, ← hempty]
  exact verifyEmpty_trace _ _

theorem sampleAttempt_possible : sampleAttempt.Possible := by
  have hvalid : (!sampleAttempt.request.valid) = false := by decide +kernel
  have habsent : readOf [] ⟨true, [], false, .code 10⟩ = .error (.command .repositoryAbsent) := rfl
  have hsteps : (initializeRepository []).Trace (fun _ _ => True)
      [⟨.exec .catConfig, (⟨true, [], false, .code 10⟩ : Command)⟩, ⟨.exec .init, sampleInit⟩,
        ⟨.exec .catConfig, sampleConfig⟩, ⟨.exec .snapshots, succeeds "[]"⟩]
      (.ok ⟨sampleID, 2⟩) := by
    refine (readConfig_trace [] ⟨true, [], false, .code 10⟩).bind ?_
    rw [habsent]
    exact create_trace
  refine ⟨[], .ok ⟨sampleID, 2⟩, ?_, fun r' hr' => ⟨rfl, Option.some.inj hr'⟩⟩
  rw [provision, hvalid]
  refine ⟨true, _, trivial, rfl, ?_⟩
  exact hsteps.bind ⟨true, [], trivial, rfl, rfl, rfl⟩

theorem repository_initialised_safely_new :
    Verified [] sampleAttempt.events ⟨sampleID, 2⟩ ∧
      ∀ repo, Plays none sampleAttempt.events repo → repo = some sampleID :=
  (repository_initialised_safely none [] sampleAttempt sampleAttempt_possible).2 _ rfl

end RestFleet.Restic.Provision
