import Mathlib.Data.List.Basic
import RestFleet.Shared.History
import RestFleet.Verification.Authorization.Step

/-! # Histories of the local authorization -/

namespace RestFleet.Authorization

variable {S : Signing} {J : Codec GatewayStatement}

def Event.statement? : Event → Option GatewayStatement
  | .accepted s _ => some s
  | _ => none

def Event.now : Event → Time
  | .accepted _ now | .rejected now | .status _ now => now

/-- The statements accepted in a history, replays included. -/
def acceptedStatements (events : List Event) : List GatewayStatement :=
  events.filterMap Event.statement?

def walls (events : List Event) : List ℤ := events.map fun e => e.now.wall

/-- The deadline that a grant gets when it is accepted at `t`. -/
def deadlineAt (s : GatewayStatement) (t : Time) : Time :=
  t.add ((Time.ofUnix s.expiresAt).sub t)

/-- `s'` repeats `s` or supersedes it. -/
def Supersedes (s s' : GatewayStatement) : Prop :=
  s = s' ∨ (s.revision < s'.revision ∧ s.issuedAt ≤ s'.issuedAt)

def FirstAccepted (events : List Event) (s : GatewayStatement) (t : Time) : Prop :=
  ∃ earlier later, events = earlier ++ .accepted s t :: later ∧ s ∉ acceptedStatements earlier

theorem FirstAccepted.append {events : List Event} {s : GatewayStatement} {t : Time}
    (h : FirstAccepted events s t) (e : Event) : FirstAccepted (events ++ [e]) s t := by
  obtain ⟨earlier, later, rfl, hnew⟩ := h
  exact ⟨earlier, later ++ [e], by simp, hnew⟩

/-- What the state remembers of its history. -/
structure Inv (a : Authorization S) (events : List Event) : Prop where
  unset : acceptedStatements events = [] → a.current = .zero
  last : acceptedStatements events ≠ [] → (acceptedStatements events).getLast? = some a.current
  supersedes : ∀ s ∈ acceptedStatements events, Supersedes s a.current
  ordered : (acceptedStatements events).Pairwise Supersedes
  revoked : ∀ s ∈ acceptedStatements events, s.revoked = true → a.current = s
  lastWall : a.lastWall.mono = none
  clock : a.clockUnsafe = false →
    (walls events).Pairwise (· ≤ ·) ∧ ∀ w ∈ walls events, w ≤ a.lastWall.wall
  deadline : acceptedStatements events ≠ [] → a.current.revoked = false →
    ∃ t, FirstAccepted events a.current t ∧ a.deadline = deadlineAt a.current t

variable {a : Authorization S} {events : List Event}

theorem inv_new {key : S.PublicKey} {binding : GatewayAuthorizationBinding}
    (h : new key binding = some a) : Inv a [] := by
  unfold new at h
  split at h
  · cases h
  · cases h
    constructor <;> simp [acceptedStatements, walls, Time.zero]

theorem Inv.clock_observed {now : Time} (h : Inv a events)
    (hc : (a.observed now).clockUnsafe = false) :
    (walls events ++ [now.wall]).Pairwise (· ≤ ·) ∧
      ∀ w ∈ walls events ++ [now.wall], w ≤ now.wall := by
  obtain ⟨hsafe, hbefore⟩ := clockUnsafe_observed hc
  obtain ⟨hordered, hbound⟩ := h.clock hsafe
  have hle : a.lastWall.wall ≤ now.wall := by
    simp only [Time.before, Time.round0, h.lastWall] at hbefore
    exact Int.not_lt.mp (of_decide_eq_false hbefore)
  have hall : ∀ w ∈ walls events, w ≤ now.wall := fun w hw => Int.le_trans (hbound w hw) hle
  refine ⟨List.pairwise_append.mpr ⟨hordered, List.pairwise_singleton _ _, ?_⟩, ?_⟩
  · intro w hw w' hw'
    rw [List.mem_singleton.mp hw']
    exact hall w hw
  · intro w hw
    rcases List.mem_append.mp hw with hw | hw
    · exact hall w hw
    · exact Int.le_of_eq (List.mem_singleton.mp hw)

theorem Inv.observe {e : Event} (h : Inv a events) (he : e.statement? = none) :
    Inv (a.observed e.now) (events ++ [e]) := by
  have haccepted : acceptedStatements (events ++ [e]) = acceptedStatements events := by
    simp [acceptedStatements, he]
  have hwalls : walls (events ++ [e]) = walls events ++ [e.now.wall] := by simp [walls]
  constructor
  case lastWall => rfl
  case clock =>
    rw [hwalls]
    exact h.clock_observed
  case deadline =>
    rw [haccepted]
    intro hne hr
    obtain ⟨t, ht, hd⟩ := h.deadline hne hr
    exact ⟨t, ht.append e, hd⟩
  all_goals rw [haccepted]
  · exact h.unset
  · exact h.last
  · exact h.supersedes
  · exact h.ordered
  · exact h.revoked

theorem Inv.replay {now : Time} (h : Inv a events) (hr : a.current.revision ≠ 0) :
    Inv (a.observed now) (events ++ [.accepted a.current now]) := by
  have hne : acceptedStatements events ≠ [] := by
    intro hnil
    exact hr (by rw [h.unset hnil]; rfl)
  have haccepted : acceptedStatements (events ++ [.accepted a.current now]) =
      acceptedStatements events ++ [a.current] := by simp [acceptedStatements, Event.statement?]
  constructor
  case unset => simp [haccepted]
  case last => simp [haccepted]
  case lastWall => rfl
  case clock =>
    rw [show walls (events ++ [.accepted a.current now]) = walls events ++ [now.wall] by
      simp [walls, Event.now]]
    exact h.clock_observed
  case deadline =>
    intro _ hrevoked
    obtain ⟨t, ht, hd⟩ := h.deadline hne hrevoked
    exact ⟨t, ht.append _, hd⟩
  all_goals rw [haccepted]
  case supersedes =>
    intro s hs
    rcases List.mem_append.mp hs with hs | hs
    · exact h.supersedes s hs
    · exact Or.inl (List.mem_singleton.mp hs)
  case ordered =>
    refine List.pairwise_append.mpr ⟨h.ordered, List.pairwise_singleton _ _, ?_⟩
    intro s hs s' hs'
    rw [List.mem_singleton.mp hs']
    exact h.supersedes s hs
  case revoked =>
    intro s hs hrevoked
    rcases List.mem_append.mp hs with hs | hs
    · exact h.revoked s hs hrevoked
    · exact (List.mem_singleton.mp hs).symm

/-- Earlier statements stay superseded by one that follows the current one. -/
theorem Supersedes.follows {s current next : GatewayStatement} {now : Time}
    (h : Supersedes s current) (hf : Follows next current now) :
    s.revision < next.revision ∧ s.issuedAt ≤ next.issuedAt := by
  rcases h with rfl | ⟨hrevision, hissued⟩
  · exact ⟨hf.revision, hf.issuedAt⟩
  · exact ⟨Nat.lt_trans hrevision hf.revision, Int.le_trans hissued hf.issuedAt⟩

theorem Inv.replace {now : Time} {s : GatewayStatement} (h : Inv a events)
    (hf : Follows s a.current now) :
    Inv ((a.observed now).replace s now) (events ++ [.accepted s now]) := by
  have haccepted : acceptedStatements (events ++ [.accepted s now]) =
      acceptedStatements events ++ [s] := by simp [acceptedStatements, Event.statement?]
  have hearlier : ∀ s' ∈ acceptedStatements events,
      s'.revision < s.revision ∧ s'.issuedAt ≤ s.issuedAt :=
    fun s' hs' => (h.supersedes s' hs').follows hf
  constructor
  case unset => simp [haccepted]
  case last => simp [haccepted, Authorization.replace]
  case lastWall => rfl
  case clock =>
    rw [show walls (events ++ [.accepted s now]) = walls events ++ [now.wall] by
      simp [walls, Event.now]]
    exact h.clock_observed
  case deadline =>
    intro _ hrevoked
    change s.revoked = false at hrevoked
    refine ⟨now, ⟨events, [], rfl, fun hs => ?_⟩, ?_⟩
    · exact Nat.lt_irrefl _ (hearlier s hs).1
    · simp [Authorization.replace, hrevoked, deadlineAt]
  all_goals rw [haccepted]
  case supersedes =>
    intro s' hs'
    rcases List.mem_append.mp hs' with hs' | hs'
    · exact Or.inr (hearlier s' hs')
    · exact Or.inl (List.mem_singleton.mp hs')
  case ordered =>
    refine List.pairwise_append.mpr ⟨h.ordered, List.pairwise_singleton _ _, ?_⟩
    intro s' hs' s'' hs''
    rw [List.mem_singleton.mp hs'']
    exact Or.inr (hearlier s' hs')
  case revoked =>
    intro s' hs' hrevoked
    rcases List.mem_append.mp hs' with hs' | hs'
    · have hcurrent := h.revoked s' hs' hrevoked
      rw [← hcurrent, hf.open_] at hrevoked
      cases hrevoked
    · exact (List.mem_singleton.mp hs').symm

structure ValidOk (before : List Event) (now : Time) : Prop where
  unrevoked : ∀ s ∈ acceptedStatements before, s.revoked = false
  no_rollback : (walls before ++ [now.wall]).Pairwise (· ≤ ·)
  grant : ∃ s t, (acceptedStatements before).getLast? = some s ∧
    now.unixSeconds < s.expiresAt ∧ FirstAccepted before s t ∧
    now.before (deadlineAt s t) = true

def EventOk (before : List Event) : Event → Prop
  | .status .valid now => ValidOk before now
  | _ => True

theorem Inv.valid {now : Time} {a' : Authorization S} (h : Inv a events)
    (hs : a.step J (.status now) = (a', .status .valid now)) : ValidOk events now := by
  obtain ⟨hclock, hrevoked, hrevision, hexpires, hdeadline⟩ := step_status_valid hs
  have hne : acceptedStatements events ≠ [] := by
    intro hnil
    exact hrevision (by rw [h.unset hnil]; rfl)
  obtain ⟨t, hfirst, hd⟩ := h.deadline hne hrevoked
  refine ⟨?_, (h.clock_observed hclock).1, a.current, t, h.last hne, hexpires, hfirst, hd ▸ hdeadline⟩
  intro s hs
  by_contra hr
  have hcurrent := h.revoked s hs (by simpa using hr)
  rw [hcurrent] at hrevoked
  exact hr hrevoked

/-- One call keeps the invariant, and its event is admissible. -/
theorem Inv.step (h : Inv a events) (call : Call) :
    Inv (a.step J call).1 (events ++ [(a.step J call).2]) ∧
      EventOk events (a.step J call).2 := by
  cases call with
  | accept wire now =>
      rcases step_accept_cases (J := J) (a := a) wire now with
        heq | ⟨s, hv, ⟨rfl, heq⟩ | ⟨hs, hf, heq⟩⟩
      · rw [heq]
        exact ⟨h.observe (e := .rejected now) rfl, trivial⟩
      · rw [heq]
        exact ⟨h.replay (revision_ne_zero hv.verified), trivial⟩
      · rw [heq]
        exact ⟨h.replace hf, trivial⟩
  | status now =>
      obtain ⟨result, heq⟩ : ∃ result, a.step J (.status now) =
          (a.observed now, .status result now) :=
        ⟨_, Prod.ext (step_status_fst now) rfl⟩
      rw [heq]
      refine ⟨h.observe (e := .status result now) rfl, ?_⟩
      cases result with
      | valid => exact h.valid heq
      | _ => trivial

theorem Inv.run (h : Inv a events) (hc : Checked EventOk events) (calls : List Call) :
    Inv (a.run J calls).1 (events ++ (a.run J calls).2) ∧
      Checked EventOk (events ++ (a.run J calls).2) := by
  induction calls generalizing a events with
  | nil => simpa [Authorization.run] using ⟨h, hc⟩
  | cons call calls ih =>
      obtain ⟨hstep, hevent⟩ := h.step (J := J) call
      simpa [Authorization.run] using ih hstep (hc.snoc hevent)

/-- Replays of the current statement keep the statement and its deadline. -/
theorem run_replays {calls : List Call}
    (h : ∀ call ∈ calls, ∃ wire now, call = .accept wire now ∧
      verifyGatewayStatement S J wire a.key = some a.current) :
    (a.run J calls).1.current = a.current ∧ (a.run J calls).1.deadline = a.deadline := by
  induction calls generalizing a with
  | nil => exact ⟨rfl, rfl⟩
  | cons call calls ih =>
      obtain ⟨wire, now, rfl, hv⟩ := h call (by simp)
      have hstep : (a.step J (.accept wire now)).1 = a.observed now := by
        rcases step_accept_cases (J := J) (a := a) wire now with
          heq | ⟨s, hs, ⟨-, heq⟩ | ⟨hne, -, -⟩⟩
        · rw [heq]
        · rw [heq]
        · have hcurrent := hs.verified
          rw [hv] at hcurrent
          cases hcurrent
          exact absurd rfl hne
      have htail : ∀ call ∈ calls, ∃ wire now', call = .accept wire now' ∧
          verifyGatewayStatement S J wire (a.observed now).key = some (a.observed now).current :=
        fun call hcall => h call (List.mem_cons_of_mem _ hcall)
      simpa [Authorization.run, hstep] using ih htail

structure HistorySpec (J : Codec GatewayStatement) (a₀ : Authorization S) (calls : List Call) :
    Prop where
  ordered : (acceptedStatements (a₀.run J calls).2).Pairwise Supersedes
  valid : ∀ before now after, (a₀.run J calls).2 = before ++ .status .valid now :: after →
    ValidOk before now
  rejected : ∀ wire now a', (a₀.run J calls).1.step J (.accept wire now) = (a', .rejected now) →
    a' = { (a₀.run J calls).1 with lastWall := a'.lastWall, clockUnsafe := a'.clockUnsafe }
  replayed : ∀ replays, (∀ call ∈ replays, ∃ wire now, call = .accept wire now ∧
      verifyGatewayStatement S J wire (a₀.run J calls).1.key = some (a₀.run J calls).1.current) →
    ((a₀.run J calls).1.run J replays).1.deadline = (a₀.run J calls).1.deadline

theorem step_rejected {wire : Bytes} {now : Time} {a' : Authorization S}
    (h : a.step J (.accept wire now) = (a', .rejected now)) : a' = a.observed now := by
  rcases step_accept_cases (J := J) (a := a) wire now with
    heq | ⟨s, -, ⟨-, heq⟩ | ⟨-, -, heq⟩⟩
  · exact (Prod.mk.inj (h.symm.trans heq)).1
  · cases (Prod.mk.inj (h.symm.trans heq)).2
  · cases (Prod.mk.inj (h.symm.trans heq)).2

/-- The state machine of the local authorization, over every history. -/
theorem history_spec (J : Codec GatewayStatement) (key : S.PublicKey)
    (binding : GatewayAuthorizationBinding) (a₀ : Authorization S)
    (h : new key binding = some a₀) (calls : List Call) : HistorySpec J a₀ calls := by
  obtain ⟨hinv, hchecked⟩ := (inv_new h).run (J := J) Checked.nil calls
  rw [List.nil_append] at hinv hchecked
  constructor
  case ordered => exact hinv.ordered
  case valid => exact fun before now after heq => hchecked before _ after heq
  case rejected =>
    intro wire now a' hstep
    rw [step_rejected hstep]
    rfl
  case replayed => exact fun replays hreplays => (run_replays hreplays).2

/-! ## A computed history -/

/-- A signature scheme of 64 zero bytes and a codec of one-byte grants. -/
def sampleSigning : Signing := ⟨Unit, Unit, id, fun _ _ => List.replicate 64 0, fun _ _ _ => true⟩

def sampleID : UUID := 0x00000000000070008000000000000000

def sampleBinding : GatewayAuthorizationBinding :=
  ⟨sampleID, sampleID, sampleID, sampleID, sampleID, sampleID, sampleID, sampleID, sampleID,
    sampleID, sampleID, List.replicate 64 '0'⟩

def sampleGrant (revision : ℕ) : GatewayStatement := ⟨sampleBinding, revision, 100, 200, false⟩

def sampleCodec : Codec GatewayStatement where
  marshal := fun s => [s.revision.toUInt8]
  unmarshal := fun bytes => bytes.head?.map fun b => sampleGrant b.toNat

def sampleTime (seconds mono : ℤ) : Time := ⟨(Time.ofUnix seconds).wall, some mono⟩

def sampleAuthorization : Authorization sampleSigning :=
  ⟨(), sampleBinding, .zero, .zero, .zero, .zero, false⟩

def sampleCalls : List Call :=
  [.accept (1 :: List.replicate 64 0) (sampleTime 150 7), .status (sampleTime 160 8)]

/-- A grant that is accepted and then found valid. -/
theorem history_spec_grant :
    (sampleAuthorization.run sampleCodec sampleCalls).2 =
      [.accepted (sampleGrant 1) (sampleTime 150 7), .status .valid (sampleTime 160 8)] ∧
    HistorySpec sampleCodec sampleAuthorization sampleCalls :=
  ⟨by decide, history_spec sampleCodec () sampleBinding sampleAuthorization rfl sampleCalls⟩

end RestFleet.Authorization
