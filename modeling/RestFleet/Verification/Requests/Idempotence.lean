import RestFleet.Verification.Requests.Sound

/-! # One effect for each key -/

namespace RestFleet.Requests

open Backup (requestLifetime)

def Entry.effective (e : Entry) : Bool :=
  match e.outcome with
  | .effect .. => true
  | _ => false

def Entry.response? (e : Entry) : Option Response :=
  match e.outcome with
  | .effect _ response _ => some response
  | .replayed _ response => some response
  | .refused _ => none

/-- The clock was read for the request in the 24 hours from `window` on. -/
def Entry.Within (window : Stamp) (e : Entry) : Prop :=
  let inside t := window ≤ t ∧ t < window + requestLifetime
  match e.outcome with
  | .effect lookedUpAt _ savedAt => inside lookedUpAt ∧ inside savedAt
  | .replayed lookedUpAt _ => inside lookedUpAt
  | .refused _ => True

def Entry.effectOf (i : Identity) (e : Entry) : Bool := e.identity = i && e.effective

def effects (i : Identity) (entries : List Entry) : List Entry := entries.filter (·.effectOf i)

/-- What idempotency promises about the requests of one identity. -/
structure Once (i : Identity) (entries : List Entry) : Prop where
  /-- At most one request takes effect. -/
  single : (effects i entries).length ≤ 1
  /-- Success returns the operation of the one that took effect. -/
  repeated : ∀ e ∈ entries, e.identity = i → ∀ x, e.response? = some x →
    ∃ f ∈ effects i entries, f.body = e.body ∧ f.response? = some x
  /-- Another body is refused. -/
  refused : ∀ f ∈ effects i entries, ∀ e ∈ entries, e.identity = i → e.body ≠ f.body →
    ∃ error, e.outcome = .refused error

def Unused (i : Identity) (entries : List Entry) : Prop :=
  ∀ e ∈ entries, e.identity = i → e.response? = none

/-- Requests of the identity succeed with the response of `f`, which took effect. -/
structure Settled (i : Identity) (f : Entry) (entries : List Entry) : Prop where
  effects : effects i entries = [f]
  answers : ∀ e ∈ entries, e.identity = i → ∀ x, e.response? = some x →
    f.body = e.body ∧ f.response? = some x

section Entries

variable {i : Identity} {entries : List Entry} {e f : Entry}

theorem refused_of_response_none (h : e.response? = none) : ∃ error, e.outcome = .refused error := by
  unfold Entry.response? at h
  split at h
  · cases h
  · cases h
  · exact ⟨_, ‹_›⟩

theorem effects_snoc_of_not (h : e.effectOf i = false) :
    effects i (entries ++ [e]) = effects i entries := by
  rw [effects, List.filter_append, List.filter_cons_of_neg (by simp [h]), List.filter_nil,
    List.append_nil]
  rfl

theorem effects_of_unused (h : Unused i entries) : effects i entries = [] := by
  refine List.filter_eq_nil_iff.mpr fun e he => ?_
  rw [Entry.effectOf, Bool.and_eq_true, decide_eq_true_eq, not_and]
  intro hi heffective
  obtain ⟨error, houtcome⟩ := refused_of_response_none (h e he hi)
  rw [Entry.effective, houtcome] at heffective
  cases heffective

theorem Unused.once (h : Unused i entries) : Once i entries where
  single := by
    rw [effects_of_unused h]
    exact Nat.zero_le _
  repeated e he hi x hx := by
    rw [h e he hi] at hx
    cases hx
  refused f hf := by
    rw [effects_of_unused h] at hf
    cases hf

theorem Settled.once (h : Settled i f entries) : Once i entries where
  single := by
    rw [h.effects]
    exact Nat.le_refl _
  repeated e he hi x hx :=
    ⟨f, by rw [h.effects]; exact List.mem_singleton_self f, h.answers e he hi x hx⟩
  refused g hg e he hi hbody := by
    rw [h.effects, List.mem_singleton] at hg
    subst hg
    refine refused_of_response_none (Option.eq_none_iff_forall_ne_some.mpr fun x hx => ?_)
    exact hbody (h.answers e he hi x hx).1.symm

end Entries

/-- How far the requests of an identity have come within the window, from the record `first` to the
record `m`. -/
inductive Stage (i : Identity) (window : Stamp) (first : Option Memory) (entries : List Entry)
    (m : Option Memory) : Prop where
  | unused (h : Unused i entries) (hm : m = first)
  | settled (f : Entry) (r : Memory) (h : Settled i f entries) (hm : m = some r)
      (hbody : f.body = r.body) (hresponse : f.response? = some r.response)
      (hlive : window + requestLifetime ≤ r.expiresAt)

namespace Stage

variable {i : Identity} {window : Stamp} {first m : Option Memory} {entries : List Entry} {e : Entry}

theorem once (h : Stage i window first entries m) : Once i entries := by
  cases h with
  | unused h => exact h.once
  | settled f r h => exact h.once

/-- An entry of another identity, or an error, leaves everything as it is. -/
theorem skip (h : Stage i window first entries m) (he : e.identity = i → e.response? = none) :
    Stage i window first (entries ++ [e]) m := by
  have hnot : e.effectOf i = false := by
    by_cases hi : e.identity = i
    · obtain ⟨error, houtcome⟩ := refused_of_response_none (he hi)
      simp [Entry.effectOf, Entry.effective, houtcome]
    · simp [Entry.effectOf, hi]
  cases h with
  | unused h hm =>
      refine .unused (fun x hx hi => ?_) hm
      rcases List.mem_append.mp hx with hx | hx
      · exact h x hx hi
      · rw [List.mem_singleton.mp hx] at hi ⊢
        exact he hi
  | settled f r h hm hbody hresponse hlive =>
      refine .settled f r ⟨?_, fun x hx hi y hy => ?_⟩ hm hbody hresponse hlive
      · rw [effects_snoc_of_not hnot, h.effects]
      · rcases List.mem_append.mp hx with hx | hx
        · exact h.answers x hx hi y hy
        · rw [List.mem_singleton.mp hx] at hi hy
          rw [he hi] at hy
          cases hy

theorem effect {lookedUpAt savedAt : Stamp} {x : Response} (h : Stage i window first entries m)
    (hi : e.identity = i) (he : e.outcome = .effect lookedUpAt x savedAt)
    (hwithin : e.Within window) (hfound : Found e.body lookedUpAt none m) :
    Stage i window first (entries ++ [e]) (some ⟨e.body, x, savedAt + requestLifetime⟩) := by
  rw [Entry.Within, he] at hwithin
  have hresponse : e.response? = some x := by rw [Entry.response?, he]
  cases h with
  | unused h hm =>
      refine .settled e _ ⟨?_, fun y hy hyi z hz => ?_⟩ rfl rfl hresponse
        (Int.add_le_add_right hwithin.2.1 _)
      · have heffective : e.effectOf i = true := by
          simp [Entry.effectOf, hi, Entry.effective, he]
        rw [effects, List.filter_append, List.filter_cons_of_pos heffective, List.filter_nil]
        exact congrArg (· ++ [e]) (effects_of_unused h)
      · rcases List.mem_append.mp hy with hy | hy
        · rw [h y hy hyi] at hz
          cases hz
        · rw [List.mem_singleton.mp hy] at hz ⊢
          exact ⟨rfl, hz⟩
  | settled f r h hm hbody hresponse hlive =>
      have hexpired : r.expiresAt ≤ lookedUpAt := hfound r hm
      have hinside : lookedUpAt < window + requestLifetime := hwithin.1.2
      exact absurd hlive (not_le.mpr (hexpired.trans_lt hinside))

theorem replayed {lookedUpAt : Stamp} {x : Response} (h : Stage i window first entries m)
    (hfresh : ∀ r, first = some r → r.expiresAt ≤ window)
    (he : e.outcome = .replayed lookedUpAt x)
    (hwithin : e.Within window) (hfound : Found e.body lookedUpAt (some x) m) :
    Stage i window first (entries ++ [e]) m := by
  rw [Entry.Within, he] at hwithin
  obtain ⟨r, hr, hbefore, hbody, hx⟩ := hfound
  have hresponse : e.response? = some x := by rw [Entry.response?, he]
  cases h with
  | unused h hm =>
      have hexpired : r.expiresAt ≤ window := hfresh r (hm.symm.trans hr)
      have hinside : window ≤ lookedUpAt := hwithin.1
      exact absurd hbefore (not_lt.mpr (hexpired.trans hinside))
  | settled f r' h hm hbody' hresponse' hlive =>
      cases hm.symm.trans hr
      refine .settled f r ⟨?_, fun y hy hi z hz => ?_⟩ hm hbody' hresponse' hlive
      · rw [effects_snoc_of_not (by simp [Entry.effectOf, Entry.effective, he]), h.effects]
      · rcases List.mem_append.mp hy with hy | hy
        · exact h.answers y hy hi z hz
        · rw [List.mem_singleton.mp hy] at hz ⊢
          rw [hresponse] at hz
          cases hz
          exact ⟨hbody'.trans hbody, hresponse'.trans (congrArg some hx)⟩

theorem step {memory : Identity → Option Memory} {before : List Entry}
    (h : Stage i window first entries (recalled i (memory i) before))
    (hfresh : ∀ r, first = some r → r.expiresAt ≤ window)
    (hwithin : e.identity = i → e.Within window) (hfits : e.Fits memory before) :
    Stage i window first (entries ++ [e]) (recalled i (memory i) (before ++ [e])) := by
  rw [recalled_snoc]
  by_cases hi : e.identity = i
  · have hw := hwithin hi
    rw [Entry.Fits, hi] at hfits
    cases he : e.outcome with
    | effect lookedUpAt x savedAt =>
        rw [he] at hfits
        rw [Entry.update, if_pos hi, Entry.memory, he]
        exact h.effect hi he hw hfits
    | replayed lookedUpAt x =>
        rw [he] at hfits
        rw [update_of_memory_none (by rw [Entry.memory, he])]
        exact h.replayed hfresh he hw hfits
    | refused error =>
        rw [update_of_memory_none (by rw [Entry.memory, he])]
        exact h.skip fun _ => by rw [Entry.response?, he]
  · rw [update_of_ne hi]
    exact h.skip fun heq => absurd heq hi

theorem run {memory : Identity → Option Memory} {before after : List Entry}
    (hfresh : ∀ r, recalled i (memory i) before = some r → r.expiresAt ≤ window)
    (hwithin : ∀ e ∈ after, e.identity = i → e.Within window)
    (hfits : Checked (Entry.Fits memory) (before ++ after)) :
    Stage i window (recalled i (memory i) before) after (recalled i (memory i) (before ++ after)) := by
  induction after using List.reverseRecOn with
  | nil =>
      rw [List.append_nil]
      exact .unused (fun _ he => nomatch he) rfl
  | append_singleton after e ih =>
      rw [← List.append_assoc] at hfits ⊢
      have hstarts := ih (fun x hx => hwithin x (List.mem_append_left _ hx)) hfits.of_append
      exact hstarts.step hfresh (hwithin e (by simp)) hfits.last

end Stage

open Backup (sampleID)

def sampleStart : Database :=
  ⟨Backup.sampleStart, Snapshots.sampleStore, Table.empty, Table.empty, []⟩

def sampleKey (body : UInt8) : Backup.RequestKey :=
  ⟨List.replicate 32 1, List.replicate 32 2, List.replicate 32 body⟩

/-- A call arrives on a connection, or goes on for a number of statements at a time. -/
inductive Move where
  | call (t : ℕ) (c : Call)
  | go (t n : ℕ) (now : Stamp)

def Move.turn (site : Store.Site) : Move → Tx.Turn schema
  | .call t c => .spawn t (c.program site)
  | .go t n now =>
    .run t (fun
      | .backup .clock => now
      | .backup (.skipLocked _) => false
      | .store q => Snapshots.sampleAnswer now q) n

def Move.Arrives (site : Store.Site) : Move → Prop
  | .call _ c => c.Arrives site
  | .go .. => True

instance : DecidableRel schema.conflicts := fun _ _ => inferInstanceAs (Decidable False)

def play (site : Store.Site) (start : Database) (moves : List Move) : Option (Tx.Machine schema) :=
  (Tx.Machine.start (M := schema) start).schedule (moves.map (Move.turn site))

theorem reachable_of_play {site : Store.Site} {start : Database} {moves : List Move}
    {m : Tx.Machine schema} (ha : ∀ move ∈ moves, move.Arrives site)
    (h : play site start moves = some m) :
    (server site).Reachable (Tx.State.initial start) ⟨m.state, m.threads⟩ := by
  refine Tx.schedule_reachable ?_ h
  intro turn hturn
  obtain ⟨move, hmove, rfl⟩ := List.mem_map.mp hturn
  cases move with
  | call t c => exact ⟨c, ha _ hmove, rfl⟩
  | go t n now => trivial

def sampleMoves : List Move :=
  [.call 0 (.create (sampleID 30) (.plan (sampleID 1)) (sampleKey 3)), .go 0 3 100,
    .call 1 (.create (sampleID 31) (.plan (sampleID 1)) (sampleKey 3)), .go 1 1 110,
    .go 0 100 120, .go 1 100 130,
    .call 2 (.create (sampleID 32) (.plan (sampleID 1)) (sampleKey 4)), .go 2 100 140]

instance (window : Stamp) (e : Entry) : Decidable (e.Within window) :=
  match e with
  | ⟨_, _, .effect _ _ _⟩ => inferInstanceAs (Decidable ((_ ∧ _) ∧ _ ∧ _))
  | ⟨_, _, .replayed _ _⟩ => inferInstanceAs (Decidable (_ ∧ _))
  | ⟨_, _, .refused _⟩ => inferInstanceAs (Decidable True)

end RestFleet.Requests
