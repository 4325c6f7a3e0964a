import RestFleet.Verification.Session.Requests

/-! # The request handlers of a session -/

namespace RestFleet.Session

open Outline

variable {cfg : Config} {sha256 : Bytes → Bytes} {t : ℕ} {path : Text}

/-- The assertion of a mutating handler between its steps. -/
abbrev Writing (t : ℕ) : State → Prop := Held t none fun _ _ => True

theorem Held.writing {F : List (Text × Bool) → List Event → Prop} {s : State}
    (h : Held t none F s) : Writing t s :=
  h.mono fun _ => trivial

theorem stable_writing : (outline cfg sha256).Stable t (Writing t) := stable_held lasting_true

theorem Triple.toWriting {F : List (Text × Bool) → List Event → Prop} {p : Prog Outcome}
    (h : (outline cfg sha256).Triple t (Writing t) p fun _ => Writing t) :
    (outline cfg sha256).Triple t (Held t none F) p fun _ => Writing t :=
  h.conseq (fun _ h => h.writing) fun _ _ _ h => h

theorem done_writing {F : List (Text × Bool) → List Event → Prop} (hF : Lasting F)
    (outcome : Outcome) :
    (outline cfg sha256).Triple t (Held t none F) (.done outcome) fun _ => Writing t :=
  Triple.done (stable_held hF) fun _ _ h => h.writing

/-! ## Creating an object -/

/-- The session answers for the lock at `path`. -/
def Ownable (path : Text) (locks : List (Text × Bool)) (log : List Event) : Prop :=
  path ∈ locks.map Prod.fst ∧ IsLock path ∧ Confirmed log path ∧ ¬ Deleted log path

theorem lasting_ownable : Lasting (Ownable path) := by
  intro locks log new hnew h
  exact ⟨h.1, h.2.1, h.2.2.1.append, fun hd => h.2.2.2 ((deleted_append_iff hnew).mp hd)⟩

theorem confirmLock_triple :
    (outline cfg sha256).Triple t (Held t none (Ownable path)) (confirmLock path)
      fun _ => Writing t := by
  have hs : (outline cfg sha256).Stable t (Held t none (Ownable path)) :=
    stable_held lasting_ownable
  refine Triple.quiet hs (quietOp_observes rfl) ?_
  intro requestErr
  cases requestErr with
  | true => exact Triple.done hs fun _ _ h => h.writing
  | false =>
      refine Triple.quiet hs (quietOp_observes rfl) ?_
      intro sessionErr
      cases sessionErr with
      | true => exact Triple.done hs fun _ _ h => h.writing
      | false =>
          refine Triple.step hs (R := fun _ => Writing t) ?_ ?_
          · intro s r s' hi h ha
            exact setLock_allows hi h (Or.inl h.fact.1) (fun _ => h.fact.2) trivial ha
          · exact fun _ => Triple.done stable_writing fun _ _ h => h

/-- The path was probed and, when it is a lock, reserved and never used before. -/
def Reserved (path : Text) (locks : List (Text × Bool)) (log : List Event) : Prop :=
  Probed log path ∧ (IsLock path → path ∈ locks.map Prod.fst ∧ ¬ Posted log path ∧
    ¬ Deleted log path)

theorem lasting_reserved : Lasting (Reserved path) := by
  intro locks log new hnew h
  refine ⟨h.1.append hnew, fun hl => ?_⟩
  rw [posted_append_iff hnew, deleted_append_iff hnew]
  exact h.2 hl

/-- A posted lock that was never deleted. -/
def Undeleted (path : Text) (locks : List (Text × Bool)) (log : List Event) : Prop :=
  IsLock path → path ∈ locks.map Prod.fst ∧ ¬ Deleted log path

theorem lasting_undeleted : Lasting (Undeleted path) := by
  intro locks log new hnew h hl
  rw [deleted_append_iff hnew]
  exact h hl

theorem Forwarded.ownable {body : Bytes} {r : Except RequestError Response}
    {response : Response} {locks : List (Text × Bool)} {log : List Event}
    (h : Forwarded (Undeleted path) .post path body r locks log) (hr : r = .ok response)
    (hstatus : response.status = 200) (hlock : IsLock path) : Ownable path locks log := by
  obtain ⟨hk, id, before, middle, hlog, hmem⟩ := h response hr
  obtain ⟨hkeys, hdel⟩ := hk hlock
  exact ⟨hkeys, hlock, ⟨before, id, body, middle, response, hlog, hmem, hstatus⟩, hdel⟩

theorem postObject_triple (hreader : cfg.reader = none) {body : Bytes}
    (hpath : ObjectPath path (Text.hexEncode (sha256 body))) {isLock : Bool}
    (hlock : isLock = true → IsLock path) :
    (outline cfg sha256).Triple t (Held t none (Reserved path))
      (postObject cfg path body isLock) fun _ => Writing t := by
  have hF : Lasting (Undeleted path) := lasting_undeleted
  have hK : ∀ r, Lasting (Forwarded (Undeleted path) .post path body r) :=
    fun r => lasting_forwarded hF r
  unfold postObject
  refine Triple.bind (request_triple (Or.inl rfl) lasting_reserved hF ?_ ?_) ?_
  · intro locks log h
    exact ⟨⟨hreader, hpath, h.1, fun hl => (h.2 hl).2.1⟩, fun _ hl => (h.2 hl).1, by simp⟩
  · intro locks log id h hl
    refine ⟨(h.2 hl).1, ?_⟩
    rintro ⟨id', body', hmem⟩
    rcases List.mem_append.mp hmem with hmem | hmem
    · exact (h.2 hl).2.2 ⟨id', body', hmem⟩
    · cases List.mem_singleton.mp hmem
  · intro r
    cases r with
    | error e => exact done_writing (hK _) _
    | ok response =>
        dsimp only
        by_cases hstatus : response.status = 200
        · rw [if_neg (not_not.mpr hstatus)]
          cases isLock with
          | true =>
              refine Triple.bind (confirmLock_triple.conseq ?_ fun _ _ _ h => h) ?_
              · exact fun s h => h.mono fun hf => hf.ownable rfl hstatus (hlock rfl)
              · exact fun _ => done_writing lasting_true _
          | false => exact done_writing (hK _) _
        · rw [if_pos hstatus]
          exact done_writing (hK _) _

/-- The path is not in use as a lock and the map has room for it. -/
def Fresh (path : Text) (locks : List (Text × Bool)) (_ : List Event) : Prop :=
  IsLock path → locks.lookup path = none ∧ locks.length < maxLocks

theorem lasting_fresh : Lasting (Fresh path) := lasting_locks

theorem not_mem_keys_of_lookup {locks : List (Text × Bool)} (h : locks.lookup path = none) :
    path ∉ locks.map Prod.fst := by
  induction locks with
  | nil => simp
  | cons entry locks ih => grind

theorem Inv.not_posted {s : State} (hi : Inv cfg sha256 s) (hc : s.closed = false)
    (hlock : IsLock path) (h : s.locks.lookup path = none) :
    ¬ Posted s.log path ∧ ¬ Deleted s.log path := by
  have hp : ¬ Posted s.log path := by
    intro hp
    exact not_mem_keys_of_lookup h (hi.posted hc path (mem_postedLocks.mpr ⟨hlock, hp⟩))
  exact ⟨hp, fun hd => hp (posted_of_deleted hi.log hd)⟩

theorem probeObject_triple (hreader : cfg.reader = none) {body : Bytes}
    (hpath : ObjectPath path (Text.hexEncode (sha256 body))) {isLock : Bool}
    (hlock : isLock = true ↔ IsLock path) :
    (outline cfg sha256).Triple t (Held t none (Fresh path))
      (probeObject cfg path body isLock) fun _ => Writing t := by
  have hres : ∀ r, Lasting (ProbeResult (Fresh path) path r) :=
    fun r => lasting_probeResult lasting_fresh r
  unfold probeObject
  refine (request_probe_triple lasting_fresh).bind ?_
  intro r
  cases r with
  | error e => exact done_writing (hres _) _
  | ok probe =>
      dsimp only
      by_cases hstatus : probe.status = 404
      · rw [if_neg (not_not.mpr hstatus)]
        cases isLock with
        | true =>
            refine Triple.step (stable_held (hres _)) (R := fun _ => Held t none (Reserved path))
              ?_ fun _ => postObject_triple hreader hpath fun _ => hlock.mp rfl
            intro s r s' hi h ha
            obtain ⟨hfresh, hprobed⟩ := h.fact
            obtain ⟨hnone, hroom⟩ := hfresh (hlock.mp rfl)
            refine setLock_allows hi h (Or.inr hroom) (by simp) ?_ ha
            exact ⟨hprobed probe rfl hstatus, fun hl => ⟨by simp [assign],
              hi.not_posted h.inside.2 hl hnone⟩⟩
        | false =>
            refine (postObject_triple hreader hpath (by simp)).conseq ?_ fun _ _ _ h => h
            exact fun s h => h.mono fun hf => ⟨hf.2 probe rfl hstatus,
              fun hl => absurd (hlock.mpr hl) Bool.false_ne_true⟩
      · rw [if_pos hstatus]
        by_cases hok : probe.status = 200
        · rw [if_pos hok]
          exact Triple.toWriting (deny_triple stable_writing _ _ _)
        · rw [if_neg hok]
          exact done_writing (hres _) _

/-- A path that passed the checks before the write semaphore. -/
def Writable (path : Text) : Prop :=
  ∃ name, ObjectPath path name ∧ (path.cut '/').map Prod.snd = some name

theorem createObject_triple (hreader : cfg.reader = none) (hpath : Writable path) (r : Request)
    {isLock : Bool} (hlock : isLock = true ↔ IsLock path) :
    (outline cfg sha256).Triple t (Held t none (Fresh path))
      (createObject cfg sha256 r path isLock) fun _ => Writing t := by
  have hs : (outline cfg sha256).Stable t (Held t none (Fresh path)) := stable_held lasting_fresh
  have hdeny : ∀ reason status, (outline cfg sha256).Triple t (Held t none (Fresh path))
      (deny cfg true reason status) fun _ => Writing t :=
    fun reason status => Triple.toWriting (deny_triple stable_writing _ _ _)
  unfold createObject
  split
  · exact hdeny _ _
  · refine Triple.quiet hs (quietOp_observes rfl) ?_
    intro body
    cases body with
    | none => exact hdeny _ _
    | some body =>
        refine Triple.quiet hs (quietOp_observes rfl) ?_
        intro requestErr
        cases requestErr with
        | true => exact hdeny _ _
        | false =>
            obtain ⟨name, hobject, hname⟩ := hpath
            change (outline cfg sha256).Triple t _ (ite _ _ _) _
            split
            · exact hdeny _ _
            · rename_i heq
              rw [hname, not_not, Option.some.injEq] at heq
              exact probeObject_triple hreader (heq ▸ hobject) hlock

/-- What an observation of the map tells its holder lasts. -/
theorem observe_held {F : List (Text × Bool) → List Event → Prop} {op : Op}
    {G : Reply op → List (Text × Bool) → Prop} {k : Reply op → Prog Outcome}
    {Q : Outcome → State → Prop} (hop : op.observes = true) (hF : Lasting F)
    (hG : ∀ s r s', act t op s r s' → G r s.locks)
    (hk : ∀ r, (outline cfg sha256).Triple t
      (Held t none fun locks log => F locks log ∧ G r locks) (k r) Q) :
    (outline cfg sha256).Triple t (Held t none F) (.step op k) Q := by
  refine Triple.step (stable_held hF) (R := fun r => Held t none
    fun locks log => F locks log ∧ G r locks) ?_ hk
  intro s r s' hi h ha
  have hfact := hG s r s' ha
  obtain rfl := eq_of_observes hop ha
  exact ⟨⟨hi, fun u _ => Rely.refl u s'⟩, h.mono fun hf => ⟨hf, hfact⟩⟩

theorem create_triple (hreader : cfg.reader = none) (hpath : Writable path) (r : Request) :
    (outline cfg sha256).Triple t (Writing t) (create cfg sha256 r path)
      fun _ => Writing t := by
  unfold create
  split
  · rename_i hstarts
    have hlock : IsLock path := (Text.hasPrefix_iff _ _).mp hstarts
    refine observe_held (G := fun entry locks => locks.lookup path = entry) rfl lasting_true
      (fun _ _ _ h => h.1.symm) ?_
    intro entry
    cases entry with
    | some confirmed => exact Triple.toWriting (deny_triple stable_writing _ _ _)
    | none =>
        refine observe_held (G := fun n locks => locks.length = n) rfl
          (lasting_true.and lasting_locks) (fun _ _ _ h => h.1.symm) ?_
        intro n
        change (outline cfg sha256).Triple t _ (ite _ _ _) _
        split
        · exact Triple.toWriting (deny_triple stable_writing _ _ _)
        · rename_i hroom
          refine (createObject_triple hreader hpath r (by simp [hlock])).conseq ?_
            fun _ _ _ h => h
          intro s h
          refine h.mono ?_
          rintro ⟨⟨-, hnone⟩, hlength⟩ -
          exact ⟨hnone, hlength ▸ Nat.lt_of_not_ge hroom⟩
  · rename_i hstarts
    have hlock : ¬ IsLock path := fun h => hstarts ((Text.hasPrefix_iff _ _).mpr h)
    refine (createObject_triple hreader hpath r (by simp [hlock])).conseq ?_ fun _ _ _ h => h
    exact fun s h => h.mono fun _ hl => absurd hl hlock

/-! ## Removing a lock -/

/-- The lock is owned, reserved again and not deleted yet. -/
def Deletable (path : Text) (locks : List (Text × Bool)) (log : List Event) : Prop :=
  locks.lookup path = some false ∧ IsLock path ∧ Confirmed log path ∧ ¬ Deleted log path

theorem lasting_deletable : Lasting (Deletable path) := by
  intro locks log new hnew h
  exact ⟨h.1, h.2.1, h.2.2.1.append, fun hd => h.2.2.2 ((deleted_append_iff hnew).mp hd)⟩

theorem removeLock_triple (hreader : cfg.reader = none) :
    (outline cfg sha256).Triple t (Writing t) (removeLock cfg path) fun _ => Writing t := by
  refine observe_held (G := fun entry locks => locks.lookup path = entry) rfl lasting_true
    (fun _ _ _ h => h.1.symm) ?_
  intro entry
  have hF : Lasting fun locks _ => True ∧ locks.lookup path = entry :=
    lasting_true.and lasting_locks
  change (outline cfg sha256).Triple t _ (ite _ _ _) _
  split
  · exact Triple.toWriting (deny_triple stable_writing _ _ _)
  · rename_i hentry
    have hentry : entry = some true := by
      cases entry with
      | none => simp at hentry
      | some confirmed => simpa using hentry
    refine Triple.quiet (stable_held hF) (quietOp_audit (by simp)) ?_
    intro recorded
    cases recorded with
    | false => exact done_writing hF _
    | true =>
        refine Triple.step (stable_held hF) (R := fun _ => Held t none (Deletable path)) ?_ ?_
        · intro s r s' hi h ha
          have hlookup := h.fact.2.trans hentry
          refine setLock_allows hi h (Or.inl (mem_keys_of_lookup hlookup)) (by simp) ?_ ha
          exact ⟨by simp [lookup_assign], hi.owned path hlookup⟩
        · intro _
          change (outline cfg sha256).Triple t _ (request cfg .delete path [] [] >>= _) _
          refine Triple.bind (request_triple (Or.inr rfl) lasting_deletable lasting_true ?_ ?_) ?_
          · intro locks log h
            exact ⟨⟨hreader, h.2⟩, by simp, fun _ => by simp [h.1]⟩
          · exact fun _ _ _ _ => trivial
          · intro answer
            have hdone : ∀ outcome, (outline cfg sha256).Triple t
                (Held t none (Forwarded (fun _ _ => True) .delete path [] answer))
                (.done outcome) fun _ => Writing t :=
              done_writing (lasting_forwarded lasting_true answer)
            cases answer with
            | error e => exact hdone _
            | ok response =>
                dsimp only
                split
                · exact hdone _
                · exact hdone _

end RestFleet.Session
