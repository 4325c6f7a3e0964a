import RestFleet.Verification.Session.Writer

/-! # Forwarded requests

Reads disturb nobody. A probe by the holder of the write semaphore establishes `Probed`, and a
mutation leaves every forwarded mutation settled or the attempt unsafe to retry. -/

namespace RestFleet.Session

open Outline

variable {cfg : Config} {sha256 : Bytes → Bytes} {t : ℕ} {P : State → Prop}

@[simp] theorem perform_eq (op : Op) : perform op = .step op .done := rfl

theorem quiet_guardFails : (outline cfg sha256).Quiet t (guardFails cfg) := by
  unfold guardFails
  split
  · exact ⟨quietOp_observes rfl, fun _ => trivial⟩
  · trivial

theorem quiet_forward {m : Method} (hm : m = .get ∨ m = .head) (path : Text) (body : Bytes)
    (range : Text) : (outline cfg sha256).Quiet t (forward m path body range) :=
  ⟨quietOp_send hm _ _ _, fun id => ⟨quietOp_receive id, fun _ => ⟨quietOp_observes rfl,
    fun _ => ⟨quietOp_orFlags _, fun _ => trivial⟩⟩⟩⟩

theorem quiet_request {m : Method} (hm : m = .get ∨ m = .head) (path : Text) (body : Bytes)
    (range : Text) : (outline cfg sha256).Quiet t (request cfg m path body range) := by
  unfold request
  refine quiet_guardFails.bind ?_
  intro failed
  cases failed with
  | true => exact ⟨quietOp_orFlags _, fun _ => trivial⟩
  | false =>
      simp only [Bool.false_eq_true, if_false, perform_eq, Program.step_bind, Program.done_bind]
      refine ⟨quietOp_observes rfl, ?_⟩
      intro created
      cases created with
      | false => trivial
      | true =>
          have hpost : m ≠ .post := by rcases hm with rfl | rfl <;> simp
          simpa [hpost] using quiet_forward hm path body range

theorem quiet_read {r : Request} (hm : r.method = .get ∨ r.method = .head) (path : Text) :
    (outline cfg sha256).Quiet t (read cfg r path) := by
  unfold read
  refine (quiet_request hm path [] r.range).bind ?_
  intro answer
  cases answer with
  | error e => trivial
  | ok response =>
      dsimp only
      split
      · split
        · split
          · exact ⟨quietOp_orFlags _, fun _ => trivial⟩
          · trivial
        · trivial
      · split
        · refine ⟨quietOp_observes rfl, ?_⟩
          intro copied
          cases copied with
          | true => trivial
          | false => exact ⟨quietOp_orFlags _, fun _ => trivial⟩
        · trivial

/-- A denial first marks the attempt unless it is the request limit of an authenticated client. -/
theorem deny_triple (hP : (outline cfg sha256).Stable t P) (authenticated : Bool)
    (reason : EventReason) (status : ℕ) :
    (outline cfg sha256).Triple t P (deny cfg authenticated reason status) fun _ => P := by
  have hflag : ∀ event, (outline cfg sha256).Stable t fun s =>
      s.flags.retryUnsafe = true ∨ Lenient event := by
    intro event s s' hr h
    exact h.imp_left hr.flags
  refine Triple.observe hP (quietOp_orFlags _) (F := fun _ s =>
    s.flags.retryUnsafe = true ∨ Lenient ⟨cfg.binding, authenticated, .denied, reason⟩) ?_ ?_
  · rintro s r _ - - rfl
    by_cases hl : authenticated = true ∧ reason = .requestLimit
    · exact Or.inr hl
    · refine Or.inl ?_
      have hl' : (authenticated && decide (reason = .requestLimit)) = false := by simpa using hl
      simp [RetryFlags.or, hl', retryUnsafe]
  · intro _
    refine Triple.step (hP.and (hflag _)) (R := fun _ => P) ?_ ?_
    · rintro s r _ hi ⟨hp, hd⟩ rfl
      have hinv : Inv cfg sha256 { s with log := s.log ++ [.audited ⟨cfg.binding, authenticated,
          .denied, reason⟩ r] } := by
        refine hi.append trivial not_false ?_
        intro event recorded heq _
        cases heq
        exact hd
      have hrely : ∀ u, Rely u s { s with log := s.log ++ [.audited ⟨cfg.binding, authenticated,
          .denied, reason⟩ r] } := Rely.append not_false
      exact ⟨⟨hinv, fun u _ => hrely u⟩, hP s _ (hrely t) hp⟩
    · intro recorded
      cases recorded <;> exact Triple.done hP fun _ _ h => h

/-! ## Requests inside the write semaphore -/

def Sent (log : List Event) (id : ℕ) (m : Method) (path : Text) (body : Bytes) : Prop :=
  ∃ before middle, log = before ++ .sent id m path body :: middle

/-- The request `id` is in the log and its answer follows it. -/
def Replied (log : List Event) (id : ℕ) (m : Method) (path : Text) (body : Bytes)
    (answer : Answer) : Prop :=
  ∃ before middle, log = before ++ .sent id m path body :: middle ∧ .answered id answer ∈ middle

theorem Replied.append {log new : List Event} {id : ℕ} {m : Method} {path : Text} {body : Bytes}
    {answer : Answer} (h : Replied log id m path body answer) :
    Replied (log ++ new) id m path body answer := by
  obtain ⟨before, middle, rfl, hmem⟩ := h
  exact ⟨before, middle ++ new, by simp, List.mem_append_left new hmem⟩

theorem Sent.replied {log : List Event} {id : ℕ} {m : Method} {path : Text} {body : Bytes}
    (h : Sent log id m path body) (answer : Answer) :
    Replied (log ++ [.answered id answer]) id m path body answer := by
  obtain ⟨before, middle, rfl⟩ := h
  exact ⟨before, middle ++ [.answered id answer], by simp, by simp⟩

theorem lasting_sent {id : ℕ} {m : Method} {path : Text} {body : Bytes} :
    Lasting fun _ log => Sent log id m path body := by
  rintro _ _ new - ⟨before, middle, rfl⟩
  exact ⟨before, middle ++ new, by simp⟩

theorem lasting_replied {id : ℕ} {m : Method} {path : Text} {body : Bytes} {answer : Answer} :
    Lasting fun _ log => Replied log id m path body answer :=
  fun _ _ _ _ h => h.append

/-- A settled or flagged mutation leaves nothing pending. -/
theorem AllSettled.settle {log : List Event} {id : ℕ} (h : AllSettled log (some id))
    (hid : Settled log id) : AllSettled log none := by
  intro id' m path body hmem hm _
  by_cases heq : id' = id
  · exact heq ▸ hid
  · exact h id' m path body hmem hm (by simpa using heq)

/-- After a mutation, either it was answered 200 or the attempt is marked. -/
theorem observe_mutation {contextErr : Bool} {m : Method} (hm : m = .post ∨ m = .delete)
    {answer : Answer} (h : (observeFlags contextErr m answer).retryUnsafe = false) :
    ∃ response, answer = .ok response ∧ response.status = 200 := by
  have hread : m.isRead = false := by rcases hm with rfl | rfl <;> rfl
  cases answer with
  | error e => simp [observeFlags, hread, retryUnsafe] at h
  | ok response =>
      refine ⟨response, rfl, ?_⟩
      by_contra hne
      simp [observeFlags, hread, hne, retryUnsafe] at h

section Mutation

variable {F K : List (Text × Bool) → List Event → Prop} {m : Method} {path : Text} {body : Bytes}
  {range : Text}

def Forwarded (K : List (Text × Bool) → List Event → Prop) (m : Method) (path : Text)
    (body : Bytes) (r : Except RequestError Response) (locks : List (Text × Bool))
    (log : List Event) : Prop :=
  ∀ response, r = .ok response → K locks log ∧ ∃ id, Replied log id m path body (.ok response)

theorem forward_triple (hm : m = .post ∨ m = .delete) (hF : Lasting F) (hK : Lasting K)
    (hsend : ∀ locks log, F locks log → SendOk cfg sha256 log m path body ∧ MapOk locks m path)
    (hpost : ∀ locks log id, F locks log → K locks (log ++ [.sent id m path body])) :
    (outline cfg sha256).Triple t
      (fun s => Held t none F s ∧ (m = .post → "snapshots/".toList <+: path →
        s.flags.retryUnsafe = true))
      (forward m path body range) fun r => Held t none (Forwarded K m path body r) := by
  have hflag : (outline cfg sha256).Stable t fun s => m = .post → "snapshots/".toList <+: path →
      s.flags.retryUnsafe = true := fun s s' hr h h1 h2 => hr.flags (h h1 h2)
  have hsent : ∀ id, Lasting fun locks log => K locks log ∧ Sent log id m path body :=
    fun id => hK.and lasting_sent
  have hreplied : ∀ id answer, Lasting fun locks log => K locks log ∧
      Replied log id m path body answer := fun id answer => hK.and lasting_replied
  refine Triple.step ((stable_held hF).and hflag) (R := fun id => Held t (some id)
    fun locks log => K locks log ∧ Sent log id m path body) ?_ ?_
  · rintro s id s' hi ⟨h, hsnap⟩ ha
    obtain ⟨hok, hmap⟩ := hsend s.locks s.log h.fact
    obtain ⟨hg, h'⟩ := send_allows hi h hm hok hmap hsnap ha
    refine ⟨hg, h'.mono ?_⟩
    rintro ⟨hl, hlog⟩
    rw [hl, hlog]
    exact ⟨hpost s.locks s.log id h.fact, s.log, [], rfl⟩
  intro id
  refine Triple.step (stable_held (hsent id)) (R := fun answer => Held t (some id)
    fun locks log => K locks log ∧ Replied log id m path body answer) ?_ ?_
  · rintro s answer s' hi h ha
    obtain ⟨hi', hr⟩ := quietOp_receive id s answer s' hi ha
    obtain rfl := ha
    have h' := stable_held (hsent id) s _ (hr t) h
    exact ⟨⟨hi', fun u _ => hr u⟩, ⟨h'.inside, h'.writer, h'.settled, h'.fact.1,
      h.fact.2.replied answer⟩⟩
  intro answer
  refine Triple.quiet (stable_held (hreplied id answer)) (quietOp_observes rfl) ?_
  intro contextErr
  refine Triple.step (stable_held (hreplied id answer)) (R := fun _ => Held t none
    fun locks log => K locks log ∧ Replied log id m path body answer) ?_ ?_
  · rintro s r s' hi h ha
    obtain ⟨hi', hr⟩ := quietOp_orFlags _ s r s' hi ha
    obtain rfl := ha
    refine ⟨⟨hi', fun u _ => hr u⟩, h.inside, h.writer, ?_, h.fact⟩
    intro hf
    simp only [RetryFlags.or, Bool.or_eq_false_iff] at hf
    obtain ⟨response, rfl, hstatus⟩ := observe_mutation hm hf.2
    obtain ⟨-, before, middle, hlog, hmem⟩ := h.fact
    refine (h.settled hf.1).settle ⟨response, ?_, hstatus⟩
    rw [hlog]
    exact List.mem_append_right before (List.mem_cons_of_mem _ hmem)
  intro _
  refine Triple.done (stable_held (hreplied id answer)) ?_
  intro s _ h
  refine h.mono ?_
  rintro ⟨hk, hrep⟩ response hr
  refine ⟨hk, id, ?_⟩
  cases answer with
  | error e => cases hr
  | ok r =>
      cases hr
      exact hrep

theorem lasting_forwarded (hK : Lasting K) (r : Except RequestError Response) :
    Lasting (Forwarded K m path body r) := by
  intro locks log new hnew h response hr
  obtain ⟨hk, id, hrep⟩ := h response hr
  exact ⟨hK locks log new hnew hk, id, hrep.append⟩

theorem forwarded_error (e : RequestError) (locks : List (Text × Bool)) (log : List Event) :
    Forwarded K m path body (.error e) locks log := by
  intro response hr
  cases hr

theorem request_triple (hm : m = .post ∨ m = .delete) (hF : Lasting F) (hK : Lasting K)
    (hsend : ∀ locks log, F locks log → SendOk cfg sha256 log m path body ∧ MapOk locks m path)
    (hpost : ∀ locks log id, F locks log → K locks (log ++ [.sent id m path body])) :
    (outline cfg sha256).Triple t (Held t none F) (request cfg m path body range)
      fun r => Held t none (Forwarded K m path body r) := by
  have hs : (outline cfg sha256).Stable t (Held t none F) := stable_held hF
  unfold request
  refine (quiet_guardFails.triple hs).bind ?_
  intro failed
  cases failed with
  | true =>
      refine Triple.quiet hs (quietOp_orFlags _) fun _ => Triple.done hs ?_
      exact fun s _ h => h.mono fun _ => forwarded_error _ _ _
  | false =>
      simp only [Bool.false_eq_true, if_false, perform_eq, Program.step_bind, Program.done_bind]
      refine Triple.quiet hs (quietOp_observes rfl) ?_
      intro created
      cases created with
      | false => exact Triple.done hs fun s _ h => h.mono fun _ => forwarded_error _ _ _
      | true =>
          simp only [Bool.not_true, Bool.false_eq_true, if_false]
          by_cases hsnap : m = .post ∧ path.hasPrefix "snapshots/".toList = true
          · rw [if_pos hsnap]
            refine Triple.observe hs (quietOp_orFlags _) (F := fun _ s =>
              m = .post → "snapshots/".toList <+: path → s.flags.retryUnsafe = true) ?_
              fun _ => forward_triple hm hF hK hsend hpost
            rintro s r _ - - rfl - -
            simp [RetryFlags.or, retryUnsafe]
          · rw [if_neg hsnap]
            refine (forward_triple hm hF hK hsend hpost).conseq ?_ fun _ _ _ h => h
            intro s h
            exact ⟨h, fun h1 h2 => absurd ⟨h1, (Text.hasPrefix_iff _ _).mpr h2⟩ hsnap⟩

end Mutation

section Probe

variable {F : List (Text × Bool) → List Event → Prop} {path : Text}

/-- A request of this kind that nothing mutated after. -/
def SentQuietly (log : List Event) (id : ℕ) (path : Text) : Prop :=
  ∃ before middle, log = before ++ .sent id .head path [] :: middle ∧ ∀ e ∈ middle, ¬ e.Mutates

theorem lasting_sentQuietly {id : ℕ} : Lasting fun _ log => SentQuietly log id path := by
  rintro _ _ new hnew ⟨before, middle, rfl, hmiddle⟩
  refine ⟨before, middle ++ new, by simp, ?_⟩
  intro e he
  rcases List.mem_append.mp he with he | he
  · exact hmiddle e he
  · exact hnew e he

theorem SentQuietly.probed {log : List Event} {id : ℕ} {response : Response}
    (h : SentQuietly log id path) (hstatus : response.status = 404) :
    Probed (log ++ [.answered id (.ok response)]) path := by
  obtain ⟨before, middle, rfl, hmiddle⟩ := h
  refine ⟨before, id, middle ++ [.answered id (.ok response)], response, by simp, by simp,
    hstatus, ?_⟩
  intro e he
  rcases List.mem_append.mp he with he | he
  · exact hmiddle e he
  · cases List.mem_singleton.mp he
    exact not_false

def ProbeResult (F : List (Text × Bool) → List Event → Prop) (path : Text)
    (r : Except RequestError Response) (locks : List (Text × Bool)) (log : List Event) : Prop :=
  F locks log ∧ ∀ response, r = .ok response → response.status = 404 → Probed log path

theorem lasting_probeResult (hF : Lasting F) (r : Except RequestError Response) :
    Lasting (ProbeResult F path r) := by
  intro locks log new hnew h
  exact ⟨hF locks log new hnew h.1, fun response hr hs => (h.2 response hr hs).append hnew⟩

theorem forward_probe_triple (hF : Lasting F) :
    (outline cfg sha256).Triple t (Held t none F) (forward .head path [] [])
      fun r => Held t none (ProbeResult F path r) := by
  have hsent : ∀ id, Lasting fun locks log => F locks log ∧ SentQuietly log id path :=
    fun id => hF.and lasting_sentQuietly
  have hdone : ∀ answer : Answer,
      Lasting (ProbeResult F path (answer.mapError RequestError.transport)) :=
    fun answer => lasting_probeResult hF _
  refine Triple.step (stable_held hF) (R := fun id => Held t none
    fun locks log => F locks log ∧ SentQuietly log id path) ?_ ?_
  · rintro s id s' hi h ha
    obtain ⟨hi', hr⟩ := quietOp_send (Or.inr rfl) _ _ _ s id s' hi ha
    obtain ⟨rfl, rfl⟩ := ha
    have h' := stable_held hF s _ (hr t) h
    exact ⟨⟨hi', fun u _ => hr u⟩, h'.mono fun hf => ⟨hf, s.log, [], rfl, by simp⟩⟩
  intro id
  refine Triple.step (stable_held (hsent id)) (R := fun answer => Held t none
    (ProbeResult F path (answer.mapError .transport))) ?_ ?_
  · rintro s answer s' hi h ha
    obtain ⟨hi', hr⟩ := quietOp_receive id s answer s' hi ha
    obtain rfl := ha
    have h' := stable_held (hsent id) s _ (hr t) h
    refine ⟨⟨hi', fun u _ => hr u⟩, h'.mono fun hf => ⟨hf.1, ?_⟩⟩
    intro response hanswer hstatus
    cases answer with
    | error e => cases hanswer
    | ok r =>
        cases hanswer
        exact h.fact.2.probed hstatus
  intro answer
  exact Triple.quiet (stable_held (hdone answer)) (quietOp_observes rfl) fun _ =>
    Triple.quiet (stable_held (hdone answer)) (quietOp_orFlags _) fun _ =>
      Triple.done (stable_held (hdone answer)) fun _ _ h => h

theorem request_probe_triple (hF : Lasting F) :
    (outline cfg sha256).Triple t (Held t none F) (request cfg .head path [] [])
      fun r => Held t none (ProbeResult F path r) := by
  have hs : (outline cfg sha256).Stable t (Held t none F) := stable_held hF
  have herror : ∀ e, (outline cfg sha256).Triple t (Held t none F)
      (.done (.error e : Except RequestError Response))
      fun r => Held t none (ProbeResult F path r) := by
    intro e
    refine Triple.done hs fun s _ h => h.mono fun hf => ⟨hf, ?_⟩
    intro response hr
    cases hr
  unfold request
  refine (quiet_guardFails.triple hs).bind ?_
  intro failed
  cases failed with
  | true => exact Triple.quiet hs (quietOp_orFlags _) fun _ => herror _
  | false =>
      simp only [Bool.false_eq_true, if_false, perform_eq, Program.step_bind, Program.done_bind]
      refine Triple.quiet hs (quietOp_observes rfl) ?_
      intro created
      cases created with
      | false => exact herror _
      | true => simpa using forward_probe_triple hF

end Probe

end RestFleet.Session
