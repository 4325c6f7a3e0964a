import Mathlib.Data.List.Nodup
import RestFleet.Model.Session
import RestFleet.Shared.History

/-! # What the session log records -/

namespace RestFleet.Session

/-- A forwarded POST or DELETE. -/
def Event.Mutates : Event → Prop
  | .sent _ m _ _ => m = .post ∨ m = .delete
  | _ => False

def IsLock (path : Text) : Prop := "locks/".toList <+: path

def Posted (log : List Event) (path : Text) : Prop :=
  ∃ id body, .sent id .post path body ∈ log

def Deleted (log : List Event) (path : Text) : Prop :=
  ∃ id body, .sent id .delete path body ∈ log

/-- The last thing known about `path` is a HEAD answered 404, with no mutation since. -/
def Probed (log : List Event) (path : Text) : Prop :=
  ∃ before probe middle response, log = before ++ .sent probe .head path [] :: middle ∧
    .answered probe (.ok response) ∈ middle ∧ response.status = 404 ∧ ∀ e ∈ middle, ¬ e.Mutates

/-- A POST of `path` was answered 200. -/
def Confirmed (log : List Event) (path : Text) : Prop :=
  ∃ before post body middle response, log = before ++ .sent post .post path body :: middle ∧
    .answered post (.ok response) ∈ middle ∧ response.status = 200

/-- The forwarded request `id` was answered 200. -/
def Settled (log : List Event) (id : ℕ) : Prop :=
  ∃ response, .answered id (.ok response) ∈ log ∧ response.status = 200

/-- The lock path that an event posts. -/
def Event.postedLock : Event → Option Text
  | .sent _ .post path _ => if path.hasPrefix "locks/".toList then some path else none
  | _ => none

def postedLocks (log : List Event) : List Text := log.filterMap Event.postedLock

/-- The kinds of objects that a session may write. -/
def mutableKinds : List Text :=
  ["data".toList, "index".toList, "snapshots".toList, "locks".toList]

/-- A writable kind followed by the name of an object. -/
def ObjectPath (path name : Text) : Prop :=
  ∃ kind ∈ mutableKinds, path = kind ++ '/' :: name ∧ objectName name = true

/-- What has to hold before a request is forwarded. -/
def SendOk (cfg : Config) (sha256 : Bytes → Bytes) (log : List Event) (m : Method) (path : Text)
    (body : Bytes) : Prop :=
  match m with
  | .post => cfg.reader = none ∧ ObjectPath path (Text.hexEncode (sha256 body)) ∧
      Probed log path ∧ (IsLock path → ¬ Posted log path)
  | .delete => cfg.reader = none ∧ IsLock path ∧ Confirmed log path ∧ ¬ Deleted log path
  | m => m = .get ∨ m = .head

def EventOk (cfg : Config) (sha256 : Bytes → Bytes) (log : List Event) : Event → Prop
  | .sent id m path body => id = log.length ∧ SendOk cfg sha256 log m path body
  | _ => True

variable {log new : List Event} {path : Text} {e : Event}

theorem posted_append_iff (h : ∀ e ∈ new, ¬ e.Mutates) :
    Posted (log ++ new) path ↔ Posted log path := by
  constructor
  · rintro ⟨id, body, hmem⟩
    rcases List.mem_append.mp hmem with hlog | hnew
    · exact ⟨id, body, hlog⟩
    · exact absurd (Or.inl rfl) (h _ hnew)
  · rintro ⟨id, body, hmem⟩
    exact ⟨id, body, List.mem_append_left new hmem⟩

theorem deleted_append_iff (h : ∀ e ∈ new, ¬ e.Mutates) :
    Deleted (log ++ new) path ↔ Deleted log path := by
  constructor
  · rintro ⟨id, body, hmem⟩
    rcases List.mem_append.mp hmem with hlog | hnew
    · exact ⟨id, body, hlog⟩
    · exact absurd (Or.inr rfl) (h _ hnew)
  · rintro ⟨id, body, hmem⟩
    exact ⟨id, body, List.mem_append_left new hmem⟩

theorem Probed.append (hp : Probed log path) (h : ∀ e ∈ new, ¬ e.Mutates) :
    Probed (log ++ new) path := by
  obtain ⟨before, probe, middle, response, rfl, hmem, hstatus, hmiddle⟩ := hp
  refine ⟨before, probe, middle ++ new, response, by simp, List.mem_append_left _ hmem, hstatus, ?_⟩
  intro e he
  rcases List.mem_append.mp he with he | he
  · exact hmiddle e he
  · exact h e he

theorem Confirmed.append (hp : Confirmed log path) : Confirmed (log ++ new) path := by
  obtain ⟨before, post, body, middle, response, rfl, hmem, hstatus⟩ := hp
  exact ⟨before, post, body, middle ++ new, response, by simp, List.mem_append_left _ hmem,
    hstatus⟩

theorem Settled.append {id : ℕ} (h : Settled log id) : Settled (log ++ new) id := by
  obtain ⟨response, hmem, hstatus⟩ := h
  exact ⟨response, List.mem_append_left new hmem, hstatus⟩

theorem Confirmed.posted (h : Confirmed log path) : Posted log path := by
  obtain ⟨before, post, body, middle, response, rfl, -, -⟩ := h
  exact ⟨post, body, by simp⟩

theorem Event.postedLock_eq_some (h : e.postedLock = some path) :
    IsLock path ∧ ∃ id body, e = .sent id .post path body := by
  fun_cases Event.postedLock e with
  | case1 id p body hp =>
      rw [Event.postedLock, if_pos hp] at h
      cases h
      exact ⟨(Text.hasPrefix_iff _ _).mp hp, id, body, rfl⟩
  | case2 id p body hp =>
      rw [Event.postedLock, if_neg hp] at h
      cases h
  | case3 e he => simp [Event.postedLock] at h

theorem Event.postedLock_post (id : ℕ) (body : Bytes) (h : IsLock path) :
    (Event.sent id .post path body).postedLock = some path :=
  if_pos ((Text.hasPrefix_iff _ _).mpr h)

theorem Event.postedLock_of_not_mutates (h : ¬ e.Mutates) : e.postedLock = none := by
  by_contra hne
  obtain ⟨path, hpath⟩ := Option.ne_none_iff_exists'.mp hne
  obtain ⟨-, id, body, rfl⟩ := Event.postedLock_eq_some hpath
  exact h (Or.inl rfl)

theorem mem_postedLocks : path ∈ postedLocks log ↔ IsLock path ∧ Posted log path := by
  rw [postedLocks, List.mem_filterMap]
  constructor
  · rintro ⟨e, hmem, he⟩
    obtain ⟨hlock, id, body, rfl⟩ := Event.postedLock_eq_some he
    exact ⟨hlock, id, body, hmem⟩
  · rintro ⟨hlock, id, body, hmem⟩
    exact ⟨_, hmem, Event.postedLock_post id body hlock⟩

theorem postedLocks_snoc : postedLocks (log ++ [e]) = postedLocks log ++ e.postedLock.toList := by
  cases h : e.postedLock <;> simp [postedLocks, h]

theorem posted_of_deleted {cfg : Config} {sha256 : Bytes → Bytes}
    (h : Checked (EventOk cfg sha256) log) (hd : Deleted log path) : Posted log path := by
  obtain ⟨id, body, hmem⟩ := hd
  obtain ⟨before, after, rfl⟩ := List.append_of_mem hmem
  obtain ⟨-, -, -, hc, -⟩ := h before _ after rfl
  obtain ⟨id', body', hmem'⟩ := hc.posted
  exact ⟨id', body', List.mem_append_left _ hmem'⟩

theorem postedLocks_nodup {cfg : Config} {sha256 : Bytes → Bytes}
    (h : Checked (EventOk cfg sha256) log) : (postedLocks log).Nodup := by
  induction h using Checked.induction with
  | nil => exact List.nodup_nil
  | snoc before e _ he ih =>
      rw [postedLocks_snoc]
      cases hpost : e.postedLock with
      | none => simpa using ih
      | some path =>
          obtain ⟨hlock, id, body, rfl⟩ := Event.postedLock_eq_some hpost
          have hfresh : path ∉ postedLocks before := by
            intro hmem
            exact he.2.2.2.2 hlock (mem_postedLocks.mp hmem).2
          exact List.nodup_append.mpr ⟨ih, List.nodup_singleton path, by grind⟩

end RestFleet.Session
