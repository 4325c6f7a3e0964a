import RestFleet.Shared.Serial

/-! # Interleaved runs that compute

A schedule says which transaction goes on for how many statements. Its outcome is a function of
the database, and what it computes is reachable. -/

namespace RestFleet.Tx

variable {M : Schema}

/-- The holder of a key in a list of locks. -/
def holder [DecidableEq M.Key] : List (M.Key × ℕ) → M.Key → Option ℕ
  | [], _ => none
  | (k', t) :: rest, k => if k = k' then some t else holder rest k

/-- No key is listed with two holders. -/
def OneHolder (locks : List (M.Key × ℕ)) : Prop :=
  ∀ k t u, (k, t) ∈ locks → (k, u) ∈ locks → t = u

section Locks

variable [DecidableEq M.Key] {locks : List (M.Key × ℕ)} {k : M.Key} {t u : ℕ}

theorem mem_of_holder (h : holder locks k = some t) : (k, t) ∈ locks := by
  induction locks with
  | nil => cases h
  | cons entry rest ih =>
      obtain ⟨k', u⟩ := entry
      by_cases hk : k = k'
      · subst hk
        simp only [holder, if_true, Option.some.injEq] at h
        simp [h]
      · simp only [holder, hk, if_false] at h
        exact List.mem_cons_of_mem _ (ih h)

theorem holder_of_mem (ho : OneHolder locks) (h : (k, t) ∈ locks) : holder locks k = some t := by
  cases hh : holder locks k with
  | none =>
      exfalso
      clear ho
      induction locks with
      | nil => cases h
      | cons entry rest ih =>
          obtain ⟨k', u⟩ := entry
          by_cases hk : k = k'
          · simp [holder, hk] at hh
          · simp only [holder, hk, if_false] at hh
            rcases List.mem_cons.mp h with heq | hmem
            · exact hk (congrArg Prod.fst heq)
            · exact ih hmem hh
  | some v => rw [ho k v t (mem_of_holder hh) h]

theorem holder_cons : holder ((k, t) :: locks) = Function.update (holder locks) k (some t) := by
  funext k'
  by_cases hk : k' = k
  · subst hk
    simp [holder]
  · simp [holder, hk]

/-- The locks that are left when `t` ends. -/
theorem holder_filter (ho : OneHolder locks) :
    holder (locks.filter fun entry => decide (entry.2 ≠ t)) = release t (holder locks) := by
  have ho' : OneHolder (locks.filter fun entry => decide (entry.2 ≠ t)) :=
    fun k u v hu hv => ho k u v (List.mem_filter.mp hu).1 (List.mem_filter.mp hv).1
  funext k
  cases hh : holder (locks.filter fun entry => decide (entry.2 ≠ t)) k with
  | some u =>
      have hmem := mem_of_holder hh
      have hne : u ≠ t := by simpa using (List.mem_filter.mp hmem).2
      have hold := holder_of_mem ho (List.mem_filter.mp hmem).1
      simp [release, hold, hne]
  | none =>
      unfold release
      split
      · rfl
      · rename_i hne
        cases hold : holder locks k with
        | none => rfl
        | some u =>
            have hu : u ≠ t := fun he => hne (by rw [hold, he])
            have hmem : (k, u) ∈ locks.filter fun entry => decide (entry.2 ≠ t) :=
              List.mem_filter.mpr ⟨mem_of_holder hold, by simpa using hu⟩
            rw [holder_of_mem ho' hmem] at hh
            cases hh

end Locks

/-- A configuration that can be computed with. -/
structure Machine (M : Schema) where
  db : M.Db
  pend : ℕ → M.Db → M.Db
  locks : List (M.Key × ℕ)
  threads : ℕ → Option (Program (Op M) (Reply M) Unit)

def Machine.start (db : M.Db) : Machine M := ⟨db, fun _ => id, [], fun _ => none⟩

def Machine.finish (m : Machine M) (t : ℕ) (db : M.Db) : Machine M :=
  { m with
    db := db
    pend := Function.update m.pend t id
    locks := m.locks.filter fun entry => decide (entry.2 ≠ t) }

section Machine

variable [DecidableEq M.Key] [DecidableRel M.conflicts]

/-- Whether `t` gets the key without waiting. -/
def Machine.takes (m : Machine M) (t : ℕ) (k : M.Key) : Bool :=
  m.locks.all fun entry =>
    decide (entry.1 = k ∨ M.conflicts k entry.1 ∨ M.conflicts entry.1 k → entry.2 = t)

/-- Whether the statement goes on without waiting. -/
def Machine.admits (m : Machine M) (t : ℕ) : Op M → Bool
  | .lock k => !M.present k (m.pend t m.db) || m.takes t k
  | .claim k => m.takes t k
  | _ => true

def Machine.perform (m : Machine M) (t : ℕ) : Op M → Machine M
  | .start => { m with pend := Function.update m.pend t id }
  | .write f => { m with pend := Function.update m.pend t (f ∘ m.pend t) }
  | .lock k => if M.present k (m.pend t m.db) then { m with locks := (k, t) :: m.locks } else m
  | .claim k => { m with locks := (k, t) :: m.locks }
  | .commit => m.finish t (m.pend t m.db)
  | .rollback => m.finish t m.db
  | .view | .choose _ | .self => m

def Machine.advance (answers : Answers M) (t : ℕ) :
    ℕ → Program (Op M) (Reply M) Unit → Machine M →
      Option (Program (Op M) (Reply M) Unit × Machine M)
  | 0, p, m => some (p, m)
  | _ + 1, .done a, m => some (.done a, m)
  | n + 1, .step op k, m =>
    if m.admits t op then
      advance answers t n (k (reply answers t op ⟨m.db, m.pend t m.db⟩)) (m.perform t op)
    else none

/-- A connection starts with a program, or goes on for a number of statements. -/
inductive Turn (M : Schema) where
  | spawn (t : ℕ) (p : Program (Op M) (Reply M) Unit)
  | run (t : ℕ) (answers : Answers M) (n : ℕ)

def Machine.turn (m : Machine M) : Turn M → Option (Machine M)
  | .spawn t p =>
    match m.threads t with
    | none => some { m with threads := Function.update m.threads t (some p) }
    | some _ => none
  | .run t answers n =>
    match m.threads t with
    | none => none
    | some p => (Machine.advance answers t n p m).map fun next =>
      { next.2 with threads := Function.update m.threads t (some next.1) }

def Machine.schedule : Machine M → List (Turn M) → Option (Machine M)
  | m, [] => some m
  | m, turn :: rest => (m.turn turn).bind fun m' => m'.schedule rest

end Machine

/-! ## What a schedule computes is reachable -/

variable [DecidableEq M.Key] {arrivals : Program (Op M) (Reply M) Unit → Prop}
  {m m' : Machine M} {t : ℕ}

def Machine.state (m : Machine M) : State M := ⟨m.db, m.pend, holder m.locks⟩

theorem Machine.state_take (m : Machine M) (k : M.Key) :
    ({ m with locks := (k, t) :: m.locks } : Machine M).state =
      { m.state with held := Function.update m.state.held k (some t) } := by
  simp only [Machine.state, holder_cons]

theorem Machine.state_finish (ho : OneHolder m.locks) (db : M.Db) :
    (m.finish t db).state = m.state.finish t db := by
  simp only [Machine.state, Machine.finish, State.finish, holder_filter ho]

omit [DecidableEq M.Key] in
theorem OneHolder.finish (ho : OneHolder m.locks) (db : M.Db) : OneHolder (m.finish t db).locks :=
  fun k u v hu hv => ho k u v (List.mem_filter.mp hu).1 (List.mem_filter.mp hv).1

variable [DecidableRel M.conflicts]

theorem Machine.takes_spec {k : M.Key} (h : m.takes t k = true) : Takes m.state t k := by
  intro k' hk'
  cases hh : holder m.locks k' with
  | none => exact Or.inl hh
  | some u =>
      have hmem := mem_of_holder hh
      have hu : u = t := by
        have hall := List.all_eq_true.mp h _ hmem
        exact of_decide_eq_true hall hk'
      exact Or.inr (hu ▸ hh)

theorem OneHolder.take {k : M.Key} (ho : OneHolder m.locks) (h : m.takes t k = true) :
    OneHolder ((k, t) :: m.locks) := by
  have hsame : ∀ u, (k, u) ∈ m.locks → u = t := by
    intro u hu
    have hall := List.all_eq_true.mp h _ hu
    exact of_decide_eq_true hall (Or.inl rfl)
  intro k' u v hu hv
  rcases List.mem_cons.mp hu with hu | hu <;> rcases List.mem_cons.mp hv with hv | hv
  · cases hu
    cases hv
    rfl
  · cases hu
    exact (hsame v hv).symm
  · cases hv
    exact hsame u hu
  · exact ho k' u v hu hv

/-- One statement of the machine is one of the system. -/
theorem Machine.perform_spec (answers : Answers M) (op : Op M) (ho : OneHolder m.locks)
    (h : m.admits t op = true) :
    act t op m.state (reply answers t op ⟨m.db, m.pend t m.db⟩) (m.perform t op).state ∧
      OneHolder (m.perform t op).locks := by
  cases op with
  | start => exact ⟨rfl, ho⟩
  | view => exact ⟨⟨rfl, rfl⟩, ho⟩
  | write f => exact ⟨rfl, ho⟩
  | choose q => exact ⟨rfl, ho⟩
  | self => exact ⟨⟨rfl, rfl⟩, ho⟩
  | commit => exact ⟨Machine.state_finish ho _, ho.finish _⟩
  | rollback => exact ⟨Machine.state_finish ho _, ho.finish _⟩
  | claim k => exact ⟨⟨Machine.takes_spec h, m.state_take k⟩, ho.take h⟩
  | lock k =>
      cases hp : M.present k (m.pend t m.db) with
      | false =>
          simp only [Machine.perform, hp]
          exact ⟨Or.inr ⟨hp, hp, rfl⟩, ho⟩
      | true =>
          have htakes : m.takes t k = true := by simpa [Machine.admits, hp] using h
          simp only [Machine.perform, hp]
          exact ⟨Or.inl ⟨hp, hp, Machine.takes_spec htakes, m.state_take k⟩, ho.take htakes⟩

theorem Machine.advance_run {answers : Answers M} {n : ℕ}
    {p p' : Program (Op M) (Reply M) Unit}
    {threads : ℕ → Option (Program (Op M) (Reply M) Unit)} (ho : OneHolder m.locks)
    (h : Machine.advance answers t n p m = some (p', m')) :
    (system arrivals).Run ⟨m.state, Function.update threads t (some p)⟩
        ⟨m'.state, Function.update threads t (some p')⟩ ∧ OneHolder m'.locks := by
  induction n generalizing m p with
  | zero =>
      cases h
      exact ⟨Relation.ReflTransGen.refl, ho⟩
  | succ n ih =>
      cases p with
      | done a =>
          cases h
          exact ⟨Relation.ReflTransGen.refl, ho⟩
      | step op k =>
          rw [Machine.advance] at h
          split at h
          · rename_i hadm
            obtain ⟨hact, ho'⟩ := Machine.perform_spec answers op ho hadm
            obtain ⟨hrun, hlocks⟩ := ih ho' h
            have hstep : (system arrivals).Step
                ⟨m.state, Function.update threads t (some (.step op k))⟩ _ :=
              .act (Function.update_self t _ threads) hact
            rw [Function.update_idem] at hstep
            exact ⟨hrun.head hstep, hlocks⟩
          · cases h

/-- The program of the turn may arrive. -/
def Turn.Arrives (arrivals : Program (Op M) (Reply M) Unit → Prop) : Turn M → Prop
  | .spawn _ p => arrivals p
  | .run _ _ _ => True

theorem Machine.turn_run {turn : Turn M} (ho : OneHolder m.locks) (ha : turn.Arrives arrivals)
    (h : m.turn turn = some m') :
    (system arrivals).Run ⟨m.state, m.threads⟩ ⟨m'.state, m'.threads⟩ ∧ OneHolder m'.locks := by
  cases turn with
  | spawn t p =>
      rw [Machine.turn] at h
      split at h
      · rename_i ht
        cases h
        exact ⟨Relation.ReflTransGen.single (.spawn ht ⟨rfl, ha⟩), ho⟩
      · cases h
  | run t answers n =>
      rw [Machine.turn] at h
      split at h
      · cases h
      · rename_i p ht
        obtain ⟨⟨p', next⟩, hadv, rfl⟩ := Option.map_eq_some_iff.mp h
        have hself : Function.update m.threads t (some p) = m.threads := by
          rw [← ht]
          exact Function.update_eq_self t m.threads
        have hrun : (system arrivals).Run ⟨m.state, Function.update m.threads t (some p)⟩
            ⟨next.state, Function.update m.threads t (some p')⟩ ∧ OneHolder next.locks :=
          Machine.advance_run ho hadv
        rw [hself] at hrun
        exact hrun

theorem Machine.schedule_run {turns : List (Turn M)} (ho : OneHolder m.locks)
    (ha : ∀ turn ∈ turns, turn.Arrives arrivals) (h : m.schedule turns = some m') :
    (system arrivals).Run ⟨m.state, m.threads⟩ ⟨m'.state, m'.threads⟩ := by
  induction turns generalizing m with
  | nil =>
      cases h
      exact Relation.ReflTransGen.refl
  | cons turn rest ih =>
      obtain ⟨next, hturn, hrest⟩ := Option.bind_eq_some_iff.mp h
      obtain ⟨hrun, ho'⟩ := Machine.turn_run ho (ha turn List.mem_cons_self) hturn
      exact hrun.trans (ih ho' (fun x hx => ha x (List.mem_cons_of_mem turn hx)) hrest)

theorem schedule_reachable {db : M.Db} {turns : List (Turn M)}
    (ha : ∀ turn ∈ turns, turn.Arrives arrivals)
    (h : (Machine.start db).schedule turns = some m') :
    (system arrivals).Reachable (State.initial db) ⟨m'.state, m'.threads⟩ :=
  Machine.schedule_run (m := Machine.start db) (fun _ _ _ h => nomatch h) ha h

end RestFleet.Tx
