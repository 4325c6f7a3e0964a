import RestFleet.Shared.Action

/-! # Programs over a part of a database

A program that was written for one schema runs against a larger one, of which its own is a part.
What the part does not reach, it leaves as it is. -/

namespace RestFleet.Tx

/-- One schema as a part of another. -/
structure Part (M N : Schema) where
  get : N.Db → M.Db
  modify : (M.Db → M.Db) → N.Db → N.Db
  key : M.Key → N.Key
  choice : M.Choice → N.Choice
  answer : (q : M.Choice) → N.Answer (choice q) → M.Answer q

/-- The statements of a program inside a transaction that has begun and goes on. -/
def within {M : Schema} {α : Type} : Program (Op M) (Reply M) α → Program (Op M) (Reply M) α
  | .done a => .done a
  | .step .start k => within (k ())
  | .step .commit k => within (k ())
  | .step .rollback k => within (k ())
  | .step op k => .step op fun r => within (k r)

namespace Part

variable {M N : Schema} {α ε ε' : Type}

/-- The program, against the whole database. -/
def program (part : Part M N) : Program (Op M) (Reply M) α → Program (Op N) (Reply N) α
  | .done a => .done a
  | .step .start k => .step .start fun _ => program part (k ())
  | .step .view k => .step .view fun db => program part (k (part.get db))
  | .step (.write f) k => .step (.write (part.modify f)) fun _ => program part (k ())
  | .step (.lock key) k => .step (.lock (part.key key)) fun r => program part (k r)
  | .step (.claim key) k => .step (.claim (part.key key)) fun _ => program part (k ())
  | .step (.choose q) k =>
    .step (.choose (part.choice q)) fun r => program part (k (part.answer q r))
  | .step .self k => .step .self fun t => program part (k t)
  | .step .commit k => .step .commit fun _ => program part (k ())
  | .step .rollback k => .step .rollback fun _ => program part (k ())

/-- A piece of a transaction over the whole database. -/
def action (part : Part M N) (error : ε → ε') (x : Action M ε α) : Action N ε' α :=
  ExceptT.mk do
    match ← part.program (within x.run) with
    | .ok a => return .ok a
    | .error e => return .error (error e)

end Part

/-! ## What is left alone -/

variable {M N : Schema} {α γ ε ε' : Type} {π : N.Db → γ} {d : Discipline N} {t : ℕ}

/-- The discipline looks at a database only through `π`. -/
structure Discipline.Only (d : Discipline N) (π : N.Db → γ) : Prop where
  good : ∀ db db', π db' = π db → d.good db → d.good db'
  frame : ∀ k db db', π db' = π db → d.frame k db db'
  own : ∀ t db db', π db' = π db → d.own t db db'
  evolves : ∀ db db', π db' = π db → d.evolves db db'

def Leaves (π : N.Db → γ) (f : N.Db → N.Db) : Prop := ∀ db, π (f db) = π db

theorem leaves_id : Leaves π id := fun _ => rfl

theorem Leaves.comp {f g : N.Db → N.Db} (hg : Leaves π g) (hf : Leaves π f) : Leaves π (g ∘ f) :=
  fun db => (hg (f db)).trans (hf db)

theorem Discipline.Only.commits {f : N.Db → N.Db} {keys : List N.Key} {db : N.Db} (h : d.Only π)
    (hf : Leaves π f) (hg : d.good db) : d.Commits t keys db (f db) :=
  ⟨h.good db _ (hf db) hg, h.evolves db _ (hf db), fun u _ => h.own u db _ (hf db),
    fun k _ _ => h.frame k db _ (hf db)⟩

/-- A transaction that holds `keys` and whose writes satisfy `F`, with a fact about the committed
database. -/
def Holding (t : ℕ) (keys : List N.Key) (F : (N.Db → N.Db) → Prop) (P : N.Db → Prop)
    (s : State N) : Prop :=
  ∃ f, F f ∧ In t keys f P s

/-- A transaction whose locks do not matter. -/
abbrev Pending (t : ℕ) (F : (N.Db → N.Db) → Prop) (P : N.Db → Prop) (s : State N) : Prop :=
  Holding t [] F P s

variable [DecidableEq N.Key] {arrivals : Program (Op N) (Reply N) Unit → Prop} {keys : List N.Key}
  {F F' : (N.Db → N.Db) → Prop} {P : N.Db → Prop} {Q : α → State N → Prop}

theorem Holding.of {x : Action N ε α} (h : ∀ f, F f → Body arrivals d t (In t keys f P) x Q) :
    Body arrivals d t (Holding t keys F P) x Q := by
  rintro s ⟨f, hf, hs⟩
  exact h f hf s hs

theorem Holding.stable (hP : Lasts d t keys P) :
    (outline arrivals d).Stable t (Holding t keys F P) := by
  rintro s s' hr ⟨f, hf, hs⟩
  exact ⟨f, hf, stable_in hP s s' hr hs⟩

namespace Body

theorem pending_intro {f : N.Db → N.Db} {x : Action N ε α} (hf : F f)
    (h : Body arrivals d t (Holding t keys F P) x Q) : Body arrivals d t (In t keys f P) x Q :=
  fun s hs => h s ⟨f, hf, hs⟩

/-- A query keeps what lasts of what it saw. -/
theorem pending_look {k : N.Db → Action N ε α} {R : N.Db → N.Db → Prop} (hP : Lasts d t keys P)
    (hR : ∀ f db, F f → d.good db → P db → R (f db) db)
    (hk : ∀ v, Body arrivals d t (Holding t keys F (R v)) (k v) Q) :
    Body arrivals d t (Holding t keys F P) (Tx.view >>= k) Q :=
  Holding.of fun f hf => Body.view hP (fun db hg h => hR f db hf hg h) fun v =>
    pending_intro hf (hk v)

theorem pending_view {k : N.Db → Action N ε α} {S : N.Db → Prop} (hP : Lasts d t keys P)
    (hS : ∀ f db, F f → d.good db → P db → S (f db))
    (hk : ∀ v, S v → Body arrivals d t (Holding t keys F P) (k v) Q) :
    Body arrivals d t (Holding t keys F P) (Tx.view >>= k) Q := by
  refine Holding.of fun f hf => Body.see hP (fun db hg h => hS f db hf hg h) fun v hv => ?_
  exact pending_intro hf (hk v hv)

theorem pending_write {k : Unit → Action N ε α} {g : N.Db → N.Db} (hP : Lasts d t keys P)
    (hF : ∀ f, F f → F' (g ∘ f)) (hk : Body arrivals d t (Holding t keys F' P) (k ()) Q) :
    Body arrivals d t (Holding t keys F P) (Tx.write g >>= k) Q :=
  Holding.of fun f hf => Body.write hP (pending_intro (hF f hf) hk)

theorem pending_take {k₀ : N.Key} {k : Unit → Action N ε α} (hP : Lasts d t keys P)
    (hk : Body arrivals d t (Holding t (k₀ :: keys) F P) (k ()) Q) :
    Body arrivals d t (Holding t keys F P) (Tx.claim k₀ >>= k) Q :=
  Holding.of fun _ hf => Body.claim hP (pending_intro hf hk)

theorem pending_claim {k₀ : N.Key} {k : Unit → Action N ε α} (hP : Lasts d t keys P)
    (hk : Body arrivals d t (Holding t keys F P) (k ()) Q) :
    Body arrivals d t (Holding t keys F P) (Tx.claim k₀ >>= k) Q :=
  Holding.of fun f hf => Body.claim hP fun s hs => hk s ⟨f, hf, hs.drop⟩

theorem pending_lock {k₀ : N.Key} {k : Bool → Action N ε α} (hP : Lasts d t keys P)
    (hk : ∀ r, Body arrivals d t (Holding t keys F P) (k r) Q) :
    Body arrivals d t (Holding t keys F P) (Tx.lock k₀ >>= k) Q :=
  Holding.of fun f hf => Body.lock hP (fun s hs => hk true s ⟨f, hf, hs.drop⟩)
    (pending_intro hf (hk false))

theorem pending_commit {k : Unit → Action N ε α} (hP : Lasts d t keys P)
    (hc : ∀ f db, F f → d.good db → P db → d.Commits t keys db (f db))
    (hk : Body arrivals d t (In t [] id fun _ => True) (k ()) Q) :
    Body arrivals d t (Holding t keys F P) (Tx.commit >>= k) Q :=
  Holding.of fun f hf =>
    Body.commit (fun _ => True) hP (fun db hg h => ⟨hc f db hf hg h, trivial⟩) hk

end Body

variable {part : Part M N}

/-- Statements of a part leave the pending writes as far as they were. -/
theorem Part.within_triple (hP : Lasts d t keys P) (hpart : ∀ f, Leaves π (part.modify f))
    (hF : ∀ f g, F f → Leaves π g → F (g ∘ f)) (p : Program (Op M) (Reply M) α) :
    (outline arrivals d).Triple t (Holding t keys F P) (part.program (within p))
      fun _ => Holding t keys F P := by
  have hin {β : Type} {f : N.Db → N.Db} {q : Program (Op N) (Reply N) β}
      {R : β → State N → Prop} (hf : F f)
      (h : (outline arrivals d).Triple t (Holding t keys F P) q R) :
      (outline arrivals d).Triple t (In t keys f P) q R := fun s hs => h s ⟨f, hf, hs⟩
  induction p with
  | done a => exact Outline.Triple.done (Holding.stable hP) fun _ _ h => h
  | step op k ih =>
      rintro s ⟨f, hf, hs⟩
      revert s
      cases op with
      | start => exact fun s hs => ih () s ⟨f, hf, hs⟩
      | commit => exact fun s hs => ih () s ⟨f, hf, hs⟩
      | rollback => exact fun s hs => ih () s ⟨f, hf, hs⟩
      | view =>
          exact view_triple (R := fun _ => P) hP (fun _ _ h => h) fun v => hin hf (ih _)
      | write g =>
          exact write_triple hP (hin (hF f _ hf (hpart g)) (ih ()))
      | lock key =>
          refine lock_triple (T := fun _ => True) (F := fun _ => True) hP (fun _ _ _ _ => trivial)
            (fun _ _ _ _ => trivial) ?_ ?_
          · exact fun s hs => ih true s ⟨f, hf, hs.drop.mono (fun _ h => h) And.right⟩
          · exact fun s hs => ih false s ⟨f, hf, hs.mono (fun _ h => h) And.right⟩
      | claim key => exact claim_triple hP fun s hs => ih () s ⟨f, hf, hs.drop⟩
      | choose q => exact choose_triple hP fun r => hin hf (ih _)
      | self => exact self_triple hP (hin hf (ih t))

theorem Part.action_body {error : ε → ε'} (hP : Lasts d t keys P)
    (hpart : ∀ f, Leaves π (part.modify f)) (hF : ∀ f g, F f → Leaves π g → F (g ∘ f))
    (x : Action M ε α) :
    Body arrivals d t (Holding t keys F P) (part.action error x) fun _ => Holding t keys F P := by
  refine Outline.Triple.bind (Part.within_triple hP hpart hF x.run) fun result => ?_
  cases result with
  | ok a => exact Outline.Triple.done (Holding.stable hP) fun _ _ h _ _ => h
  | error e => exact Outline.Triple.done (Holding.stable hP) fun _ _ h _ _ => h

/-- A program that begins with a transaction, if it does anything. -/
def Begins (p : Program (Op M) (Reply M) α) : Prop :=
  (∃ a, p = .done a) ∨ ∃ k, p = .step .start k

/-- A program of a part respects any discipline that does not look at the part. -/
theorem Part.program_triple (hd : d.Only π) (hpart : ∀ f, Leaves π (part.modify f))
    (p : Program (Op M) (Reply M) α) :
    (outline arrivals d).Triple t (Pending t (Leaves π) fun _ => True) (part.program p)
      fun _ _ => True := by
  have hP : Lasts d t [] fun _ => True := lasts_const
  have hin {β : Type} {f : N.Db → N.Db} {q : Program (Op N) (Reply N) β}
      {R : β → State N → Prop} (hf : Leaves π f)
      (h : (outline arrivals d).Triple t (Pending t (Leaves π) fun _ => True) q R) :
      (outline arrivals d).Triple t (In t [] f fun _ => True) q R := fun s hs => h s ⟨f, hf, hs⟩
  induction p with
  | done a => exact fun _ _ _ _ _ => trivial
  | step op k ih =>
      rintro s ⟨f, hf, hs⟩
      revert s
      cases op with
      | start => exact start_triple (stable_in hP) (fun _ _ => trivial) (hin leaves_id (ih ()))
      | commit =>
          exact commit_triple (R := fun _ => True) hP (fun _ hg _ => hd.commits hf hg)
            (fun _ _ _ => trivial) (hin leaves_id (ih ()))
      | rollback => exact rollback_triple hP (hin leaves_id (ih ()))
      | view => exact view_triple (R := fun _ _ => True) hP (fun _ _ h => h) fun v => hin hf (ih _)
      | write g => exact write_triple hP (hin ((hpart g).comp hf) (ih ()))
      | lock key =>
          refine lock_triple (T := fun _ => True) (F := fun _ => True) hP (fun _ _ _ _ => trivial)
            (fun _ _ _ _ => trivial) ?_ ?_
          · exact fun s hs => ih true s ⟨f, hf, hs.mono (by simp) fun _ => trivial⟩
          · exact fun s hs => ih false s ⟨f, hf, hs.mono (by simp) fun _ => trivial⟩
      | claim key => exact claim_triple hP fun s hs => ih () s ⟨f, hf, hs.drop⟩
      | choose q => exact choose_triple hP fun r => hin hf (ih _)
      | self => exact self_triple hP (hin hf (ih t))

theorem Part.program_safely (hd : d.Only π) (hpart : ∀ f, Leaves π (part.modify f))
    {p : Program (Op M) (Reply M) α} (hp : Begins p) :
    (outline arrivals d).Triple t (fun _ => True) (part.program p) fun _ _ => True := by
  rcases hp with ⟨a, rfl⟩ | ⟨k, rfl⟩
  · exact fun _ _ _ _ _ => trivial
  · have hk : (outline arrivals d).Triple t (Pending t (Leaves π) fun _ => True)
        (part.program (k ())) fun _ _ => True := Part.program_triple hd hpart (k ())
    exact start_triple (fun _ _ _ _ => trivial) (fun _ _ => trivial)
      fun s hs => hk s ⟨id, leaves_id, hs⟩

end RestFleet.Tx
