import RestFleet.Shared.Journal

/-! # Requests of several transactions

Between its transactions a request holds no key, so it keeps only facts that no commit ends. -/

namespace RestFleet.Tx

variable {M : Schema} [DecidableEq M.Key] {arrivals : Program (Op M) (Reply M) Unit → Prop}
  {d : Discipline M} {t : ℕ} {ε α β : Type} {P : M.Db → Prop}

/-- A request that starts when `P` holds, and what it knows when it does not fail. -/
abbrev Request (arrivals : Program (Op M) (Reply M) Unit → Prop) (d : Discipline M) (t : ℕ)
    (P : M.Db → Prop) (p : Action M ε α) (Q : α → M.Db → Prop) : Prop :=
  Body arrivals d t (fun s => P s.db) p fun a s => Q a s.db

/-- A program after which nothing is claimed. -/
abbrev Safely (arrivals : Program (Op M) (Reply M) Unit → Prop) (d : Discipline M) (t : ℕ)
    (P : M.Db → Prop) (p : Program (Op M) (Reply M) α) : Prop :=
  (outline arrivals d).Triple t (fun s => P s.db) p fun _ _ => True

theorem Persists.stable (hP : Persists d P) : (outline arrivals d).Stable t fun s => P s.db :=
  fun _ _ hr h => hP _ _ hr.evolves h

omit [DecidableEq M.Key] in
theorem persists_const {a : Prop} : Persists d fun _ => a := fun _ _ _ h => h

namespace Request

theorem pure {a : α} (hP : Persists d P) :
    Request arrivals d t P (Pure.pure a : Action M ε α) fun b db => b = a ∧ P db :=
  Body.pure hP.stable fun _ _ h => ⟨rfl, h⟩

theorem done {a : α} (hP : Persists d P) :
    Request arrivals d t P (Pure.pure a : Action M ε α) fun _ _ => True :=
  Body.pure hP.stable fun _ _ _ => trivial

theorem choose (hP : Persists d P) (q : M.Choice) :
    Request arrivals d t P (Tx.choose q : Action M ε (M.Answer q)) fun _ => P := by
  have hquiet : (outline arrivals d).QuietOp t (.choose q) := by
    rintro s r s' hi rfl
    exact ⟨hi, fun u => Rely.refl _ u _⟩
  refine Outline.Triple.quiet hP.stable hquiet fun r => ?_
  exact Outline.Triple.done hP.stable fun _ _ h _ _ => h

theorem query {g : M.Db → α} {R : α → M.Db → Prop} (hP : Persists d P)
    (hR : ∀ a, Persists d (R a)) (hg : ∀ db, d.good db → P db → R (g db) db) :
    Request arrivals d t P
      (ExceptT.mk (transaction do return g (← view)) : Action M ε α) R := by
  refine Body.transaction (P := P) (R := R) hP.lasts (fun a => (hR a).lasts) ?_
  refine Body.view (R := fun v => R (g v)) hP.lasts hg fun v => ?_
  exact Body.pure (stable_in (hR (g v)).lasts) fun _ _ hs => hs.fact

theorem transaction {body : Action M ε α} (hP : Persists d P)
    (h : Body arrivals d t (In t [] id P) body fun _ _ => True) :
    Request arrivals d t P (ExceptT.mk (Tx.transaction body)) fun _ _ => True :=
  Body.transaction (P := P) (R := fun _ _ => True) hP.lasts (fun _ => lasts_const) h

end Request

namespace Safely

theorem done {a : α} : Safely arrivals d t P (.done a) := fun _ _ _ _ _ => trivial

/-- Whatever becomes of a request, the program goes on. -/
theorem bind {request : Action M ε α} {k : Except ε α → Program (Op M) (Reply M) β}
    (h : Request arrivals d t P request fun _ _ => True)
    (hk : ∀ result, Safely arrivals d t (fun _ => True) (k result)) :
    Safely arrivals d t P (request.run >>= k) :=
  Outline.Triple.bind (Outline.Triple.conseq h (fun _ h => h) fun _ _ _ _ => trivial) hk

/-- A program as a request that does not fail. -/
theorem lift {p : Program (Op M) (Reply M) α} (h : Safely arrivals d t P p) :
    Request arrivals d t P (ExceptT.lift p : Action M ε α) fun _ _ => True :=
  Outline.Triple.conseq (Outline.Triple.bind h fun _ => done (P := fun _ => True))
    (fun _ h => h) fun _ _ _ _ _ _ => trivial

end Safely

end RestFleet.Tx
