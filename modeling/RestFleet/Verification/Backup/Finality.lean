import RestFleet.Verification.Backup.Journal

/-! # Finality of backup operations -/

namespace RestFleet.Backup

open Tx (Lasts)

variable {start db db' : Database} {e : Entry} {id : UUID} {o : Operation}

/-- A well-formed row under its own key. -/
def Proper (id : UUID) (o : Operation) : Prop := o.Ok ∧ o.id = id

theorem rowRule_step (id : UUID) : RowRule Operation.Step (Proper id) :=
  ⟨Operation.Step.refl, fun _ _ _ => Operation.Step.trans,
    fun _ _ h hs => ⟨(hs h.1).2, (hs h.1).1.id.trans h.2⟩⟩

theorem respects_step (hg : e.Guard db) : e.Respects id Operation.Step (Proper id) := by
  cases e with
  | progressed p =>
      exact fun hid => ⟨⟨p.newRow_ok, hid⟩, fun o => o.progress_step p, fun o => o.count_step p⟩
  | resulted r p =>
      exact fun hid => ⟨⟨Result.newRow_ok hg.2.1, hid⟩, fun o => o.finish_step hg.2.1,
        fun o => o.summarize_step⟩
  | created o key savedAt =>
      refine fun hid => ⟨?_, hid⟩
      rw [Operation.Ok, hg.2.1, hg.2.2.1]
      rfl
  | canceled found now key savedAt => exact fun _ _ o => o.cancel_step
  | claimed stream i now retryBefore => exact fun _ o => o.dispatch_step now
  | accepted i now => exact fun _ o => o.accept_step now
  | rejected i now => exact fun _ o => o.reject_step now
  | closed cutoff now ids => exact fun _ o => o.closeUnstarted_step cutoff now
  | reconciled bootCutoff now runs ids => exact fun _ o a => o.reconcile_step a bootCutoff now
  | _ => trivial

/-- Every row is well formed and stored under its own key. -/
def RowsOk (db : Database) : Prop := ∀ id o, db.operations.row id = some o → Proper id o

/-- No row disappears, and each changes as rows may. -/
def Evolves (db db' : Database) : Prop :=
  ∀ id o, db.operations.row id = some o → ∃ o', db'.operations.row id = some o' ∧ o.Next o'

theorem RowsOk.commit (h : RowsOk db) (hg : e.Guard db) : RowsOk (e.commit db) := by
  intro id o ho
  have hstep : RowStep Operation.Step (Proper id) (db.operations.row id)
      ((e.commit db).operations.row id) := commit_rowStep (rowRule_step id) hg (respects_step hg)
  rw [ho] at hstep
  generalize hx : db.operations.row id = x at hstep
  cases hstep with
  | keep => exact h id o hx
  | insert hn => exact hn
  | change hs => exact (rowRule_step id).new _ _ (h id _ hx) hs

theorem RowsOk.evolves (h : RowsOk db) (hg : e.Guard db) : Evolves db (e.commit db) := by
  intro id o ho
  have hstep : RowStep Operation.Step (Proper id) (db.operations.row id)
      ((e.commit db).operations.row id) := commit_rowStep (rowRule_step id) hg (respects_step hg)
  rw [ho] at hstep
  generalize hy : (e.commit db).operations.row id = y at hstep
  cases hstep with
  | keep => exact ⟨o, rfl, .refl o⟩
  | change hs => exact ⟨_, rfl, (hs (h id o ho).1).1⟩

theorem Evolves.refl (db : Database) : Evolves db db := fun _ o ho => ⟨o, ho, .refl o⟩

theorem Evolves.trans {db'' : Database} (h : Evolves db db') (h' : Evolves db' db'') :
    Evolves db db'' := by
  intro id o ho
  obtain ⟨o', ho', hn⟩ := h id o ho
  obtain ⟨o'', ho'', hn'⟩ := h' id o' ho'
  exact ⟨o'', ho'', hn.trans hn'⟩

theorem keeps_of_extends {allowed : Entry → Prop} {P : Database → Prop}
    (h : (journal start).Extends allowed db db')
    (hstep : ∀ (e : Entry) (db : Database), e.Guard db → P db → P (e.commit db)) (hP : P db) :
    P db' :=
  h.keeps (fun e db _ hg hp => hstep e db hg hp) hP

theorem keeps_of_reaches {P : Database → Prop} (h : (journal start).Reaches db)
    (hstep : ∀ (e : Entry) (db : Database), e.Guard db → P db → P (e.commit db))
    (hP : P start) : P db := by
  obtain ⟨_, rfl, he⟩ := h
  exact keeps_of_extends he hstep hP

theorem rowsOk_of_reaches (hs : RowsOk start) (h : (journal start).Reaches db) : RowsOk db :=
  keeps_of_reaches h (fun _ _ hg hok => hok.commit hg) hs

theorem evolves_of_extends {allowed : Entry → Prop} (hok : RowsOk db)
    (h : (journal start).Extends allowed db db') : Evolves db db' := by
  have hboth : RowsOk db' ∧ Evolves db db' :=
    keeps_of_extends (P := fun db' => RowsOk db' ∧ Evolves db db') h
      (fun _ _ hg hb => ⟨hb.1.commit hg, hb.2.trans (hb.1.evolves hg)⟩) ⟨hok, .refl db⟩
  exact hboth.2

end RestFleet.Backup
