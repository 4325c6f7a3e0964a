import RestFleet.Shared.JsonText
import RestFleet.Verification.Domain.Codec

/-! # What the canonical JSON determines -/

namespace RestFleet.Domain

open Json (Valid)

theorem valid_obj {members : List (Text × Json)} (h : ∀ m ∈ members, Valid m.2) :
    Valid (.obj members) :=
  Json.validMembers_iff.mpr h

theorem valid_sparse {members : List (Text × Json)} (h : ∀ m ∈ members, Valid m.2) :
    Valid (.obj (Json.sparse members)) :=
  valid_obj fun m hm => h m (List.mem_filter.mp hm).1

theorem valid_encodeSlice {α : Type} {encode : α → Json} (h : ∀ x, Valid (encode x)) :
    ∀ s : Slice α, Valid (Json.encodeSlice encode s)
  | none => trivial
  | some xs => Json.validItems_iff.mpr fun j hj => by
      obtain ⟨x, -, rfl⟩ := List.mem_map.mp hj
      exact h x

theorem valid_encodePointer {α : Type} {encode : α → Json} (h : ∀ x, Valid (encode x)) :
    ∀ x : Option α, Valid (Json.encodePointer encode x)
  | none => trivial
  | some x => h x

theorem BackupRetryPolicy.valid_encode (p : BackupRetryPolicy) : Valid p.encode :=
  valid_sparse (by simp [members, Valid])

theorem BackupResourceLimits.valid_encode (p : BackupResourceLimits) : Valid p.encode :=
  valid_sparse (by simp [members, Valid])

theorem BackupExecution.valid_encode (e : BackupExecution) : Valid e.encode := by
  have hids : ∀ ids : Slice UUID, Valid (Json.encodeSlice encodeUUID ids) :=
    valid_encodeSlice fun _ => trivial
  refine valid_sparse ?_
  simp only [members, List.forall_mem_cons]
  exact ⟨valid_encodePointer BackupRetryPolicy.valid_encode _,
    valid_encodePointer BackupResourceLimits.valid_encode _, hids _, hids _, List.forall_mem_nil _⟩

theorem PlanSchedule.valid_encode (p : PlanSchedule) : Valid p.encode := by
  have htexts : ∀ texts : Slice Text, Valid (Json.encodeSlice .str texts) :=
    valid_encodeSlice fun _ => trivial
  have hfixed : ∀ m ∈ p.fixedMembers, Valid m.2 := by
    simp only [fixedMembers, List.forall_mem_cons, htexts]
    simp [Valid, encodeUUID]
  refine valid_obj fun m hm => ?_
  rcases List.mem_append.mp hm with hm | hm
  · exact hfixed m hm
  · rw [List.mem_singleton.mp (List.mem_filter.mp hm).1]
    exact valid_encodePointer BackupExecution.valid_encode _

theorem DesiredState.valid_encode (s : DesiredState) : Valid s.encode := by
  have hplans : Valid (.arr ((sortPlans s.plans).map PlanSchedule.encode)) :=
    valid_encodeSlice PlanSchedule.valid_encode (some (sortPlans s.plans))
  have hpolicy : Valid s.runtimePolicy.encode := ⟨trivial, trivial, trivial⟩
  exact ⟨hplans, trivial, hpolicy, trivial⟩

end RestFleet.Domain
