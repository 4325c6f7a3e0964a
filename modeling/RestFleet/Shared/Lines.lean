import Mathlib.Data.List.TakeWhile

/-! # Writers that collect lines

A writer gets a stream in chunks and acts on separators. If adding a part to a line is the same as
adding its items one by one, the chunks do not matter. -/

namespace RestFleet

/-- `absorb` adds a part of a line, `newline` acts on a complete one; a stopped writer ignores the
rest. -/
structure LineSink (β σ : Type) where
  sep : β
  stop : σ → Bool
  absorb : σ → List β → σ
  newline : σ → σ

namespace LineSink

variable {β σ : Type} [DecidableEq β] (k : LineSink β σ)

/-- The loop over a chunk, with at most `n` parts. -/
def loop : ℕ → σ → List β → σ
  | 0, s, _ => s
  | n + 1, s, chunk =>
    if chunk.isEmpty || k.stop s then s
    else
      let s := k.absorb s (chunk.takeWhile (· ≠ k.sep))
      if k.stop s then s
      else match chunk.dropWhile (· ≠ k.sep) with
        | [] => s
        | _ :: rest => loop n (k.newline s) rest

/-- Every part takes at least one item, or a separator. -/
def write (s : σ) (chunk : List β) : σ := k.loop chunk.length s chunk

def step (s : σ) (b : β) : σ :=
  if k.stop s then s else if b = k.sep then k.newline s else k.absorb s [b]

/-- Adding a part is adding its items one by one, as long as the invariant holds. -/
structure Steady (inv : σ → Prop) : Prop where
  absorb_nil : ∀ {s}, inv s → k.stop s = false → k.absorb s [] = s
  absorb_cons : ∀ {s} b part, inv s → k.stop s = false → k.absorb s (b :: part) =
    if k.stop (k.absorb s [b]) then k.absorb s [b] else k.absorb (k.absorb s [b]) part
  inv_absorb : ∀ {s} b, inv s → k.stop s = false → inv (k.absorb s [b])
  inv_newline : ∀ {s}, inv s → k.stop s = false → inv (k.newline s)

variable {k} {inv : σ → Prop}

theorem step_of_stop {s : σ} (h : k.stop s = true) (b : β) : k.step s b = s := if_pos h

theorem step_of_ne {s : σ} (h : k.stop s = false) {b : β} (hb : b ≠ k.sep) :
    k.step s b = k.absorb s [b] := by
  simp [step, h, hb]

theorem step_sep {s : σ} (h : k.stop s = false) : k.step s k.sep = k.newline s := by
  simp [step, h]

theorem foldl_step_of_stop {s : σ} (h : k.stop s = true) (items : List β) :
    items.foldl k.step s = s := by
  induction items with
  | nil => rfl
  | cons b items ih => rw [List.foldl_cons, step_of_stop h, ih]

theorem Steady.inv_step (h : k.Steady inv) {s : σ} (hs : inv s) (b : β) : inv (k.step s b) := by
  unfold step
  split
  case isTrue => exact hs
  case isFalse hstop =>
    rw [Bool.not_eq_true] at hstop
    split
    · exact h.inv_newline hs hstop
    · exact h.inv_absorb b hs hstop

theorem Steady.inv_foldl (h : k.Steady inv) {s : σ} (hs : inv s) (items : List β) :
    inv (items.foldl k.step s) := by
  induction items generalizing s with
  | nil => exact hs
  | cons b items ih => exact ih (h.inv_step hs b)

theorem Steady.absorb_eq (h : k.Steady inv) {s : σ} (hs : inv s) (hstop : k.stop s = false)
    {part : List β} (hpart : ∀ b ∈ part, b ≠ k.sep) : k.absorb s part = part.foldl k.step s := by
  induction part generalizing s with
  | nil => exact h.absorb_nil hs hstop
  | cons b part ih =>
      obtain ⟨hb, hpart⟩ := List.forall_mem_cons.mp hpart
      rw [h.absorb_cons b part hs hstop, List.foldl_cons, step_of_ne hstop hb]
      split
      case isTrue hstopped => rw [foldl_step_of_stop hstopped]
      case isFalse hgoing => exact ih (h.inv_absorb b hs hstop) (by simpa using hgoing) hpart

/-- The loop over a chunk takes its items one by one. -/
theorem Steady.loop_eq (h : k.Steady inv) {n : ℕ} {s : σ} (hs : inv s) {chunk : List β}
    (hn : chunk.length ≤ n) : k.loop n s chunk = chunk.foldl k.step s := by
  induction n generalizing s chunk with
  | zero =>
      rw [List.length_eq_zero_iff.mp (Nat.le_zero.mp hn)]
      rfl
  | succ n ih =>
      rw [loop]
      split
      case isTrue hend =>
        rcases Bool.or_eq_true_iff.mp hend with hempty | hstop
        · rw [List.isEmpty_iff.mp hempty]
          rfl
        · rw [foldl_step_of_stop hstop]
      case isFalse hgo =>
        simp only [Bool.or_eq_true, not_or, Bool.not_eq_true] at hgo
        have hpart : ∀ b ∈ chunk.takeWhile (· ≠ k.sep), b ≠ k.sep := by
          intro b hb
          simpa using List.mem_takeWhile_imp hb
        have habsorb := h.absorb_eq hs hgo.2 hpart
        have hcut := List.takeWhile_append_dropWhile (p := (· ≠ k.sep)) (l := chunk)
        have hwhole : chunk.foldl k.step s = (chunk.dropWhile (· ≠ k.sep)).foldl k.step
            (k.absorb s (chunk.takeWhile (· ≠ k.sep))) := by
          rw [habsorb, ← List.foldl_append, hcut]
        rw [hwhole]
        simp only
        split
        case isTrue hstopped => rw [foldl_step_of_stop hstopped]
        case isFalse hgoing =>
          rw [Bool.not_eq_true] at hgoing
          split
          case h_1 hrest => rw [hrest, List.foldl_nil]
          case h_2 c rest hrest =>
            have hsep : c = k.sep := by
              have hhead := List.head?_dropWhile_not (· ≠ k.sep) chunk
              rw [hrest] at hhead
              simpa using hhead
            have hlength := congrArg List.length hcut
            rw [hrest, List.length_append, List.length_cons] at hlength
            rw [hrest, List.foldl_cons, hsep, step_sep hgoing]
            refine ih (h.inv_newline ?_ hgoing) (by omega)
            rw [habsorb]
            exact h.inv_foldl hs _

theorem Steady.write_eq (h : k.Steady inv) {s : σ} (hs : inv s) (chunk : List β) :
    k.write s chunk = chunk.foldl k.step s := h.loop_eq hs (le_refl _)

/-- However a stream is cut into chunks, writing them is running over its items. -/
theorem Steady.writes_eq (h : k.Steady inv) {s : σ} (hs : inv s) (chunks : List (List β)) :
    chunks.foldl k.write s = chunks.flatten.foldl k.step s := by
  induction chunks generalizing s with
  | nil => rfl
  | cons chunk chunks ih =>
      rw [List.foldl_cons, h.write_eq hs, ih (h.inv_foldl hs chunk), List.flatten_cons,
        List.foldl_append]

end LineSink

end RestFleet
