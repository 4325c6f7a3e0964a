import Mathlib.Data.List.TakeWhile
import RestFleet.Model.Strings

/-! # Facts about text functions

What `strings.Split`, `strings.TrimSpace` and `filepath.Clean` do with texts that are put together. -/

namespace RestFleet.Text

/-! ### Parts -/

theorem split_ne_nil (sep : Char) (s : Text) : s.split sep ≠ [] := by
  cases s with
  | nil => simp [Text.split]
  | cons c rest =>
      rw [Text.split]
      split
      · simp
      · split <;> simp

theorem split_eq_singleton {sep : Char} {s : Text} (h : sep ∉ s) : s.split sep = [s] := by
  induction s with
  | nil => rfl
  | cons c rest ih =>
      rw [List.mem_cons, not_or] at h
      rw [Text.split, if_neg (Ne.symm h.1), ih h.2]

theorem split_append_sep {sep : Char} (s rest : Text) :
    Text.split sep (s ++ sep :: rest) = s.split sep ++ rest.split sep := by
  induction s with
  | nil => simp [Text.split]
  | cons c s ih =>
      rw [List.cons_append, Text.split, Text.split]
      by_cases hc : c = sep
      · rw [if_pos hc, if_pos hc, ih]
        rfl
      · rw [if_neg hc, if_neg hc, ih]
        cases hsplit : Text.split sep s with
        | nil => exact absurd hsplit (split_ne_nil sep s)
        | cons part parts => rfl

theorem split_append {sep : Char} {s name : Text} (h : sep ∉ name) :
    Text.split sep (s ++ sep :: name) = s.split sep ++ [name] := by
  rw [split_append_sep, split_eq_singleton h]

theorem not_mem_of_mem_split {sep : Char} {s part : Text} (h : part ∈ s.split sep) :
    sep ∉ part := by
  induction s generalizing part with
  | nil => simp_all [Text.split]
  | cons c rest ih =>
      rw [Text.split] at h
      by_cases hc : c = sep
      · rw [if_pos hc] at h
        rcases List.mem_cons.mp h with rfl | h
        · exact List.not_mem_nil
        · exact ih h
      · rw [if_neg hc] at h
        cases hsplit : Text.split sep rest with
        | nil => exact absurd hsplit (split_ne_nil sep rest)
        | cons first parts =>
            rw [hsplit] at h ih
            rcases List.mem_cons.mp h with rfl | h
            · exact List.not_mem_cons_of_ne_of_not_mem (Ne.symm hc) (ih List.mem_cons_self)
            · exact ih (List.mem_cons_of_mem _ h)

theorem mem_split {sep c : Char} {s : Text} (h : c ∈ s) : c = sep ∨ ∃ part ∈ s.split sep, c ∈ part := by
  induction s with
  | nil => cases h
  | cons d rest ih =>
      rw [split]
      by_cases hd : d = sep
      · rw [if_pos hd]
        rcases List.mem_cons.mp h with rfl | h
        · exact Or.inl hd
        · exact (ih h).imp_right fun ⟨part, hpart, hc⟩ => ⟨part, List.mem_cons_of_mem _ hpart, hc⟩
      · rw [if_neg hd]
        cases hsplit : split sep rest with
        | nil => exact absurd hsplit (split_ne_nil sep rest)
        | cons part parts =>
            rw [hsplit] at ih
            rcases List.mem_cons.mp h with rfl | h
            · exact Or.inr ⟨c :: part, List.mem_cons_self, List.mem_cons_self⟩
            · refine (ih h).imp_right fun ⟨part', hpart', hc⟩ => ?_
              rcases List.mem_cons.mp hpart' with rfl | hpart'
              · exact ⟨d :: part', List.mem_cons_self, List.mem_cons_of_mem d hc⟩
              · exact ⟨part', List.mem_cons_of_mem _ hpart', hc⟩

theorem cut_eq_none {s : Text} {sep : Char} (h : sep ∉ s) : s.cut sep = none := by
  induction s with
  | nil => rfl
  | cons c rest ih =>
      rw [List.mem_cons, not_or] at h
      rw [cut, if_neg (Ne.symm h.1), ih h.2]
      rfl

theorem cut_eq_some_iff {s before after : Text} {sep : Char} :
    s.cut sep = some (before, after) ↔ sep ∉ before ∧ s = before ++ sep :: after := by
  refine ⟨fun h => ⟨?_, cut_eq_some h⟩, ?_⟩
  · induction s generalizing before with
    | nil => cases h
    | cons c rest ih =>
        rw [cut] at h
        split at h
        case isTrue =>
          cases h
          exact List.not_mem_nil
        case isFalse hc =>
          obtain ⟨⟨front, back⟩, hcut, heq⟩ := Option.map_eq_some_iff.mp h
          cases heq
          exact List.not_mem_cons_of_ne_of_not_mem (Ne.symm hc) (ih hcut)
  · rintro ⟨hfront, rfl⟩
    exact cut_append after hfront

theorem cut_eq_none_iff {s : Text} {sep : Char} : s.cut sep = none ↔ sep ∉ s := by
  refine ⟨fun h => ?_, cut_eq_none⟩
  induction s with
  | nil => exact List.not_mem_nil
  | cons c rest ih =>
      rw [cut] at h
      split at h
      case isTrue => cases h
      case isFalse hc =>
        exact List.not_mem_cons_of_ne_of_not_mem (Ne.symm hc) (ih (Option.map_eq_none_iff.mp h))

def cleanParts (path : Text) : List Text := (path.split '/').foldl Text.cleanStep []

theorem cleanAbs_eq (path : Text) : path.cleanAbs =
    if (cleanParts path).isEmpty then ['/'] else (cleanParts path).flatMap ('/' :: ·) := rfl

theorem split_line {line rest : Text} (h : '\n' ∉ line) :
    Text.split '\n' (line ++ '\n' :: rest) = line :: rest.split '\n' := by
  rw [split_append_sep, split_eq_singleton h]
  rfl

/-! ### Trimmed texts -/

/-- Neither end of the text is a space. -/
structure Trimmed (s : Text) : Prop where
  head : ∀ c ∈ s.head?, Text.isSpace c = false
  last : ∀ c ∈ s.getLast?, Text.isSpace c = false

theorem dropWhile_concat {p : Char → Bool} {c : Char} (h : p c = false) (s : List Char) :
    (s ++ [c]).dropWhile p = s.dropWhile p ++ [c] := by
  induction s with
  | nil => simp [h]
  | cons d s ih =>
      by_cases hd : p d = true
      · simp [hd, ih]
      · simp [hd]

theorem head_dropWhile {p : Char → Bool} {s : Text} : ∀ c ∈ (s.dropWhile p).head?, p c = false := by
  intro c hc
  have h := List.head?_dropWhile_not p s
  rw [hc] at h
  exact h

theorem dropWhile_eq_self {p : Char → Bool} {s : Text} (h : ∀ c ∈ s.head?, p c = false) :
    s.dropWhile p = s := by
  cases s with
  | nil => rfl
  | cons c s => simp [h c (by simp)]

theorem Trimmed.trimSpace {s : Text} (h : Trimmed s) : s.trimSpace = s := by
  have hlast : ∀ c ∈ s.reverse.head?, Text.isSpace c = false := by
    rw [List.head?_reverse]
    exact h.last
  rw [Text.trimSpace, dropWhile_eq_self h.head, dropWhile_eq_self hlast, List.reverse_reverse]

theorem trimSpace_front (s : Text) : s.trimSpace <+: s.dropWhile Text.isSpace := by
  rw [Text.trimSpace]
  have hsuffix := List.dropWhile_suffix Text.isSpace (l := (s.dropWhile Text.isSpace).reverse)
  rw [← List.reverse_prefix, List.reverse_reverse] at hsuffix
  exact hsuffix

theorem trimmed_trimSpace (s : Text) : Trimmed s.trimSpace := by
  constructor
  · intro c hc
    obtain ⟨rest, hrest⟩ := trimSpace_front s
    refine head_dropWhile (s := s) c ?_
    rw [← hrest]
    cases htrim : s.trimSpace with
    | nil => rw [htrim] at hc; cases hc
    | cons d t => rw [htrim] at hc; exact hc
  · intro c hc
    rw [Text.trimSpace, List.getLast?_reverse] at hc
    exact head_dropWhile c hc

theorem mem_of_mem_trimSpace {s : Text} {c : Char} (h : c ∈ s.trimSpace) : c ∈ s :=
  (List.dropWhile_suffix _).mem ((trimSpace_front s).mem h)

theorem trimSpace_append_space {s : Text} (h : Trimmed s) (hne : s ≠ []) :
    Text.trimSpace (s ++ [' ']) = s := by
  have hhead : ∀ c ∈ (s ++ [' ']).head?, Text.isSpace c = false := by
    rw [List.head?_append_of_ne_nil _ hne]
    exact h.head
  have hlast : ∀ c ∈ s.reverse.head?, Text.isSpace c = false := by
    rw [List.head?_reverse]
    exact h.last
  rw [Text.trimSpace, dropWhile_eq_self hhead, List.reverse_append, List.reverse_singleton,
    List.singleton_append, List.dropWhile_cons_of_pos (by decide), dropWhile_eq_self hlast,
    List.reverse_reverse]

theorem trimSpace_cons_space {s : Text} (h : Trimmed s) : Text.trimSpace (' ' :: s) = s := by
  have hsame := h.trimSpace
  rw [Text.trimSpace] at hsame ⊢
  rw [List.dropWhile_cons_of_pos (by decide), hsame]

end RestFleet.Text

/-! ### Identifiers -/

namespace RestFleet.UUID

/-- The characters of one hexadecimal digit, with the dash before it. -/
def block (id : UUID) (i : ℕ) : Text :=
  let digit := Nat.digitChar ((id >>> (4 * (31 - i))) &&& 15).toNat
  if i = 8 || i = 12 || i = 16 || i = 20 then ['-', digit] else [digit]

theorem text_eq (id : UUID) : id.text = (List.range 32).flatMap id.block := rfl

theorem digit_toNat (id : UUID) (n : ℕ) :
    ((id >>> n) &&& 15).toNat = id.toNat / 2 ^ n % 16 := by
  have h15 : BitVec.toNat (15 : UUID) = 2 ^ 4 - 1 := rfl
  rw [BitVec.toNat_and, BitVec.toNat_ushiftRight, Nat.shiftRight_eq_div_pow, h15,
    Nat.and_two_pow_sub_one_eq_mod]

theorem digitChar_lt {a b : ℕ} (ha : a < 16) (hb : b < 16) (h : a < b) :
    Nat.digitChar a < Nat.digitChar b := by
  have hfin : ∀ a b : Fin 16, a < b → Nat.digitChar a < Nat.digitChar b := by decide
  exact hfin ⟨a, ha⟩ ⟨b, hb⟩ h

/-- Below a common front of digits the texts are in the order of the numbers. -/
theorem blocks_lt {a b : UUID} (h : a < b) (n : ℕ) (hn : n ≤ 32)
    (hfront : a.toNat / 2 ^ (4 * n) = b.toNat / 2 ^ (4 * n)) :
    (List.range' (32 - n) n).flatMap a.block < (List.range' (32 - n) n).flatMap b.block := by
  induction n with
  | zero =>
      rw [Nat.mul_zero, Nat.pow_zero, Nat.div_one, Nat.div_one] at hfront
      exact absurd hfront (Nat.ne_of_lt h)
  | succ n ih =>
      have hrange : List.range' (32 - (n + 1)) (n + 1) = (31 - n) :: List.range' (32 - n) n := by
        rw [List.range'_succ, show 32 - (n + 1) = 31 - n by omega, show 31 - n + 1 = 32 - n by omega]
      have hindex : 4 * (31 - (31 - n)) = 4 * n := by omega
      have hsplit : 2 ^ (4 * (n + 1)) = 2 ^ (4 * n) * 16 := by rw [Nat.mul_add, Nat.pow_add]
      rw [hsplit, ← Nat.div_div_eq_div_mul, ← Nat.div_div_eq_div_mul] at hfront
      have hle : a.toNat / 2 ^ (4 * n) ≤ b.toNat / 2 ^ (4 * n) := Nat.div_le_div_right (Nat.le_of_lt h)
      rw [hrange, List.flatMap_cons, List.flatMap_cons]
      simp only [block, hindex, digit_toNat]
      by_cases hdigit : a.toNat / 2 ^ (4 * n) % 16 = b.toNat / 2 ^ (4 * n) % 16
      · rw [hdigit]
        have hrest := ih (by omega) (by omega)
        split <;> simpa [List.cons_lt_cons_iff] using hrest
      · have hlt := digitChar_lt (Nat.mod_lt _ (by decide)) (Nat.mod_lt _ (by decide))
          (by omega : a.toNat / 2 ^ (4 * n) % 16 < b.toNat / 2 ^ (4 * n) % 16)
        split <;> simp [List.cons_lt_cons_iff, hlt]

theorem text_lt_iff {a b : UUID} : a.text < b.text ↔ a < b := by
  have hmono {a b : UUID} (h : a < b) : a.text < b.text := by
    have hblocks := blocks_lt h 32 (le_refl 32) (by
      rw [Nat.div_eq_of_lt a.isLt, Nat.div_eq_of_lt b.isLt])
    rwa [Nat.sub_self, ← List.range_eq_range'] at hblocks
  refine ⟨fun h => ?_, hmono⟩
  rcases Nat.lt_trichotomy a.toNat b.toNat with hlt | heq | hgt
  · exact hlt
  · rw [BitVec.eq_of_toNat_eq heq] at h
    exact absurd h (List.lt_irrefl _)
  · exact absurd h (List.lt_asymm (hmono hgt))

end RestFleet.UUID
