import Mathlib.Algebra.Group.Int.Defs
import Mathlib.Algebra.GroupWithZero.Nat
import Mathlib.Data.List.Basic

/-! # Strings and identifiers of the source

Strings are lists of characters; only the standard-library functions that the modelled code
calls are here. Identifiers are the 128 bits of a UUID. -/

namespace RestFleet

abbrev Text := List Char

abbrev Bytes := List UInt8

namespace Text

def hasPrefix (s p : Text) : Bool := p.isPrefixOf s

def hasSuffix (s p : Text) : Bool := p.isSuffixOf s

def trimPrefix (s p : Text) : Text := if s.hasPrefix p then s.drop p.length else s

def cut (s : Text) (sep : Char) : Option (Text × Text) :=
  match s with
  | [] => none
  | c :: rest => if c = sep then some ([], rest) else (cut rest sep).map fun p => (c :: p.1, p.2)

def isLowerHex (c : Char) : Bool := c.isDigit || ('a' ≤ c && c ≤ 'f')

def hexEncode (bytes : Bytes) : Text :=
  bytes.flatMap fun b => [Nat.digitChar (b.toNat / 16), Nat.digitChar (b.toNat % 16)]

def hexValue (c : Char) : Option ℕ :=
  if c.isDigit then some (c.toNat - '0'.toNat)
  else if 'a' ≤ c && c ≤ 'f' then some (c.toNat - 'a'.toNat + 10)
  else if 'A' ≤ c && c ≤ 'F' then some (c.toNat - 'A'.toNat + 10)
  else none

def hexDecode : Text → Option Bytes
  | [] => some []
  | [_] => none
  | c :: d :: rest =>
    match hexValue c, hexValue d, hexDecode rest with
    | some hi, some lo, some bytes => some ((16 * hi + lo).toUInt8 :: bytes)
    | _, _, _ => none

theorem hasPrefix_iff (s p : Text) : s.hasPrefix p = true ↔ p <+: s := by
  simp [hasPrefix]

theorem hasSuffix_iff (s p : Text) : s.hasSuffix p = true ↔ p <:+ s := by
  simp [hasSuffix]

theorem cut_eq_some {s : Text} {sep : Char} {before after : Text}
    (h : s.cut sep = some (before, after)) : s = before ++ sep :: after := by
  induction s generalizing before with
  | nil => simp [cut] at h
  | cons c rest ih =>
      by_cases hc : c = sep
      · simp only [cut, hc, if_true, Option.some.injEq, Prod.mk.injEq] at h
        obtain ⟨rfl, rfl⟩ := h
        simp [hc]
      · simp only [cut, hc, if_false, Option.map_eq_some_iff, Prod.mk.injEq] at h
        obtain ⟨⟨b, a⟩, hr, rfl, rfl⟩ := h
        simp [ih hr]

theorem cut_append {before : Text} {sep : Char} (after : Text) (h : sep ∉ before) :
    cut (before ++ sep :: after) sep = some (before, after) := by
  induction before with
  | nil => simp [cut]
  | cons c rest ih =>
      have hc : c ≠ sep := fun he => h (by simp [he])
      have hr : sep ∉ rest := fun he => h (by simp [he])
      simp [cut, hc, ih hr]

theorem flatMap_inj {α : Type} {f g : α → Text} {xs : List α}
    (hlen : ∀ x ∈ xs, (f x).length = (g x).length) (h : xs.flatMap f = xs.flatMap g) :
    ∀ x ∈ xs, f x = g x := by
  induction xs with
  | nil => simp
  | cons x xs ih =>
      rw [List.flatMap_cons, List.flatMap_cons] at h
      obtain ⟨hx, hxs⟩ := List.append_inj h (hlen x List.mem_cons_self)
      intro y hy
      rcases List.mem_cons.mp hy with rfl | hy
      · exact hx
      · exact ih (fun z hz => hlen z (List.mem_cons_of_mem x hz)) hxs y hy

theorem digitChar_inj {a b : ℕ} (ha : a < 16) (hb : b < 16)
    (h : Nat.digitChar a = Nat.digitChar b) : a = b := by
  have hfin : ∀ a b : Fin 16, Nat.digitChar a = Nat.digitChar b → a = b := by decide
  simpa using hfin ⟨a, ha⟩ ⟨b, hb⟩ h

end Text

abbrev UUID := BitVec 128

instance : LawfulBEq UUID := instLawfulBEq

namespace UUID

def nil : UUID := 0

/-- `id.Version()`: the high half of octet 6. -/
def version (id : UUID) : ℕ := (id.extractLsb 79 76).toNat

/-- `id.Variant() == uuid.RFC4122`: the two high bits of octet 8. -/
def rfc4122 (id : UUID) : Bool := id.extractLsb 63 62 = 2#2

/-- The check `id.Version() != 7 || id.Variant() != uuid.RFC4122`, negated. -/
def isV7 (id : UUID) : Bool := id.version = 7 && id.rfc4122

def text (id : UUID) : Text :=
  (List.range 32).flatMap fun i =>
    let digit := Nat.digitChar ((id >>> (4 * (31 - i))) &&& 15).toNat
    if i = 8 || i = 12 || i = 16 || i = 20 then ['-', digit] else [digit]

/-- An identifier is determined by its hexadecimal digits. -/
theorem eq_of_digits {a b : UUID}
    (h : ∀ i < 32, (a >>> (4 * (31 - i))) &&& 15 = (b >>> (4 * (31 - i))) &&& 15) : a = b := by
  refine BitVec.eq_of_getLsbD_eq fun j hj => ?_
  have hbit := congrArg (fun v : UUID => v.getLsbD (j % 4)) (h (31 - j / 4) (by omega))
  have hmask : ∀ r : Fin 4, (15#128).getLsbD r = true := by decide
  have hone : (15#128).getLsbD (j % 4) = true := hmask ⟨j % 4, Nat.mod_lt _ (by omega)⟩
  have hsum : 4 * (31 - (31 - j / 4)) + j % 4 = j := by omega
  simpa [BitVec.getLsbD_and, BitVec.getLsbD_ushiftRight, hone, hsum] using hbit

theorem text_injective : Function.Injective text := by
  intro a b h
  refine eq_of_digits fun i hi => ?_
  have hblock := Text.flatMap_inj (fun i _ => by dsimp only; split <;> rfl) h i
    (List.mem_range.mpr hi)
  have hdigit : Nat.digitChar ((a >>> (4 * (31 - i))) &&& 15).toNat =
      Nat.digitChar ((b >>> (4 * (31 - i))) &&& 15).toNat := by
    dsimp only at hblock
    split at hblock <;> simpa using hblock
  have hlt : ∀ v : UUID, (v &&& 15).toNat < 16 := by
    intro v
    rw [BitVec.toNat_and]
    exact Nat.lt_of_le_of_lt Nat.and_le_right (by decide)
  exact BitVec.eq_of_toNat_eq (Text.digitChar_inj (hlt _) (hlt _) hdigit)

end UUID

end RestFleet
