import Mathlib.Algebra.GroupWithZero.Nat
import Mathlib.Tactic.Common

/-! # UTF-8

The bytes of a text, and the text that a decoder reads from bytes: a byte that does not begin a
character stands for the replacement character. -/

namespace RestFleet.Utf8

def encode (s : List Char) : List UInt8 := s.flatMap String.utf8EncodeChar

/-- The first character of the bytes. -/
def decodeChar (bytes : List UInt8) : Option Char := bytes.toByteArray.utf8DecodeChar? 0

/-- At most `fuel` characters of the bytes. -/
def decodeUpTo : ℕ → List UInt8 → List Char
  | 0, _ => []
  | _ + 1, [] => []
  | fuel + 1, b :: rest =>
    match decodeChar (b :: rest) with
    | some c => c :: decodeUpTo fuel ((b :: rest).drop c.utf8Size)
    | none => '�' :: decodeUpTo fuel rest

/-- Every character takes a byte or more. -/
def decode (bytes : List UInt8) : List Char := decodeUpTo bytes.length bytes

theorem length_encode (s : List Char) : (encode s).length = (s.map Char.utf8Size).sum := by
  simp [encode, List.length_flatMap]

theorem length_le_length_encode (s : List Char) : s.length ≤ (encode s).length := by
  induction s with
  | nil => exact Nat.le_refl 0
  | cons c s ih =>
      have hpos : 0 < c.utf8Size := c.utf8Size_pos
      rw [length_encode] at ih ⊢
      rw [List.map_cons, List.sum_cons, List.length_cons]
      omega

theorem decodeChar_append (c : Char) (rest : List UInt8) :
    decodeChar (String.utf8EncodeChar c ++ rest) = some c := by
  rw [decodeChar, List.toByteArray_append]
  exact ByteArray.utf8DecodeChar?_utf8EncodeChar_append

theorem decodeUpTo_encode (s : List Char) (fuel : ℕ) (h : (encode s).length ≤ fuel) :
    decodeUpTo fuel (encode s) = s := by
  induction s generalizing fuel with
  | nil => cases fuel <;> rfl
  | cons c s ih =>
      have hsplit : encode (c :: s) = String.utf8EncodeChar c ++ encode s := by
        rw [encode, List.flatMap_cons]
        rfl
      have hsize : (String.utf8EncodeChar c).length = c.utf8Size := String.length_utf8EncodeChar c
      have hpos : 0 < c.utf8Size := c.utf8Size_pos
      rw [hsplit, List.length_append] at h
      obtain ⟨fuel, rfl⟩ : ∃ k, fuel = k + 1 := ⟨fuel - 1, by omega⟩
      have hread := decodeChar_append c (encode s)
      have hdrop : (String.utf8EncodeChar c ++ encode s).drop c.utf8Size = encode s := by
        rw [← hsize, List.drop_left]
      rw [hsplit]
      cases hbytes : String.utf8EncodeChar c ++ encode s with
      | nil =>
          have hlength := congrArg List.length hbytes
          rw [List.length_append, hsize, List.length_nil] at hlength
          omega
      | cons b rest =>
          rw [hbytes] at hread hdrop
          rw [decodeUpTo, hread]
          dsimp only
          rw [hdrop, ih fuel (by omega)]

theorem decode_encode (s : List Char) : decode (encode s) = s :=
  decodeUpTo_encode s _ (Nat.le_refl _)

end RestFleet.Utf8
