import Mathlib.Data.Nat.Bitwise
import RestFleet.Model.Text
import RestFleet.Model.Time

/-! # Text checks of the standard library

The functions of `strings`, `unicode`, `strconv`, `path/filepath` and `uuid` that validation and
decoding call. -/

namespace RestFleet

namespace Text

def isSpace (c : Char) : Bool :=
  let n := c.toNat
  (9 ≤ n && n ≤ 13) || n = 0x20 || n = 0x85 || n = 0xa0 || n = 0x1680 ||
    (0x2000 ≤ n && n ≤ 0x200a) || n = 0x2028 || n = 0x2029 || n = 0x202f || n = 0x205f || n = 0x3000

def isControl (c : Char) : Bool := c.toNat < 0x20 || (0x7f ≤ c.toNat && c.toNat < 0xa0)

def hasControl (s : Text) : Bool := s.any isControl

def trimSpace (s : Text) : Text := ((s.dropWhile isSpace).reverse.dropWhile isSpace).reverse

def byteLength (s : Text) : ℕ := (s.map Char.utf8Size).sum

def split (sep : Char) : Text → List Text
  | [] => [[]]
  | c :: rest =>
    if c = sep then [] :: split sep rest
    else match split sep rest with
      | [] => [[c]]
      | part :: parts => (c :: part) :: parts

def fields (s : Text) : List Text :=
  (split ' ' (s.map fun c => if isSpace c then ' ' else c)).filter fun part => !part.isEmpty

def atoi (s : Text) : Option ℤ :=
  let (negative, number) := match s with
    | '-' :: rest => (true, rest)
    | '+' :: rest => (false, rest)
    | _ => (false, s)
  if number.isEmpty || !number.all Char.isDigit then none
  else
    let value : ℤ := number.foldl (fun n c => 10 * n + (c.toNat - '0'.toNat : ℕ)) 0
    let value := if negative then -value else value
    if isInt64 value then some value else none

def cleanStep (done : List Text) (part : Text) : List Text :=
  if part = [] || part = ['.'] then done
  else if part = ['.', '.'] then done.dropLast
  else done ++ [part]

def isAbs (path : Text) : Bool := path.head? = some '/'

def cleanAbs (path : Text) : Text :=
  let parts := (split '/' path).foldl cleanStep []
  if parts.isEmpty then ['/'] else parts.flatMap fun part => '/' :: part

end Text

namespace UUID

def ofDigits (digits : List ℕ) : ℕ := digits.foldl (fun n d => 16 * n + d) 0

def parseDigits (s : Text) : Option UUID :=
  (s.mapM Text.hexValue).map fun digits => BitVec.ofNat 128 (ofDigits digits)

/-- The form with hyphens; what follows it is not read. -/
def parseHyphenated (s : Text) : Option UUID :=
  if [8, 13, 18, 23].all fun i => s[i]? = some '-' then
    parseDigits (s.take 8 ++ (s.drop 9).take 4 ++ (s.drop 14).take 4 ++ (s.drop 19).take 4 ++
      (s.drop 24).take 12)
  else none

/-- `uuid.Parse`; no other character than the ASCII ones can be part of an accepted text. -/
def parse (s : Text) : Option UUID :=
  if s.byteLength ≠ s.length then none
  else if s.length = 36 then parseHyphenated s
  else if s.length = 45 then
    if (s.take 9).map Char.toLower = "urn:uuid:".toList then parseHyphenated (s.drop 9) else none
  else if s.length = 38 then parseHyphenated (s.drop 1)
  else if s.length = 32 then parseDigits s
  else none

def digit (id : UUID) (i : ℕ) : ℕ := ((id >>> (4 * (31 - i))) &&& 15).toNat

theorem digit_eq (id : UUID) (i : ℕ) : id.digit i = id.toNat / 16 ^ (31 - i) % 16 := by
  have hpow : 2 ^ (4 * (31 - i)) = 16 ^ (31 - i) := by rw [Nat.pow_mul]
  rw [digit, BitVec.toNat_and, BitVec.toNat_ushiftRight, Nat.shiftRight_eq_div_pow, hpow]
  exact Nat.and_two_pow_sub_one_eq_mod _ 4

theorem digit_lt (id : UUID) (i : ℕ) : id.digit i < 16 := by
  rw [digit_eq]
  exact Nat.mod_lt _ (by omega)

theorem hexValue_digit (id : UUID) (i : ℕ) :
    Text.hexValue (Nat.digitChar (id.digit i)) = some (id.digit i) := by
  have hfin : ∀ d : Fin 16, Text.hexValue (Nat.digitChar d) = some d.val := by decide
  exact hfin ⟨id.digit i, id.digit_lt i⟩

/-- Reading the leading `k` digits. -/
theorem ofDigits_digits (id : UUID) {k : ℕ} (hk : k ≤ 32) :
    ofDigits ((List.range k).map id.digit) = id.toNat / 16 ^ (32 - k) := by
  induction k with
  | zero =>
      have hlt : id.toNat < 16 ^ 32 := id.isLt
      exact (Nat.div_eq_of_lt hlt).symm
  | succ k ih =>
      have hpow : 16 ^ (32 - k) = 16 ^ (31 - k) * 16 := by
        rw [← Nat.pow_succ]
        congr 1
        omega
      have hsum : 32 - (k + 1) = 31 - k := by omega
      rw [List.range_succ, List.map_append, ofDigits, List.foldl_append]
      change 16 * ofDigits ((List.range k).map id.digit) + id.digit k = _
      rw [ih (by omega), digit_eq, hpow, ← Nat.div_div_eq_div_mul, hsum]
      omega

theorem mapM_hexValue (id : UUID) (is : List ℕ) :
    (is.map fun i => Nat.digitChar (id.digit i)).mapM Text.hexValue = some (is.map id.digit) := by
  induction is with
  | nil => rfl
  | cons i rest ih => simp [List.mapM_cons, hexValue_digit, ih]

/-- The characters of an identifier are hexadecimal digits and hyphens. -/
theorem forall_mem_text {P : Char → Prop} (hd : ∀ d : Fin 16, P (Nat.digitChar d)) (hh : P '-')
    (id : UUID) : ∀ c ∈ id.text, P c := by
  intro c hc
  obtain ⟨i, -, hc⟩ := List.mem_flatMap.mp hc
  have hdigit := hd ⟨id.digit i, id.digit_lt i⟩
  dsimp only at hc
  split at hc
  · rcases List.mem_cons.mp hc with rfl | hc
    · exact hh
    · rw [List.mem_singleton.mp hc]
      exact hdigit
  · rw [List.mem_singleton.mp hc]
    exact hdigit

theorem byteLength_text (id : UUID) : id.text.byteLength = id.text.length := by
  have hone : ∀ c ∈ id.text, c.utf8Size = 1 := id.forall_mem_text (by decide) (by decide)
  rw [Text.byteLength, List.map_congr_left hone]
  simp

theorem parse_text (id : UUID) : parse id.text = some id := by
  have hlen : id.text.length = 36 := rfl
  have hread : parseHyphenated id.text =
      parseDigits ((List.range 32).map fun i => Nat.digitChar (id.digit i)) := rfl
  rw [parse, byteLength_text, hlen, hread, parseDigits, mapM_hexValue,
    Option.map_some, ofDigits_digits id (Nat.le_refl 32)]
  simp

end UUID

end RestFleet
