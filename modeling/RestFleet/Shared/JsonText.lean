import Mathlib.Data.List.TakeWhile
import Mathlib.Data.Nat.Notation
import Mathlib.Tactic.Common
import RestFleet.Shared.Json

/-! # JSON texts

A reader for JSON texts. It reads back what the compact encoder writes, so that the encoding of a
value determines the value. -/

namespace RestFleet.Json

/-! ## The reader -/

def isSpace (c : Char) : Bool := c = ' ' || c = '\t' || c = '\n' || c = '\r'

def skip (s : List Char) : List Char := s.dropWhile isSpace

/-- What comes after the character `c`, if it is the next one. -/
def after (c : Char) (s : List Char) : Option (List Char) :=
  match skip s with
  | [] => none
  | d :: rest => if d = c then some rest else none

def hexDigit (c : Char) : Option ℕ :=
  if c.isDigit then some (c.toNat - '0'.toNat)
  else if 'a' ≤ c && c ≤ 'f' then some (c.toNat - 'a'.toNat + 10)
  else if 'A' ≤ c && c ≤ 'F' then some (c.toNat - 'A'.toNat + 10)
  else none

/-- A part of a string: a character, or a UTF-16 code unit after `\u`. -/
inductive Piece where
  | char (c : Char)
  | code (n : ℕ)

def isHigh (n : ℕ) : Bool := 0xd800 ≤ n && n < 0xdc00

def isLow (n : ℕ) : Bool := 0xdc00 ≤ n && n < 0xe000

/-- A surrogate without its partner is the replacement character. -/
def unpaired : Option ℕ → List Char
  | none => []
  | some _ => ['�']

/-- The characters of a string, after a high surrogate that waits for its partner. -/
def joinPieces : Option ℕ → List Piece → List Char
  | pending, [] => unpaired pending
  | pending, .char c :: rest => unpaired pending ++ c :: joinPieces none rest
  | pending, .code n :: rest =>
    if isLow n then
      match pending with
      | none => '�' :: joinPieces none rest
      | some high =>
        Char.ofNat (0x10000 + (high - 0xd800) * 0x400 + (n - 0xdc00)) :: joinPieces none rest
    else
      unpaired pending ++
        if isHigh n then joinPieces (some n) rest else Char.ofNat n :: joinPieces none rest

/-- The character after a backslash. -/
def unescape (c : Char) : Option Char :=
  if c = '"' || c = '\\' || c = '/' then some c
  else if c = 'n' then some '\n'
  else if c = 'r' then some '\r'
  else if c = 't' then some '\t'
  else if c = 'b' then some (Char.ofNat 8)
  else if c = 'f' then some (Char.ofNat 12)
  else none

def pushPiece (p : Piece) : Option (List Piece × List Char) → Option (List Piece × List Char) :=
  Option.map fun r => (p :: r.1, r.2)

/-- A string up to its closing quote, and what comes after it. -/
def scanString : List Char → Option (List Piece × List Char)
  | [] => none
  | c :: rest =>
    if c = '"' then some ([], rest)
    else if c = '\\' then
      match rest with
      | [] => none
      | e :: rest =>
        if e = 'u' then
          match rest with
          | w :: x :: y :: z :: rest =>
            match hexDigit w, hexDigit x, hexDigit y, hexDigit z with
            | some w, some x, some y, some z =>
              pushPiece (.code (4096 * w + 256 * x + 16 * y + z)) (scanString rest)
            | _, _, _, _ => none
          | _ => none
        else
          match unescape e with
          | some d => pushPiece (.char d) (scanString rest)
          | none => none
    else if c.toNat < 32 then none
    else pushPiece (.char c) (scanString rest)

def parseString (s : List Char) : Option (List Char × List Char) :=
  (scanString s).map fun r => (joinPieces none r.1, r.2)

def isNumberChar (c : Char) : Bool := c.isDigit || c = '-' || c = '+' || c = '.' || c = 'e' || c = 'E'

/-- What comes after the fraction of a number. -/
def skipFraction : List Char → Option (List Char)
  | [] => some []
  | c :: rest =>
    if c = '.' then
      if rest.takeWhile Char.isDigit = [] then none else some (rest.dropWhile Char.isDigit)
    else some (c :: rest)

def isExponent : List Char → Bool
  | [] => true
  | c :: rest =>
    (c = 'e' || c = 'E') &&
      let digits := match rest with
        | [] => []
        | d :: rest' => if d = '+' || d = '-' then rest' else rest
      digits ≠ [] && digits.all Char.isDigit

/-- The number that a literal stands for. -/
def readNumber (literal : List Char) : Option Json :=
  let negative := literal.head? = some '-'
  let body := if negative then literal.tail else literal
  let whole := body.takeWhile Char.isDigit
  let rest := body.dropWhile Char.isDigit
  if whole = [] || (whole.head? = some '0' && 1 < whole.length) then none
  else if rest = [] then
    let n : ℤ := Nat.ofDigitChars 10 whole 0
    some (.int (if negative then -n else n))
  else match skipFraction rest with
    | none => none
    | some rest => if isExponent rest then some (.decimal literal) else none

def parseNumber (s : List Char) : Option (Json × List Char) :=
  (readNumber (s.takeWhile isNumberChar)).map fun j => (j, s.dropWhile isNumberChar)

def keyword (word : List Char) (j : Json) (s : List Char) : Option (Json × List Char) :=
  if word.isPrefixOf s then some (j, s.drop word.length) else none

mutual

def parseValue : ℕ → List Char → Option (Json × List Char)
  | 0, _ => none
  | fuel + 1, s =>
    match skip s with
    | [] => none
    | c :: rest =>
      if c = '"' then (parseString rest).map fun r => (.str r.1, r.2)
      else if c = '[' then
        match after ']' rest with
        | some rest => some (.arr [], rest)
        | none => (parseItems fuel rest).map fun r => (.arr r.1, r.2)
      else if c = '\x7b' then
        match after '\x7d' rest with
        | some rest => some (.obj [], rest)
        | none => (parseMembers fuel rest).map fun r => (.obj r.1, r.2)
      else if c = 'n' then keyword ['u', 'l', 'l'] .null rest
      else if c = 't' then keyword ['r', 'u', 'e'] (.bool true) rest
      else if c = 'f' then keyword ['a', 'l', 's', 'e'] (.bool false) rest
      else parseNumber (c :: rest)

def parseItems : ℕ → List Char → Option (List Json × List Char)
  | 0, _ => none
  | fuel + 1, s =>
    match parseValue fuel s with
    | none => none
    | some (j, rest) =>
      match after ',' rest with
      | some rest => (parseItems fuel rest).map fun r => (j :: r.1, r.2)
      | none => (after ']' rest).map fun rest => ([j], rest)

def parseMembers : ℕ → List Char → Option (List (List Char × Json) × List Char)
  | 0, _ => none
  | fuel + 1, s =>
    match (after '"' s).bind parseString with
    | none => none
    | some (k, rest) =>
      match (after ':' rest).bind (parseValue fuel) with
      | none => none
      | some (j, rest) =>
        match after ',' rest with
        | some rest => (parseMembers fuel rest).map fun r => ((k, j) :: r.1, r.2)
        | none => (after '\x7d' rest).map fun rest => ([(k, j)], rest)

end

/-- The value of a text; a text never needs more steps than twice its length. -/
def parse (s : List Char) : Option Json :=
  match parseValue (2 * s.length + 1) s with
  | none => none
  | some (j, rest) => if skip rest = [] then some j else none

/-! ## Strings are read back -/

theorem hexDigit_digitChar {d : ℕ} (h : d < 16) : hexDigit (Nat.digitChar d) = some d := by
  have hfin : ∀ d : Fin 16, hexDigit (Nat.digitChar d) = some d.val := by decide
  exact hfin ⟨d, h⟩

theorem scanString_hex4 {n : ℕ} (h : n < 65536) (rest : List Char) :
    scanString ('\\' :: 'u' :: (hex4 n ++ rest)) = pushPiece (.code n) (scanString rest) := by
  have hw : hexDigit (Nat.digitChar (n / 4096 % 16)) = some (n / 4096 % 16) :=
    hexDigit_digitChar (Nat.mod_lt _ (by decide))
  have hx : hexDigit (Nat.digitChar (n / 256 % 16)) = some (n / 256 % 16) :=
    hexDigit_digitChar (Nat.mod_lt _ (by decide))
  have hy : hexDigit (Nat.digitChar (n / 16 % 16)) = some (n / 16 % 16) :=
    hexDigit_digitChar (Nat.mod_lt _ (by decide))
  have hz : hexDigit (Nat.digitChar (n % 16)) = some (n % 16) :=
    hexDigit_digitChar (Nat.mod_lt _ (by decide))
  have hn : 4096 * (n / 4096 % 16) + 256 * (n / 256 % 16) + 16 * (n / 16 % 16) + n % 16 = n := by
    omega
  simp [scanString, hex4, hw, hx, hy, hz, hn]

/-- A character that needs no `\u` is read back as itself. -/
theorem scanString_short {e d : Char} (hu : e ≠ 'u') (h : unescape e = some d)
    (rest : List Char) : scanString ('\\' :: e :: rest) = pushPiece (.char d) (scanString rest) := by
  rw [scanString.eq_def]
  dsimp only
  rw [if_neg (by decide), if_pos rfl, if_neg hu, h]

theorem scanString_plain {c : Char} (hquote : c ≠ '"') (hslash : c ≠ '\\') (h : 32 ≤ c.toNat)
    (rest : List Char) : scanString (c :: rest) = pushPiece (.char c) (scanString rest) := by
  rw [scanString.eq_def]
  dsimp only
  rw [if_neg hquote, if_neg hslash, if_neg (by omega)]

theorem joinPieces_char (c : Char) (rest : List Piece) :
    joinPieces none (.char c :: rest) = c :: joinPieces none rest := rfl

theorem joinPieces_code {c : Char} (h : c.toNat < 0xd800) (rest : List Piece) :
    joinPieces none (.code c.toNat :: rest) = c :: joinPieces none rest := by
  have hlow : isLow c.toNat = false := by simp [isLow]; omega
  have hhigh : isHigh c.toNat = false := by simp [isHigh]; omega
  simp [joinPieces, hlow, hhigh, unpaired]

/-- The escape of a character is read as one piece, which stands for the character. -/
theorem scanString_escape (c : Char) :
    ∃ p, (∀ rest, scanString (escape c ++ rest) = pushPiece p (scanString rest)) ∧
      ∀ rest, joinPieces none (p :: rest) = c :: joinPieces none rest := by
  have hshort (e : Char) (hu : e ≠ 'u') (h : unescape e = some c) :
      ∃ p, (∀ rest, scanString (['\\', e] ++ rest) = pushPiece p (scanString rest)) ∧
        ∀ rest, joinPieces none (p :: rest) = c :: joinPieces none rest :=
    ⟨.char c, scanString_short hu h, joinPieces_char c⟩
  unfold escape
  split
  case isTrue hquote =>
    refine hshort c ?_ ?_
    · rintro rfl
      exact absurd hquote (by decide)
    · exact if_pos (by simp [hquote])
  case isFalse hquote =>
  split
  case isTrue h => exact hshort 'n' (by decide) (by rw [h]; rfl)
  split
  case isTrue h => exact hshort 'r' (by decide) (by rw [h]; rfl)
  split
  case isTrue h => exact hshort 't' (by decide) (by rw [h]; rfl)
  split
  case isTrue h => exact hshort 'b' (by decide) (by rw [← Char.ofNat_toNat c, h]; rfl)
  split
  case isTrue h => exact hshort 'f' (by decide) (by rw [← Char.ofNat_toNat c, h]; rfl)
  simp only [Bool.or_eq_true, decide_eq_true_eq, not_or] at hquote
  split
  case isTrue h =>
    have hsmall : c.toNat < 0xd800 := by
      simp only [Bool.or_eq_true, decide_eq_true_eq] at h
      rcases h with ((((h | rfl) | rfl) | rfl) | h) | h <;> first | decide | omega
    exact ⟨.code c.toNat, scanString_hex4 (by omega), joinPieces_code hsmall⟩
  case isFalse h =>
    simp only [Bool.or_eq_true, decide_eq_true_eq, not_or] at h
    exact ⟨.char c, scanString_plain hquote.1 hquote.2 (by omega), joinPieces_char c⟩

theorem scanString_flatMap_escape (s rest : List Char) :
    ∃ pieces, scanString (s.flatMap escape ++ '"' :: rest) = some (pieces, rest) ∧
      joinPieces none pieces = s := by
  induction s with
  | nil => exact ⟨[], by rw [List.flatMap_nil, List.nil_append, scanString.eq_def]; rfl, rfl⟩
  | cons c s ih =>
      obtain ⟨pieces, hscan, hjoin⟩ := ih
      obtain ⟨p, hp, hc⟩ := scanString_escape c
      refine ⟨p :: pieces, ?_, by rw [hc, hjoin]⟩
      rw [List.flatMap_cons, List.append_assoc, hp, hscan]
      rfl

theorem parseString_flatMap_escape (s rest : List Char) :
    parseString (s.flatMap escape ++ '"' :: rest) = some (s, rest) := by
  obtain ⟨pieces, hscan, hjoin⟩ := scanString_flatMap_escape s rest
  simp [parseString, hscan, hjoin]

/-! ## Numbers are read back -/

/-- The text `s` does not go on with a number. -/
def Ends (s : List Char) : Prop := ∀ c ∈ s.head?, isNumberChar c = false

theorem ends_nil : Ends [] := by simp [Ends]

theorem ends_cons {c : Char} {s : List Char} (h : isNumberChar c = false) : Ends (c :: s) := by
  simpa [Ends] using h

/-- A literal that is read as itself. -/
structure Decimal (literal : List Char) : Prop where
  chars : ∀ c ∈ literal, isNumberChar c = true
  read : readNumber literal = some (.decimal literal)

theorem takeWhile_append {p : Char → Bool} {s rest : List Char} (hs : ∀ c ∈ s, p c = true)
    (hrest : ∀ c ∈ rest.head?, p c = false) :
    (s ++ rest).takeWhile p = s ∧ (s ++ rest).dropWhile p = rest := by
  rw [List.takeWhile_append_of_pos hs, List.dropWhile_append_of_pos hs]
  cases rest with
  | nil => simp
  | cons c rest => simp [hrest c (by simp)]

theorem head_toDigits_ne_zero {n : ℕ} (h : 0 < n) : (Nat.toDigits 10 n).head? ≠ some '0' := by
  induction n using Nat.strongRecOn with
  | ind n ih =>
      by_cases hn : n < 10
      · have hfin : ∀ d : Fin 10, 0 < d.val → (Nat.toDigits 10 d).head? ≠ some '0' := by decide
        exact hfin ⟨n, hn⟩ h
      · rw [Nat.toDigits_of_base_le (by decide) (by omega), List.head?_append_of_ne_nil _
          Nat.toDigits_ne_nil]
        exact ih (n / 10) (by omega) (by omega)

theorem isDigit_toDigits {n : ℕ} {c : Char} (h : c ∈ Nat.toDigits 10 n) : c.isDigit = true :=
  Nat.isDigit_of_mem_toDigits (by decide) (by decide) h

theorem toDigits_no_leading_zero (n : ℕ) :
    ¬((Nat.toDigits 10 n).head? = some '0' ∧ 1 < (Nat.toDigits 10 n).length) := by
  rintro ⟨hzero, hlength⟩
  rcases Nat.eq_zero_or_pos n with rfl | hpos
  · exact absurd hlength (by decide)
  · exact head_toDigits_ne_zero hpos hzero

theorem head_toDigits_ne_minus (n : ℕ) : (Nat.toDigits 10 n).head? ≠ some '-' := by
  intro h
  have hdigit := isDigit_toDigits (List.mem_of_mem_head? h)
  exact absurd hdigit (by decide)

theorem readNumber_digits (n : ℤ) : readNumber (digits n) = some (.int n) := by
  have hwhole : (Nat.toDigits 10 n.natAbs).takeWhile Char.isDigit = Nat.toDigits 10 n.natAbs ∧
      (Nat.toDigits 10 n.natAbs).dropWhile Char.isDigit = [] :=
    ⟨List.takeWhile_eq_self_iff.mpr fun _ => isDigit_toDigits,
      List.dropWhile_eq_nil_iff.mpr fun _ => isDigit_toDigits⟩
  have hzero := toDigits_no_leading_zero n.natAbs
  have hread : Nat.ofDigitChars 10 (Nat.toDigits 10 n.natAbs) 0 = n.natAbs :=
    Nat.ofDigitChars_ten_toDigits
  unfold digits
  split
  case isTrue hneg =>
    simp only [readNumber, List.head?_cons, if_true, List.tail_cons, hwhole.1,
      hwhole.2, hread]
    rw [if_neg (by simpa [Nat.toDigits_ne_nil] using hzero)]
    simp only [Option.some.injEq, Json.int.injEq]
    omega
  case isFalse hneg =>
    simp only [readNumber, head_toDigits_ne_minus, if_false, hwhole.1, hwhole.2, hread]
    rw [if_neg (by simpa [Nat.toDigits_ne_nil] using hzero), if_pos trivial]
    simp only [Option.some.injEq, Json.int.injEq]
    omega

theorem isNumberChar_digits {n : ℤ} {c : Char} (h : c ∈ digits n) : isNumberChar c = true := by
  unfold digits at h
  split at h
  · rcases List.mem_cons.mp h with rfl | h
    · decide
    · simp [isNumberChar, isDigit_toDigits h]
  · simp [isNumberChar, isDigit_toDigits h]

theorem parseNumber_append {literal rest : List Char} {j : Json}
    (hchars : ∀ c ∈ literal, isNumberChar c = true) (hread : readNumber literal = some j)
    (hrest : Ends rest) : parseNumber (literal ++ rest) = some (j, rest) := by
  obtain ⟨htake, hdrop⟩ := takeWhile_append hchars hrest
  simp [parseNumber, htake, hdrop, hread]

/-! ## Values are read back -/

mutual

/-- Every literal of the value is one that is read as itself. -/
def Valid : Json → Prop
  | .decimal literal => Decimal literal
  | .arr items => ValidItems items
  | .obj members => ValidMembers members
  | _ => True

def ValidItems : List Json → Prop
  | [] => True
  | j :: rest => Valid j ∧ ValidItems rest

def ValidMembers : List (List Char × Json) → Prop
  | [] => True
  | (_, j) :: rest => Valid j ∧ ValidMembers rest

end

theorem validItems_iff {items : List Json} : ValidItems items ↔ ∀ j ∈ items, Valid j := by
  induction items with
  | nil => simp [ValidItems]
  | cons j rest ih => simp [ValidItems, ih]

theorem validMembers_iff {members : List (List Char × Json)} :
    ValidMembers members ↔ ∀ m ∈ members, Valid m.2 := by
  induction members with
  | nil => simp [ValidMembers]
  | cons m rest ih => simp [ValidMembers, ih]

theorem skip_cons {c : Char} (h : isSpace c = false) (rest : List Char) :
    skip (c :: rest) = c :: rest := by
  simp [skip, h]

theorem after_cons {c : Char} (h : isSpace c = false) (rest : List Char) :
    after c (c :: rest) = some rest := by
  simp [after, skip_cons h]

theorem after_ne {c d : Char} (hd : isSpace d = false) (h : d ≠ c) (rest : List Char) :
    after c (d :: rest) = none := by
  simp [after, skip_cons hd, h]

theorem exists_cons_of_readNumber {literal : List Char} {j : Json}
    (h : readNumber literal = some j) : ∃ c s, literal = c :: s := by
  cases literal with
  | nil => exact absurd h (by simp [readNumber])
  | cons c s => exact ⟨c, s, rfl⟩

theorem isSpace_of_isNumberChar {c : Char} (h : isNumberChar c = true) : isSpace c = false := by
  refine Bool.eq_false_iff.mpr fun hs => ?_
  simp only [isSpace, Bool.or_eq_true, decide_eq_true_eq] at hs
  rcases hs with ((rfl | rfl) | rfl) | rfl <;> exact absurd h (by decide)

theorem parseValue_number {literal rest : List Char} {j : Json} {fuel : ℕ}
    (hchars : ∀ c ∈ literal, isNumberChar c = true) (hread : readNumber literal = some j)
    (hrest : Ends rest) : parseValue (fuel + 1) (literal ++ rest) = some (j, rest) := by
  have hnumber := parseNumber_append hchars hread hrest
  obtain ⟨c, s, rfl⟩ := exists_cons_of_readNumber hread
  have hc : isNumberChar c = true := hchars c List.mem_cons_self
  have hne (d : Char) (hd : isNumberChar d = false) : c ≠ d := by
    rintro rfl
    rw [hc] at hd
    cases hd
  rw [List.cons_append] at hnumber ⊢
  rw [parseValue, skip_cons (isSpace_of_isNumberChar hc)]
  dsimp only
  rw [if_neg (hne _ (by decide)), if_neg (hne _ (by decide)), if_neg (hne _ (by decide)),
    if_neg (hne _ (by decide)), if_neg (hne _ (by decide)), if_neg (hne _ (by decide)), hnumber]

/-- How the text of a value begins. -/
theorem exists_cons_render {j : Json} (h : Valid j) :
    ∃ c s, render j = c :: s ∧ isSpace c = false ∧ c ≠ ']' := by
  have hnumber {literal : List Char} (hchars : ∀ c ∈ literal, isNumberChar c = true)
      (hread : ∃ j, readNumber literal = some j) :
      ∃ c s, literal = c :: s ∧ isSpace c = false ∧ c ≠ ']' := by
    obtain ⟨j, hread⟩ := hread
    obtain ⟨c, s, rfl⟩ := exists_cons_of_readNumber hread
    have hc : isNumberChar c = true := hchars c List.mem_cons_self
    refine ⟨c, s, rfl, isSpace_of_isNumberChar hc, ?_⟩
    rintro rfl
    exact absurd hc (by decide)
  cases j with
  | null => exact ⟨_, _, rfl, by decide, by decide⟩
  | bool b => cases b <;> exact ⟨_, _, rfl, by decide, by decide⟩
  | int n => exact hnumber (fun _ => isNumberChar_digits) ⟨_, readNumber_digits n⟩
  | decimal literal => exact hnumber (Decimal.chars h) ⟨_, Decimal.read h⟩
  | str s => exact ⟨_, _, rfl, by decide, by decide⟩
  | arr items => exact ⟨_, _, rfl, by decide, by decide⟩
  | obj members => exact ⟨_, _, rfl, by decide, by decide⟩

theorem exists_cons_renderItems {j : Json} {items : List Json} (h : ValidItems (j :: items)) :
    ∃ c s, renderItems (j :: items) = c :: s ∧ isSpace c = false ∧ c ≠ ']' := by
  obtain ⟨c, s, hhead, hc⟩ := exists_cons_render h.1
  cases items with
  | nil => exact ⟨c, s, hhead, hc⟩
  | cons j' items =>
      refine ⟨c, s ++ ',' :: renderItems (j' :: items), ?_, hc⟩
      rw [renderItems, hhead, List.cons_append]
      simp

/-- What follows an item or a member: the next one, or the end. -/
theorem after_comma (rest : List Char) : after ',' (',' :: rest) = some rest :=
  after_cons (by decide) rest

theorem after_bracket (rest : List Char) :
    after ',' (']' :: rest) = none ∧ after ']' (']' :: rest) = some rest :=
  ⟨after_ne (by decide) (by decide) rest, after_cons (by decide) rest⟩

theorem after_brace (rest : List Char) :
    after ',' ('\x7d' :: rest) = none ∧ after '\x7d' ('\x7d' :: rest) = some rest :=
  ⟨after_ne (by decide) (by decide) rest, after_cons (by decide) rest⟩

theorem parseString_key (k rest : List Char) :
    (after '"' (quote k ++ ':' :: rest)).bind parseString = some (k, ':' :: rest) := by
  have hopen : after '"' (quote k ++ ':' :: rest) = some (k.flatMap escape ++ '"' :: ':' :: rest) := by
    rw [quote, List.cons_append, List.cons_append, after_cons (by decide), List.append_assoc]
    rfl
  rw [hopen]
  exact parseString_flatMap_escape k _

mutual

theorem parseValue_render (j : Json) (hj : Valid j) (fuel : ℕ) (hfuel : (render j).length ≤ fuel)
    (rest : List Char) (hrest : Ends rest) : parseValue fuel (render j ++ rest) = some (j, rest) := by
  obtain ⟨c, s, hcons, -⟩ := exists_cons_render hj
  obtain ⟨fuel, rfl⟩ : ∃ k, fuel = k + 1 := by
    rw [hcons, List.length_cons] at hfuel
    exact ⟨fuel - 1, by omega⟩
  match j, hj with
  | .null, _ => simp [render, parseValue, skip, isSpace, keyword]
  | .bool true, _ => simp [render, parseValue, skip, isSpace, keyword]
  | .bool false, _ => simp [render, parseValue, skip, isSpace, keyword]
  | .int n, _ => exact parseValue_number (fun _ => isNumberChar_digits) (readNumber_digits n) hrest
  | .decimal literal, hj => exact parseValue_number (Decimal.chars hj) (Decimal.read hj) hrest
  | .str text, _ =>
      have hstring := parseString_flatMap_escape text rest
      simp [render, quote, parseValue, skip, isSpace, hstring]
  | .arr [], _ => simp [render, renderItems, parseValue, skip, isSpace, after]
  | .arr (j :: items), hj =>
      have hitems := parseItems_render j items hj fuel
        (by simp only [render, List.length_append, List.length_cons] at hfuel; omega) rest
      obtain ⟨c, s, hhead, hspace, hc⟩ := exists_cons_renderItems hj
      have hopen : after ']' (renderItems (j :: items) ++ ']' :: rest) = none := by
        rw [hhead, List.cons_append]
        exact after_ne hspace hc _
      simp [render, parseValue, skip, isSpace, hopen, hitems]
  | .obj [], _ => simp [render, renderMembers, parseValue, skip, isSpace, after]
  | .obj ((k, j) :: members), hj =>
      have hmembers := parseMembers_render k j members hj fuel
        (by simp only [render, List.length_append, List.length_cons] at hfuel; omega) rest
      have hopen : after '\x7d' (renderMembers ((k, j) :: members) ++ '\x7d' :: rest) = none := by
        cases members <;> exact after_ne (by decide) (by decide) _
      simp [render, parseValue, skip, isSpace, hopen, hmembers]
termination_by fuel

theorem parseItems_render (j : Json) (items : List Json) (h : ValidItems (j :: items)) (fuel : ℕ)
    (hfuel : (renderItems (j :: items)).length + 1 ≤ fuel) (rest : List Char) :
    parseItems fuel (renderItems (j :: items) ++ ']' :: rest) = some (j :: items, rest) := by
  obtain ⟨fuel, rfl⟩ : ∃ k, fuel = k + 1 := ⟨fuel - 1, by omega⟩
  match items with
  | [] =>
      have hvalue := parseValue_render j h.1 fuel (by simpa [renderItems] using hfuel)
        (']' :: rest) (ends_cons (by decide))
      simp [renderItems, parseItems, hvalue, after_bracket]
  | j' :: items =>
      simp only [renderItems, List.length_append, List.length_cons] at hfuel
      have hvalue := parseValue_render j h.1 fuel (by omega)
        (',' :: (renderItems (j' :: items) ++ ']' :: rest)) (ends_cons (by decide))
      have hitems := parseItems_render j' items h.2 fuel (by omega) rest
      simp [renderItems, parseItems, hvalue, after_comma, hitems]
termination_by fuel

theorem parseMembers_render (k : List Char) (j : Json) (members : List (List Char × Json))
    (h : ValidMembers ((k, j) :: members)) (fuel : ℕ)
    (hfuel : (renderMembers ((k, j) :: members)).length + 1 ≤ fuel) (rest : List Char) :
    parseMembers fuel (renderMembers ((k, j) :: members) ++ '\x7d' :: rest) =
      some ((k, j) :: members, rest) := by
  obtain ⟨fuel, rfl⟩ : ∃ k, fuel = k + 1 := ⟨fuel - 1, by omega⟩
  match members with
  | [] =>
      simp only [renderMembers, List.length_append, List.length_cons] at hfuel
      have hvalue := parseValue_render j h.1 fuel (by omega) ('\x7d' :: rest)
        (ends_cons (by decide))
      have hkey := parseString_key k (render j ++ '\x7d' :: rest)
      have hcolon := after_cons (c := ':') (by decide) (render j ++ '\x7d' :: rest)
      simp [renderMembers, parseMembers, hkey, hcolon, hvalue, after_brace]
  | (k', j') :: members =>
      simp only [renderMembers, List.length_append, List.length_cons] at hfuel
      have hvalue := parseValue_render j h.1 fuel (by omega)
        (',' :: (renderMembers ((k', j') :: members) ++ '\x7d' :: rest)) (ends_cons (by decide))
      have hmembers := parseMembers_render k' j' members h.2 fuel (by omega) rest
      have hkey := parseString_key k
        (render j ++ ',' :: (renderMembers ((k', j') :: members) ++ '\x7d' :: rest))
      have hcolon := after_cons (c := ':') (by decide)
        (render j ++ ',' :: (renderMembers ((k', j') :: members) ++ '\x7d' :: rest))
      simp [renderMembers, parseMembers, hkey, hcolon, hvalue, after_comma, hmembers]
termination_by fuel

end

/-- The encoding of a value is read back as the value. -/
theorem parse_render {j : Json} (h : Valid j) : parse (render j) = some j := by
  have hvalue := parseValue_render j h (2 * (render j).length + 1) (by omega) [] ends_nil
  rw [List.append_nil] at hvalue
  simp [parse, hvalue, skip]

theorem keyword_eq {word s rest : List Char} {j j' : Json}
    (h : keyword word j s = some (j', rest)) : j' = j := by
  unfold keyword at h
  split at h
  · cases h
    rfl
  · cases h

theorem parseNumber_ne_arr {s rest : List Char} {items : List Json} :
    parseNumber s ≠ some (.arr items, rest) := by
  intro h
  obtain ⟨j, hj, heq⟩ := Option.map_eq_some_iff.mp h
  cases heq
  unfold readNumber at hj
  extract_lets negative body whole tail n at hj
  split at hj
  · cases hj
  · split at hj
    · cases hj
    · split at hj
      · cases hj
      · split at hj <;> cases hj

theorem skip_of_parse_arr {s : List Char} {items : List Json} (h : parse s = some (.arr items)) :
    ∃ rest, skip s = '[' :: rest := by
  unfold parse at h
  cases hvalue : parseValue (2 * s.length + 1) s with
  | none => rw [hvalue] at h; cases h
  | some r =>
      obtain ⟨j, rest⟩ := r
      rw [hvalue] at h
      dsimp only at h
      split at h
      case isFalse => cases h
      case isTrue =>
        cases h
        rw [parseValue] at hvalue
        cases hskip : skip s with
        | nil => rw [hskip] at hvalue; cases hvalue
        | cons c tail =>
            rw [hskip] at hvalue
            dsimp only at hvalue
            by_cases hc : c = '['
            · exact ⟨tail, by rw [hc]⟩
            · rw [if_neg hc] at hvalue
              split at hvalue
              · obtain ⟨r, -, hr⟩ := Option.map_eq_some_iff.mp hvalue
                cases hr
              · split at hvalue
                · split at hvalue
                  · cases hvalue
                  · obtain ⟨r, -, hr⟩ := Option.map_eq_some_iff.mp hvalue
                    cases hr
                · split at hvalue
                  · cases keyword_eq hvalue
                  · split at hvalue
                    · cases keyword_eq hvalue
                    · split at hvalue
                      · cases keyword_eq hvalue
                      · exact absurd hvalue parseNumber_ne_arr

end RestFleet.Json
