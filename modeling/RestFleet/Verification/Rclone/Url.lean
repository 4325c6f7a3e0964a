import RestFleet.Verification.Rclone.Ini
import RestFleet.Verification.Strings

/-! # Canonical URLs

The text of a URL with a canonical host and an escaped path is read as this host and this path. -/

namespace RestFleet.Rclone

/-! ### ASCII texts -/

theorem encode_ascii {s : Text} (h : ∀ c ∈ s, c.toNat < 128) :
    Utf8.encode s = s.map fun c => UInt8.ofNat c.toNat := by
  induction s with
  | nil => rfl
  | cons c s ih =>
      have hc : c.val.toNat ≤ 127 := by
        have hlt := h c List.mem_cons_self
        exact Nat.le_of_lt_succ hlt
      have hone : String.utf8EncodeChar c = [UInt8.ofNat c.toNat] := by
        unfold String.utf8EncodeChar
        dsimp only
        rw [if_pos hc]
        rfl
      have htail := ih fun d hd => h d (List.mem_cons_of_mem c hd)
      rw [Utf8.encode, List.flatMap_cons, hone]
      exact congrArg (UInt8.ofNat c.toNat :: ·) htail

theorem ofNat_toNat_byte {c : Char} (h : c.toNat < 256) :
    Char.ofNat (UInt8.ofNat c.toNat).toNat = c := by
  rw [UInt8.toNat_ofNat', Nat.mod_eq_of_lt h, Char.ofNat_toNat]

theorem bytesOf_ascii {s : Text} (h : ∀ c ∈ s, c.toNat < 128) : bytesOf s = s := by
  rw [bytesOf, encode_ascii h, List.map_map]
  refine (List.map_congr_left fun c hc => ?_).trans (List.map_id s)
  have hc := h c hc
  exact ofNat_toNat_byte (by omega)

theorem textOf_ascii {s : Text} (h : ∀ c ∈ s, c.toNat < 128) : textOf s = s := by
  rw [textOf, ← encode_ascii h, Utf8.decode_encode]

theorem toNat_ofNat_byte {n : ℕ} (h : n < 256) : (Char.ofNat n).toNat = n := by
  have hfin : ∀ n : Fin 256, (Char.ofNat n).toNat = n.val := by decide +kernel
  exact hfin ⟨n, h⟩

def IsBytes (s : Text) : Prop := ∀ c ∈ s, c.toNat < 256

theorem isBytes_bytesOf (s : Text) : IsBytes (bytesOf s) := by
  intro c hc
  obtain ⟨b, -, rfl⟩ := List.mem_map.mp hc
  have hb : b.toNat < 256 := b.toNat_lt
  rw [toNat_ofNat_byte hb]
  exact hb

/-! ### Escapes -/

theorem hexValue_upperHex {n : ℕ} (h : n < 16) : Text.hexValue (upperHex n) = some n := by
  have hfin : ∀ n : Fin 16, Text.hexValue (upperHex n) = some n.val := by decide
  exact hfin ⟨n, h⟩

theorem unescape_escape {s : Text} (h : IsBytes s) : unescape .path (escape s .path) = some s := by
  induction s with
  | nil => rfl
  | cons c s ih =>
      have hc : c.toNat < 256 := h c List.mem_cons_self
      have hrest := ih fun d hd => h d (List.mem_cons_of_mem c hd)
      have hsplit : escape (c :: s) .path = (if shouldEscape c .path then
          ['%', upperHex (c.toNat / 16), upperHex (c.toNat % 16)] else [c]) ++ escape s .path := by
        rw [escape, List.flatMap_cons]
        rfl
      rw [hsplit]
      split
      · have hbyte : Char.ofNat (16 * (c.toNat / 16) + c.toNat % 16) = c := by
          rw [Nat.div_add_mod, Char.ofNat_toNat]
        rw [List.cons_append, List.cons_append, List.cons_append, List.nil_append, unescape.eq_def]
        dsimp only
        rw [if_pos rfl, hexValue_upperHex (by omega), hexValue_upperHex (by omega)]
        dsimp only
        rw [if_pos (by rfl), hrest, hbyte]
        rfl
      · rename_i hplain
        have hpercent : c ≠ '%' := by
          rintro rfl
          exact hplain (by decide)
        rw [List.singleton_append, unescape.eq_def]
        dsimp only
        rw [if_neg hpercent, if_neg (by simp), hrest]
        rfl

theorem hexValue_lt {c : Char} {n : ℕ} (h : Text.hexValue c = some n) : n < 16 := by
  unfold Text.hexValue at h
  split at h
  · rename_i hdigit
    have hle : c.toNat ≤ 57 := by
      simp only [Char.isDigit, Bool.and_eq_true, decide_eq_true_eq, UInt32.le_iff_toNat_le] at hdigit
      exact hdigit.2
    cases h
    change c.toNat - 48 < 16
    omega
  · split at h
    · rename_i hlower
      have hle : c.toNat ≤ 102 := (Bool.and_eq_true_iff.mp hlower).2 |> of_decide_eq_true
      cases h
      change c.toNat - 97 + 10 < 16
      omega
    · split at h
      · rename_i hupper
        have hle : c.toNat ≤ 70 := (Bool.and_eq_true_iff.mp hupper).2 |> of_decide_eq_true
        cases h
        change c.toNat - 65 + 10 < 16
        omega
      · cases h

/-- What can stand in front of the rest of an escaped path. -/
theorem unescape_cons {c : Char} {rest s : Text} (h : unescape .path (c :: rest) = some s) :
    (c ≠ '%' ∧ ∃ t, unescape .path rest = some t ∧ s = c :: t) ∨
    ∃ x y tail hi lo t, c = '%' ∧ rest = x :: y :: tail ∧ hi < 16 ∧ lo < 16 ∧
      unescape .path tail = some t ∧ s = Char.ofNat (16 * hi + lo) :: t := by
  rw [unescape.eq_def] at h
  dsimp only at h
  split at h
  · rename_i hpercent
    split at h
    · rename_i x y tail
      split at h
      · rename_i hi lo hx hy
        rw [if_pos (by rfl)] at h
        obtain ⟨t, ht, rfl⟩ := Option.map_eq_some_iff.mp h
        exact Or.inr ⟨x, y, tail, hi, lo, t, hpercent, rfl, hexValue_lt hx, hexValue_lt hy, ht, rfl⟩
      · cases h
    · cases h
  · rename_i hpercent
    rw [if_neg (by simp)] at h
    obtain ⟨t, ht, rfl⟩ := Option.map_eq_some_iff.mp h
    exact Or.inl ⟨hpercent, t, ht, rfl⟩

theorem isBytes_unescape {p s : Text} (hp : IsBytes p) (h : unescape .path p = some s) :
    IsBytes s := by
  induction hn : p.length using Nat.strong_induction_on generalizing p s with
  | _ n ih =>
      cases p with
      | nil =>
          cases h
          exact hp
      | cons c rest =>
          rcases unescape_cons h with ⟨-, t, ht, rfl⟩ |
            ⟨x, y, tail, hi, lo, t, -, rfl, hhi, hlo, ht, rfl⟩
          · have hrest : IsBytes t := ih rest.length (by simp [← hn])
              (fun d hd => hp d (List.mem_cons_of_mem c hd)) ht rfl
            intro d hd
            rcases List.mem_cons.mp hd with rfl | hd
            · exact hp d List.mem_cons_self
            · exact hrest d hd
          · have hrest : IsBytes t := ih tail.length (by simp [← hn]; omega)
              (fun d hd => hp d (by simp [hd])) ht rfl
            intro d hd
            rcases List.mem_cons.mp hd with rfl | hd
            · rw [toNat_ofNat_byte (by omega)]
              omega
            · exact hrest d hd

/-! ### Encoded characters -/

/-- A character that may stand in an escaped path. -/
def encodedChar (c : Char) : Bool :=
  "!$&'()*+,;=:@[]%".toList.contains c || !shouldEscape c .path

theorem validEncoded_iff {s : Text} : validEncoded s = true ↔ ∀ c ∈ s, encodedChar c = true :=
  List.all_eq_true

theorem encodedChar_ascii {c : Char} (h : encodedChar c = true) : c.toNat < 128 := by
  by_contra hlarge
  have hne (d : Char) (hd : d.toNat < 128) : c ≠ d := ne_of_toNat (by omega)
  have halnum : isAlnum c = false := by
    refine Bool.eq_false_iff.mpr fun ha => ?_
    rw [isAlnum_iff] at ha
    omega
  have hlist (l : List Char) (hl : l.all (fun d => d.toNat < 128) = true) : l.contains c = false := by
    refine Bool.eq_false_iff.mpr fun hc => ?_
    have hmem := List.all_eq_true.mp hl c (List.contains_iff_mem.mp hc)
    exact hlarge (of_decide_eq_true hmem)
  rw [encodedChar, shouldEscape, halnum, hlist _ (by decide), hlist "-_.~".toList (by decide),
    hlist "$&+,/:;=?@".toList (by decide)] at h
  simp at h

/-- What every character of an escaped path is not. -/
theorem encodedChar_plain {c : Char} (h : encodedChar c = true) :
    0x21 ≤ c.toNat ∧ c.toNat < 0x7f ∧ c ≠ '#' ∧ c ≠ '?' := by
  have hfin : ∀ n : Fin 128, encodedChar (Char.ofNat n) = true →
      0x21 ≤ n.val ∧ n.val < 0x7f ∧ n.val ≠ 0x23 ∧ n.val ≠ 0x3f := by decide +kernel
  have hc := encodedChar_ascii h
  have hall := hfin ⟨c.toNat, hc⟩ (by simpa [Char.ofNat_toNat] using h)
  exact ⟨hall.1, hall.2.1, ne_of_toNat hall.2.2.1, ne_of_toNat hall.2.2.2⟩

theorem encodedChar_upperHex {n : ℕ} (h : n < 16) : encodedChar (upperHex n) = true := by
  have hfin : ∀ n : Fin 16, encodedChar (upperHex n) = true := by decide +kernel
  exact hfin ⟨n, h⟩

theorem validEncoded_escape {s : Text} (h : IsBytes s) : validEncoded (escape s .path) = true := by
  refine validEncoded_iff.mpr fun c hc => ?_
  obtain ⟨d, hd, hc⟩ := List.mem_flatMap.mp hc
  have hbyte := h d hd
  split at hc
  · simp only [List.mem_cons, List.not_mem_nil, or_false] at hc
    rcases hc with rfl | rfl | rfl
    · decide
    · exact encodedChar_upperHex (by omega)
    · exact encodedChar_upperHex (by omega)
  · rename_i hplain
    rw [List.mem_singleton.mp hc, encodedChar, Bool.eq_false_iff.mpr hplain]
    simp

/-! ### Hosts -/

def hostChar (c : Char) : Bool := isAlnum c || c = '-' || c = '.' || c = ':'

theorem hostChar_of_isAddrChar {c : Char} (h : isAddrChar c = true) : hostChar c = true := by
  have hle (a b : Char) : a ≤ b ↔ a.toNat ≤ b.toNat := Iff.rfl
  simp only [isAddrChar, Bool.or_eq_true, Bool.and_eq_true, decide_eq_true_eq, hle] at h
  simp only [hostChar, Bool.or_eq_true, decide_eq_true_eq]
  rcases h with (((h | h) | h) | h) | h
  · exact Or.inl (Or.inl (Or.inl (by simp [isAlnum, h])))
  · exact Or.inl (Or.inl (Or.inl (isAlnum_iff.mpr (by
      have h1 : 97 ≤ c.toNat := h.1
      have h2 : c.toNat ≤ 102 := h.2
      omega))))
  · exact Or.inl (Or.inl (Or.inl (isAlnum_iff.mpr (by
      have h1 : 65 ≤ c.toNat := h.1
      have h2 : c.toNat ≤ 70 := h.2
      omega))))
  · exact Or.inr h
  · exact Or.inl (Or.inr h)

/-- What a host that passes can look like: an address in brackets is the only one with a colon. -/
structure HostText (netip : Netip) (host : Text) : Prop where
  ne_nil : host ≠ []
  chars : ∀ c ∈ host, hostChar c = true
  colon : ':' ∈ host → ∃ ip, netip.parseAddr host = some ip ∧ ip.is6 = true

theorem hostText_of_validHost {netip : Netip} {host : Text} (h : validHost netip host = true) :
    HostText netip host := by
  unfold validHost at h
  cases hparse : netip.parseAddr host with
  | some ip =>
      rw [hparse] at h
      have hzone : ip.zone = [] := by
        simp only [publicIP, Bool.and_eq_true, decide_eq_true_eq] at h
        exact h.1.1.1.1
      refine ⟨?_, fun c hc => hostChar_of_isAddrChar (netip.chars host ip hparse hzone c hc),
        fun hcolon => ⟨ip, hparse, (netip.colon host ip hparse).mpr hcolon⟩⟩
      rintro rfl
      rw [netip.empty] at hparse
      cases hparse
  | none =>
      rw [hparse] at h
      simp only [Bool.and_eq_true, List.all_eq_true] at h
      obtain ⟨⟨-, hdot⟩, hlabels⟩ := h
      have hchar : ∀ c ∈ host, isAlnum c = true ∨ c = '-' ∨ c = '.' := by
        intro c hc
        have hsplit : c = '.' ∨ ∃ part ∈ host.split '.', c ∈ part := Text.mem_split hc
        rcases hsplit with rfl | ⟨part, hpart, hc⟩
        · exact Or.inr (Or.inr rfl)
        · have hlabel := hlabels part hpart
          simp only [dnsLabel, Bool.and_eq_true, List.all_eq_true, Bool.or_eq_true,
            decide_eq_true_eq] at hlabel
          exact (hlabel.1.1.2 c hc).imp_right Or.inl
      refine ⟨?_, ?_, ?_⟩
      · rintro rfl
        cases hdot
      · intro c hc
        simp only [hostChar, Bool.or_eq_true, decide_eq_true_eq]
        rcases hchar c hc with h | h | h
        · exact Or.inl (Or.inl (Or.inl h))
        · exact Or.inl (Or.inl (Or.inr h))
        · exact Or.inl (Or.inr h)
      · intro hcolon
        exact absurd (hchar ':' hcolon) (by decide)

def authorityChar (c : Char) : Bool := hostChar c || c = '[' || c = ']'

theorem hostChar_ascii {c : Char} (h : authorityChar c = true) : c.toNat < 128 := by
  simp only [authorityChar, hostChar, Bool.or_eq_true, decide_eq_true_eq] at h
  rcases h with ((((h | rfl) | rfl) | rfl) | rfl) | rfl
  · rw [isAlnum_iff] at h
    omega
  all_goals decide

theorem authorityChar_plain {c : Char} (h : authorityChar c = true) :
    shouldEscape c .host = false ∧ c ≠ '%' ∧ c ≠ '/' ∧ c ≠ '@' ∧ encodedChar c = true := by
  have hfin : ∀ n : Fin 128, authorityChar (Char.ofNat n) = true →
      shouldEscape (Char.ofNat n) .host = false ∧ n.val ≠ 0x25 ∧ n.val ≠ 0x2f ∧ n.val ≠ 0x40 ∧
        encodedChar (Char.ofNat n) = true := by decide +kernel
  have hall := hfin ⟨c.toNat, hostChar_ascii h⟩ (by simpa [Char.ofNat_toNat] using h)
  simp only [Char.ofNat_toNat] at hall
  exact ⟨hall.1, ne_of_toNat hall.2.1, ne_of_toNat hall.2.2.1, ne_of_toNat hall.2.2.2.1,
    hall.2.2.2.2⟩

theorem escape_authority {s : Text} (h : ∀ c ∈ s, authorityChar c = true) : escape s .host = s := by
  induction s with
  | nil => rfl
  | cons c s ih =>
      have hc := (authorityChar_plain (h c List.mem_cons_self)).1
      have hs := ih fun d hd => h d (List.mem_cons_of_mem c hd)
      rw [escape, List.flatMap_cons, hc, if_neg Bool.false_ne_true]
      exact congrArg (c :: ·) hs

theorem unescape_authority {s : Text} (h : ∀ c ∈ s, authorityChar c = true) :
    unescape .host s = some s := by
  induction s with
  | nil => rfl
  | cons c s ih =>
      have hc := authorityChar_plain (h c List.mem_cons_self)
      have hs := ih fun d hd => h d (List.mem_cons_of_mem c hd)
      rw [unescape.eq_def]
      dsimp only
      rw [if_neg hc.2.1, hc.1, if_neg (by simp), hs]
      rfl

/-! ### The canonical host -/

/-- The host, with an address that holds colons in brackets. -/
def bracketed (host : Text) : Text := if host.contains ':' then '[' :: host ++ [']'] else host

/-- The port of the canonical URL; the default one is left out. -/
def canonicalPort (port : Text) : Text := if port ≠ [] && port ≠ "443".toList then port else []

def portTail (port : Text) : Text := if port = [] then [] else ':' :: port

theorem canonicalHost_eq (host port : Text) :
    canonicalHost host port = bracketed host ++ portTail (canonicalPort port) := by
  unfold canonicalHost canonicalPort portTail
  dsimp only
  split
  · rename_i h
    have hne : port ≠ [] := by
      simp only [Bool.and_eq_true, decide_eq_true_eq] at h
      exact h.1
    rw [if_neg hne]
    rfl
  · rw [if_pos rfl, List.append_nil]
    rfl

theorem cutLast_append {sep : Char} {after : Text} (before : Text) (h : sep ∉ after) :
    cutLast (before ++ sep :: after) sep = some (before, after) := by
  have hrev : sep ∉ after.reverse := by simpa using h
  rw [cutLast, List.reverse_append, List.reverse_cons, List.append_assoc, List.singleton_append,
    Text.cut_append _ hrev]
  simp

theorem cutLast_eq_none {s : Text} {sep : Char} (h : sep ∉ s) : cutLast s sep = none := by
  rw [cutLast, Text.cut_eq_none (by simpa using h)]
  rfl

theorem breakAt_eq_self {pattern s : Text} {c : Char} (hc : pattern.head? = some c) (h : c ∉ s) :
    breakAt pattern s = (s, []) := by
  induction s with
  | nil => rfl
  | cons d s ih =>
      rw [List.mem_cons, not_or] at h
      have hstarts : Text.hasPrefix (d :: s) pattern = false := by
        cases pattern with
        | nil => cases hc
        | cons e pattern =>
            cases hc
            have hne : (c == d) = false := by simpa using h.1
            rw [Text.hasPrefix, List.isPrefixOf, hne, Bool.false_and]
      rw [breakAt, hstarts, if_neg Bool.false_ne_true, ih h.2]

variable {netip : Netip} {host port : Text}

theorem parseLiteral_host (h : HostText netip host) (hcolon : ':' ∈ host) :
    parseLiteral netip host = some host := by
  obtain ⟨ip, hparse, his6⟩ := h.colon hcolon
  have hauthority : ∀ c ∈ host, authorityChar c = true := fun c hc => by
    simp [authorityChar, h.chars c hc]
  have hascii : ∀ c ∈ host, c.toNat < 128 := fun c hc => hostChar_ascii (hauthority c hc)
  have hpercent : '%' ∉ host := fun hc => (authorityChar_plain (hauthority _ hc)).2.1 rfl
  have hbreak : breakAt "%25".toList host = (host, []) := breakAt_eq_self rfl hpercent
  have hempty : unescape .zone [] = some [] := rfl
  simp only [parseLiteral, bytesOf_ascii hascii, hbreak, unescape_authority hauthority, hempty]
  simp [textOf_ascii hascii, hparse, his6]

theorem digit_not_mem {c : Char} (hport : port.all Char.isDigit = true) (hc : c.isDigit = false) :
    c ∉ port := by
  intro hmem
  rw [List.all_eq_true.mp hport c hmem] at hc
  cases hc

theorem parseHost_canonical (h : HostText netip host) (hport : port.all Char.isDigit = true) :
    parseHost netip (bracketed host ++ portTail port) = some (bracketed host ++ portTail port) := by
  have hbracket (c : Char) (hc : c ∈ host) : c ≠ '[' ∧ c ≠ ']' := by
    have hchar := h.chars c hc
    constructor <;> rintro rfl <;> exact absurd hchar (by decide)
  have htail (c : Char) (hc : c ∈ portTail port) : c = ':' ∨ c.isDigit = true := by
    unfold portTail at hc
    split at hc
    · cases hc
    · exact (List.mem_cons.mp hc).imp_right (List.all_eq_true.mp hport c)
  by_cases hcolon : ':' ∈ host
  · have hshape : bracketed host ++ portTail port = '[' :: (host ++ ']' :: portTail port) := by
      simp [bracketed, hcolon]
    have hopen : (host ++ ']' :: portTail port).contains '[' = false := by
      refine Bool.eq_false_iff.mpr fun hc => ?_
      rcases List.mem_append.mp (List.contains_iff_mem.mp hc) with hc | hc
      · exact (hbracket _ hc).1 rfl
      · rcases List.mem_cons.mp hc with hc | hc
        · exact absurd hc (by decide)
        · exact absurd (htail _ hc) (by decide)
    have hclose : ']' ∉ portTail port := fun hc => absurd (htail _ hc) (by decide)
    have hvalid : validOptionalPort (portTail port) = true := by
      unfold portTail
      split
      · rfl
      · simpa [validOptionalPort] using hport
    rw [hshape, parseHost, if_pos List.head?_cons, List.tail_cons, hopen,
      if_neg Bool.false_ne_true, cutLast_append host hclose]
    dsimp only
    rw [hvalid, if_pos rfl, parseLiteral_host h hcolon]
    rfl
  · have hshape : bracketed host ++ portTail port = host ++ portTail port := by
      simp [bracketed, hcolon]
    have hauthority : ∀ c ∈ host ++ portTail port, authorityChar c = true := by
      intro c hc
      rcases List.mem_append.mp hc with hc | hc
      · simp [authorityChar, h.chars c hc]
      · rcases htail c hc with rfl | hdigit
        · decide
        · simp [authorityChar, hostChar, isAlnum, hdigit]
    have hascii : ∀ c ∈ host ++ portTail port, c.toNat < 128 := fun c hc =>
      hostChar_ascii (hauthority c hc)
    have hopen : '[' ∉ host ++ portTail port := by
      intro hc
      rcases List.mem_append.mp hc with hc | hc
      · exact (hbracket _ hc).1 rfl
      · exact absurd (htail _ hc) (by decide)
    have hhead : (host ++ portTail port).head? ≠ some '[' := fun hhead =>
      hopen (List.mem_of_mem_head? hhead)
    have hwhole : (unescape .host (bytesOf (host ++ portTail port))).map textOf =
        some (host ++ portTail port) := by
      rw [bytesOf_ascii hascii, unescape_authority hauthority, Option.map_some,
        textOf_ascii hascii]
    rw [hshape, parseHost, if_neg hhead, if_neg (by simpa using hopen), hwhole]
    by_cases hnil : port = []
    · rw [portTail, if_pos hnil, List.append_nil, Text.cut_eq_none hcolon]
    · rw [portTail, if_neg hnil, Text.cut_append _ hcolon]
      dsimp only
      rw [if_pos hport]

theorem bracketed_authority (h : HostText netip host) (hport : port.all Char.isDigit = true) :
    ∀ c ∈ bracketed host ++ portTail port, authorityChar c = true := by
  intro c hc
  rcases List.mem_append.mp hc with hc | hc
  · unfold bracketed at hc
    split at hc
    · rcases List.mem_append.mp hc with hc | hc
      · rcases List.mem_cons.mp hc with rfl | hc
        · decide
        · simp [authorityChar, h.chars c hc]
      · rw [List.mem_singleton.mp hc]
        decide
    · simp [authorityChar, h.chars c hc]
  · unfold portTail at hc
    split at hc
    · cases hc
    · rcases List.mem_cons.mp hc with rfl | hc
      · decide
      · simp [authorityChar, hostChar, isAlnum, List.all_eq_true.mp hport c hc]

theorem splitHostPort_canonical {u : URL} (hu : u.host = bracketed host ++ portTail port)
    (hport : port.all Char.isDigit = true) : u.splitHostPort = (bracketed host, port) := by
  have hnocolon : ':' ∉ port := digit_not_mem hport (by decide)
  rw [URL.splitHostPort, hu]
  by_cases hnil : port = []
  · rw [portTail, if_pos hnil, List.append_nil, hnil]
    by_cases hcolon : ':' ∈ host
    · -- The last colon is inside the brackets, with a bracket behind it.
      obtain ⟨after, before, hsplit, hafter⟩ :=
        List.eq_append_cons_of_mem (List.mem_reverse.mpr hcolon)
      have hhost : host = before.reverse ++ ':' :: after.reverse := by
        rw [← List.reverse_reverse host, hsplit]
        simp
      have hshape : bracketed host =
          ('[' :: before.reverse) ++ ':' :: (after.reverse ++ [']']) := by
        rw [bracketed, if_pos (by simpa using hcolon), hhost]
        simp
      have hlast : ':' ∉ after.reverse ++ [']'] := by
        simpa using hafter
      rw [hshape, cutLast_append _ hlast]
      dsimp only
      rw [if_neg (by simp)]
    · have hshape : bracketed host = host := if_neg (by simpa using hcolon)
      rw [hshape, cutLast_eq_none hcolon]
  · rw [portTail, if_neg hnil, cutLast_append _ hnocolon]
    dsimp only
    rw [if_pos hport]

theorem hostname_canonical {u : URL} (h : HostText netip host)
    (hu : u.host = bracketed host ++ portTail port) (hport : port.all Char.isDigit = true) :
    u.hostname = host := by
  rw [URL.hostname, splitHostPort_canonical hu hport]
  dsimp only
  by_cases hcolon : ':' ∈ host
  · have hshape : bracketed host = '[' :: host ++ [']'] := if_pos (by simpa using hcolon)
    rw [hshape, if_pos]
    · rw [List.cons_append, List.tail_cons, List.dropLast_concat]
    · rw [List.getLast?_concat, List.cons_append, List.head?_cons]
      rfl
  · have hshape : bracketed host = host := if_neg (by simpa using hcolon)
    rw [hshape, if_neg]
    intro hbrackets
    simp only [Bool.and_eq_true, decide_eq_true_eq] at hbrackets
    exact absurd (h.chars '[' (List.mem_of_mem_head? hbrackets.1)) (by decide)

/-! ### The canonical text -/

/-- The escaped form of a path. -/
structure EscapedAs (path text : Text) : Prop where
  valid : validEncoded text = true
  slash : text.head? = some '/'
  unescape : unescape .path text = some path

theorem parse_canonical {path text : Text} (h : HostText netip host)
    (hport : port.all Char.isDigit = true) (ht : EscapedAs path text) :
    URL.parse netip ("https://".toList ++ (bracketed host ++ portTail port) ++ text) =
      some ⟨bracketed host ++ portTail port, path,
        if escape path .path = text then [] else text⟩ := by
  have hauthority := bracketed_authority h hport
  have hchars : ∀ c ∈ "https://".toList ++ (bracketed host ++ portTail port) ++ text,
      encodedChar c = true := by
    intro c hc
    rcases List.mem_append.mp hc with hc | hc
    · rcases List.mem_append.mp hc with hc | hc
      · have hscheme : "https://".toList.all encodedChar = true := by decide
        exact List.all_eq_true.mp hscheme c hc
      · exact (authorityChar_plain (hauthority c hc)).2.2.2.2
    · exact validEncoded_iff.mp ht.valid c hc
  have hhost := parseHost_canonical h hport
  generalize hH : bracketed host ++ portTail port = H at hauthority hchars hhost ⊢
  have hcontrol : ("https://".toList ++ H ++ text).any
      (fun c => c.toNat < 0x20 || c.toNat = 0x7f) = false := by
    refine List.any_eq_false.mpr fun c hc => ?_
    have hplain := encodedChar_plain (hchars c hc)
    simp only [Bool.or_eq_true, decide_eq_true_eq]
    omega
  have hfragment : '#' ∉ "https://".toList ++ H ++ text := fun hc =>
    (encodedChar_plain (hchars _ hc)).2.2.1 rfl
  have hquery : '?' ∉ '/' :: '/' :: (H ++ text) := fun hc =>
    (encodedChar_plain (hchars _ (by simpa using hc))).2.2.2 rfl
  have hshape : "https://".toList ++ H ++ text = "https".toList ++ ':' :: '/' :: '/' :: (H ++ text) := by
    simp
  have hcut : Text.cut ("https://".toList ++ H ++ text) ':' =
      some ("https".toList, '/' :: '/' :: (H ++ text)) := by
    rw [hshape, Text.cut_append _ (by decide)]
  -- The authority ends where the path begins.
  have hslash : ∀ c ∈ H, decide (c ≠ '/') = true := fun c hc =>
    decide_eq_true (authorityChar_plain (hauthority c hc)).2.2.1
  have hauth : (H ++ text).takeWhile (· ≠ '/') = H ∧ (H ++ text).dropWhile (· ≠ '/') = text :=
    Json.takeWhile_append hslash fun c hc => by
      rw [ht.slash] at hc
      cases hc
      decide
  have huser : H.contains '@' = false := by
    refine Bool.eq_false_iff.mpr fun hc => ?_
    exact (authorityChar_plain (hauthority _ (List.contains_iff_mem.mp hc))).2.2.2.1 rfl
  have hascii : ∀ c ∈ text, c.toNat < 128 := fun c hc =>
    encodedChar_ascii (validEncoded_iff.mp ht.valid c hc)
  unfold URL.parse
  rw [hcontrol, Bool.false_or, if_neg (by simpa using hfragment), hcut]
  dsimp only
  rw [if_neg]
  · rw [List.drop_succ_cons, List.drop_succ_cons, List.drop_zero, hauth.1, hauth.2, huser,
      if_neg Bool.false_ne_true, hhost, bytesOf_ascii hascii, ht.unescape]
  · have hscheme : "https".toList.map Char.toLower = "https".toList := by decide
    have hstarts : Text.hasPrefix ('/' :: '/' :: (H ++ text)) ['/', '/'] = true := by
      simp [Text.hasPrefix]
    have hquery' : ('/' :: '/' :: (H ++ text)).contains '?' = false := by simpa using hquery
    rw [hscheme, hstarts, hquery']
    decide

/-- A path as `url.Parse` leaves it. -/
structure ParsedPath (u : URL) : Prop where
  bytes : IsBytes u.path
  slash : u.path ≠ [] → u.path.head? = some '/'
  raw : u.rawPath ≠ [] → u.rawPath.head? = some '/' ∧ unescape .path u.rawPath = some u.path

theorem head_escape {s : Text} (h : s.head? = some '/') : (escape s .path).head? = some '/' := by
  cases s with
  | nil => cases h
  | cons c s =>
      cases h
      rfl

theorem head_unescape {p s : Text} (hp : p = [] ∨ p.head? = some '/')
    (h : unescape .path p = some s) : s ≠ [] → s.head? = some '/' := by
  intro hne
  cases p with
  | nil =>
      cases h
      exact absurd rfl hne
  | cons c rest =>
      have hc : c = '/' := by
        rcases hp with hp | hp
        · cases hp
        · exact Option.some.inj hp
      rcases unescape_cons h with ⟨-, t, -, rfl⟩ | ⟨x, y, tail, hi, lo, t, hpercent, -⟩
      · rw [hc]
        rfl
      · rw [hc] at hpercent
        exact absurd hpercent (by decide)

theorem parsedPath_of_parse {raw : Text} {u : URL} (h : URL.parse netip raw = some u) :
    ParsedPath u := by
  unfold URL.parse at h
  split at h
  · cases h
  · split at h
    · cases h
    · rename_i scheme rest hcut
      split at h
      · cases h
      · extract_lets authority path at h
        split at h
        · cases h
        · split at h
          · rename_i host unescaped hhost hpath
            cases h
            have hslash : path = [] ∨ path.head? = some '/' := by
              change bytesOf ((rest.drop 2).dropWhile (· ≠ '/')) = [] ∨
                (bytesOf ((rest.drop 2).dropWhile (· ≠ '/'))).head? = some '/'
              cases hdrop : (rest.drop 2).dropWhile (· ≠ '/') with
              | nil => exact Or.inl rfl
              | cons c tail =>
                  have hc : c = '/' := by
                    have hhead := Text.head_dropWhile (p := (· ≠ '/')) (s := rest.drop 2) c
                      (by rw [hdrop]; rfl)
                    simpa using hhead
                  rw [hc]
                  exact Or.inr rfl
            have hbytes : IsBytes path := isBytes_bytesOf _
            refine ⟨isBytes_unescape hbytes hpath, head_unescape hslash hpath, ?_⟩
            dsimp only
            split
            · intro hne
              exact absurd rfl hne
            · intro hne
              exact ⟨hslash.resolve_left hne, hpath⟩
          · cases h

theorem escapedAs_escapedPath {u : URL} (h : ParsedPath u) (hne : u.path ≠ []) :
    EscapedAs u.path u.escapedPath := by
  have hslash := h.slash hne
  have hstar : u.path ≠ ['*'] := by
    intro hpath
    rw [hpath] at hslash
    exact absurd hslash (by decide)
  unfold URL.escapedPath
  split
  · rename_i hraw
    simp only [Bool.and_eq_true, decide_eq_true_eq] at hraw
    exact ⟨hraw.1.2, (h.raw hraw.1.1).1, hraw.2⟩
  · exact ⟨validEncoded_escape h.bytes, head_escape hslash, unescape_escape h.bytes⟩

/-- The path that the canonical text is read as has the same text. -/
theorem escapedPath_read {path text host : Text} (h : EscapedAs path text) (hstar : path ≠ ['*']) :
    URL.escapedPath ⟨host, path, if escape path .path = text then [] else text⟩ = text := by
  have hne : text ≠ [] := by
    rintro rfl
    exact absurd h.slash (by decide)
  unfold URL.escapedPath
  dsimp only
  by_cases hsame : escape path .path = text
  · rw [if_pos hsame, if_neg (by simp), if_neg hstar, hsame]
  · rw [if_neg hsame, if_pos (by simp [hne, h.valid, h.unescape])]

theorem pathControl_append_slash (s : Text) : pathControl (s ++ ['/']) = pathControl s := by
  induction s with
  | nil => decide
  | cons c s ih =>
      rw [List.cons_append, pathControl, pathControl, ih]
      cases s with
      | nil => simp
      | cons d s => rfl

theorem cleanAbs_append_slash (s : Text) : Text.cleanAbs (s ++ ['/']) = s.cleanAbs := by
  have hsplit : Text.split '/' (s ++ ['/']) = s.split '/' ++ [[]] :=
    Text.split_append (by simp)
  have hparts : Text.cleanParts (s ++ ['/']) = Text.cleanParts s := by
    rw [Text.cleanParts, hsplit, List.foldl_append]
    rfl
  rw [Text.cleanAbs_eq, Text.cleanAbs_eq, hparts]

/-- A path that passes still passes with the slash that is put behind it. -/
theorem validEndpointPath_append_slash {s : Text} (h : validEndpointPath s = true)
    (hlast : s.getLast? ≠ some '/') (hslash : s ≠ [] → s.head? = some '/') :
    validEndpointPath (s ++ ['/']) = true := by
  simp only [validEndpointPath, Bool.and_eq_true, Bool.not_eq_true', Bool.or_eq_true,
    decide_eq_true_eq] at h ⊢
  obtain ⟨⟨⟨hstarts, hback⟩, hcontrol⟩, hclean⟩ := h
  refine ⟨⟨⟨?_, ?_⟩, by rw [pathControl_append_slash]; exact hcontrol⟩, ?_⟩
  · cases s with
    | nil => decide
    | cons c s =>
        cases s with
        | nil =>
            have hc : c = '/' := Option.some.inj (hslash (by simp))
            rw [hc] at hlast
            exact absurd rfl hlast
        | cons d s => simpa [Text.hasPrefix, List.isPrefixOf] using hstarts
  · simpa using hback
  · by_cases hnil : s = []
    · rw [hnil]
      exact Or.inl (Or.inr rfl)
    · refine Or.inr ?_
      have hroot : s ≠ ['/'] := by
        rintro rfl
        exact hlast rfl
      have hsame := hclean.resolve_left (by simp [hnil, hroot])
      rw [if_neg hlast] at hsame
      rw [List.getLast?_concat, if_pos rfl, List.dropLast_concat, cleanAbs_append_slash, hsame]

end RestFleet.Rclone
