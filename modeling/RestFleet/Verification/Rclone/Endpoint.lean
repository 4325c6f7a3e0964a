import RestFleet.Verification.Rclone.Url

/-! # Canonical endpoints

An endpoint denotes the same storage as its text when its host is ASCII and its path is escaped as
usual or ends in a slash. -/

namespace RestFleet.Rclone

variable {netip : Netip} {host port : Text}

/-! ### Endpoints -/

def endpointOf (v : URL) : URL :=
  let host := canonicalHost (toLower v.hostname) v.port
  if v.path.getLast? = some '/' then { v with host } else ⟨host, v.path ++ ['/'], []⟩

/-- A URL that passes the checks of an endpoint. -/
structure Passes (netip : Netip) (v : URL) : Prop where
  host_ne : v.host ≠ []
  path : validEndpointPath v.path = true
  host : validHost netip (toLower v.hostname) = true
  port : validPort v = true

theorem webDAVURL_iff {raw : Text} {u : URL} :
    webDAVURL netip raw = some u ↔
      raw.byteLength ≤ 4096 ∧ ∃ v, URL.parse netip raw = some v ∧ Passes netip v ∧ u = endpointOf v := by
  unfold webDAVURL
  cases hparse : URL.parse netip raw with
  | none => simp
  | some v =>
      have hfinish : (if v.path.getLast? = some '/' then
          some { v with host := canonicalHost (toLower v.hostname) v.port } else
          some ⟨canonicalHost (toLower v.hostname) v.port, v.path ++ ['/'], []⟩) =
          some (endpointOf v) := by
        unfold endpointOf
        dsimp only
        split <;> rfl
      simp only [Option.bind_eq_bind, Option.bind_some, Option.some.injEq, exists_eq_left']
      rw [hfinish]
      constructor
      · intro h
        split at h
        · cases h
        · rename_i hfirst
          split at h
          · cases h
          · rename_i hsecond
            simp only [Bool.or_eq_true, decide_eq_true_eq, Bool.not_eq_true', not_or, not_lt,
              Bool.not_eq_false] at hfirst hsecond
            exact ⟨hfirst.1.1, ⟨hfirst.1.2, hfirst.2, hsecond.1, hsecond.2⟩, (Option.some.inj h).symm⟩
      · rintro ⟨hlength, hv, rfl⟩
        rw [if_neg (by simp [hv.host_ne, hv.path, hlength]), if_neg (by simp [hv.host, hv.port])]

theorem port_digits (v : URL) : v.port.all Char.isDigit = true := by
  unfold URL.port URL.splitHostPort
  split
  · split
    · assumption
    · rfl
  · rfl

theorem canonicalPort_digits (v : URL) : (canonicalPort v.port).all Char.isDigit = true := by
  unfold canonicalPort
  split
  · exact port_digits v
  · rfl

theorem canonicalPort_idem (port : Text) : canonicalPort (canonicalPort port) = canonicalPort port := by
  by_cases h : (port ≠ [] && port ≠ "443".toList) = true
  · have hsame : canonicalPort port = port := if_pos h
    rw [hsame, hsame]
  · have hnone : canonicalPort port = [] := if_neg h
    rw [hnone]
    rfl

/-- Only characters of ASCII have another lower case. -/
theorem toLower_cases (c : Char) :
    c.toLower = c ∨ c.toLower.toNat < 128 ∧ c.toLower.toLower = c.toLower := by
  by_cases hascii : c.toNat < 128
  · have hfin : ∀ n : Fin 128, (Char.ofNat n).toLower.toNat < 128 ∧
        (Char.ofNat n).toLower.toLower = (Char.ofNat n).toLower := by decide +kernel
    right
    simpa [Char.ofNat_toNat] using hfin ⟨c.toNat, hascii⟩
  · left
    unfold Char.toLower
    rw [dif_neg]
    rintro ⟨-, hle⟩
    have hle : c.toNat ≤ 90 := hle
    omega

theorem lowerChar_idem (c : Char) : lowerChar (lowerChar c) = lowerChar c := by
  unfold lowerChar
  by_cases hkelvin : c.toNat = 0x212a
  · rw [if_pos hkelvin]
    rfl
  · rw [if_neg hkelvin]
    by_cases hdotted : c.toNat = 0x130
    · rw [if_pos hdotted]
      rfl
    · rw [if_neg hdotted]
      rcases toLower_cases c with h | ⟨hascii, h⟩
      · rw [h, if_neg hkelvin, if_neg hdotted, h]
      · rw [if_neg (by omega), if_neg (by omega), h]

theorem toLower_idem (s : Text) : toLower (toLower s) = toLower s := by
  rw [toLower, toLower, List.map_map]
  exact List.map_congr_left fun c _ => lowerChar_idem c

section Endpoint

variable {v : URL}

/-- The host of an endpoint and its path, in their canonical form. -/
theorem endpointOf_host : (endpointOf v).host =
    bracketed (toLower v.hostname) ++ portTail (canonicalPort v.port) := by
  rw [← canonicalHost_eq]
  unfold endpointOf
  dsimp only
  split <;> rfl

theorem endpointOf_last : (endpointOf v).path.getLast? = some '/' := by
  unfold endpointOf
  dsimp only
  split
  · assumption
  · exact List.getLast?_concat

theorem endpointOf_path_ne : (endpointOf v).path ≠ [] := by
  intro hnil
  have hlast := endpointOf_last (v := v)
  rw [hnil] at hlast
  cases hlast

theorem endpointOf_parsedPath (h : ParsedPath v) : ParsedPath (endpointOf v) := by
  unfold endpointOf
  dsimp only
  split
  · exact ⟨h.bytes, h.slash, h.raw⟩
  · refine ⟨?_, ?_, fun hne => absurd rfl hne⟩
    · intro c hc
      rcases List.mem_append.mp hc with hc | hc
      · exact h.bytes c hc
      · rw [List.mem_singleton.mp hc]
        decide
    · intro _
      by_cases hnil : v.path = []
      · rw [hnil]
        rfl
      · rw [List.head?_append_of_ne_nil _ hnil]
        exact h.slash hnil

theorem endpointOf_validPath (h : ParsedPath v) (hv : validEndpointPath v.path = true) :
    validEndpointPath (endpointOf v).path = true := by
  unfold endpointOf
  dsimp only
  split
  · exact hv
  · rename_i hlast
    exact validEndpointPath_append_slash hv hlast h.slash

theorem string_endpointOf (h : ParsedPath v) (hv : Passes netip v) :
    (endpointOf v).string = "https://".toList ++
      (bracketed (toLower v.hostname) ++ portTail (canonicalPort v.port)) ++
        (endpointOf v).escapedPath := by
  have hescaped := escapedAs_escapedPath (endpointOf_parsedPath h) endpointOf_path_ne
  have hauthority := bracketed_authority (hostText_of_validHost hv.host) (canonicalPort_digits v)
  have hhost : escape (endpointOf v).host .host =
      bracketed (toLower v.hostname) ++ portTail (canonicalPort v.port) := by
    rw [endpointOf_host]
    exact escape_authority hauthority
  unfold URL.string
  dsimp only
  rw [hhost, if_neg]
  simp [hescaped.slash]

theorem bracketed_last (host : Text) : (bracketed host).getLast? ≠ some ':' := by
  unfold bracketed
  split
  · rw [List.getLast?_concat]
    decide
  · rename_i hcolon
    intro hlast
    exact hcolon (List.contains_iff_mem.mpr (List.mem_of_getLast? hlast))

theorem bracketed_ne_nil (h : HostText netip host) : bracketed host ≠ [] := by
  unfold bracketed
  split
  · simp
  · exact h.ne_nil

/-- The port of the canonical text passes as the port of the text before did. -/
theorem validPort_canonical {w : URL} (hv : validPort v = true)
    (hw : w.host = bracketed host ++ portTail (canonicalPort v.port))
    (hport : w.port = canonicalPort v.port) : validPort w = true := by
  unfold validPort at hv ⊢
  rw [hport]
  by_cases hdefault : canonicalPort v.port = []
  · rw [if_neg (not_not_intro hdefault), hw, hdefault, portTail, if_pos rfl, List.append_nil]
    exact decide_eq_true (bracketed_last _)
  · have hsame : canonicalPort v.port = v.port := by
      unfold canonicalPort at hdefault ⊢
      split
      · rfl
      · rename_i hnot
        rw [if_neg hnot] at hdefault
        exact absurd rfl hdefault
    rw [hsame] at hdefault ⊢
    rw [if_pos hdefault] at hv ⊢
    exact hv

structure ReadBack (netip : Netip) (v w : URL) : Prop where
  passes : Passes netip w
  fixed : endpointOf w = w
  string : w.string = (endpointOf v).string
  escapedPath : w.escapedPath = (endpointOf v).escapedPath
  hostname : w.hostname = toLower v.hostname
  port : w.port = canonicalPort v.port

theorem parse_string (h : ParsedPath v) (hv : Passes netip v) :
    ∃ w, URL.parse netip (endpointOf v).string = some w ∧ ReadBack netip v w := by
  have hhost := hostText_of_validHost hv.host
  have hdigits := canonicalPort_digits v
  have hescaped := escapedAs_escapedPath (endpointOf_parsedPath h) endpointOf_path_ne
  have hstar : (endpointOf v).path ≠ ['*'] := by
    intro hpath
    have hlast := endpointOf_last (v := v)
    rw [hpath] at hlast
    exact absurd hlast (by decide)
  have hparse := parse_canonical hhost hdigits hescaped
  rw [← string_endpointOf h hv] at hparse
  generalize hw : (⟨bracketed (toLower v.hostname) ++ portTail (canonicalPort v.port),
    (endpointOf v).path, if escape (endpointOf v).path .path = (endpointOf v).escapedPath then []
      else (endpointOf v).escapedPath⟩ : URL) = w at hparse
  have hwhost : w.host = bracketed (toLower v.hostname) ++ portTail (canonicalPort v.port) := by
    rw [← hw]
  have hwpath : w.path = (endpointOf v).path := by rw [← hw]
  have hwescaped : w.escapedPath = (endpointOf v).escapedPath := by
    rw [← hw]
    exact escapedPath_read hescaped hstar
  have hname : w.hostname = toLower v.hostname := hostname_canonical hhost hwhost hdigits
  have hport : w.port = canonicalPort v.port := by
    rw [URL.port, splitHostPort_canonical hwhost hdigits]
  have hpasses : Passes netip w := by
    refine ⟨?_, ?_, ?_, validPort_canonical hv.port hwhost hport⟩
    · rw [hwhost]
      exact List.append_ne_nil_of_left_ne_nil (bracketed_ne_nil hhost) _
    · rw [hwpath]
      exact endpointOf_validPath h hv.path
    · rw [hname, toLower_idem]
      exact hv.host
  have hfixed : endpointOf w = w := by
    have hlast : w.path.getLast? = some '/' := by
      rw [hwpath]
      exact endpointOf_last
    have hsame : canonicalHost (toLower w.hostname) w.port = w.host := by
      rw [canonicalHost_eq, hname, toLower_idem, hport, canonicalPort_idem, hwhost]
    unfold endpointOf
    dsimp only
    rw [if_pos hlast, hsame]
  refine ⟨w, hparse, hpasses, hfixed, ?_, hwescaped, hname, hport⟩
  have hstring := string_endpointOf (parsedPath_of_parse hparse) hpasses
  rw [hfixed, hname, toLower_idem, hport, canonicalPort_idem, hwescaped] at hstring
  rw [hstring, string_endpointOf h hv]

end Endpoint

/-- The text of an endpoint is an endpoint with this text, unless it has become too long. -/
theorem webDAVURL_string {raw : Text} {u : URL} (h : webDAVURL netip raw = some u) :
    if u.string.byteLength ≤ 4096 then
      ∃ u', webDAVURL netip u.string = some u' ∧ u'.string = u.string
    else webDAVURL netip u.string = none := by
  obtain ⟨-, v, hparse, hv, rfl⟩ := webDAVURL_iff.mp h
  obtain ⟨w, hw, hback⟩ := parse_string (parsedPath_of_parse hparse) hv
  split
  · rename_i hlength
    exact ⟨w, webDAVURL_iff.mpr ⟨hlength, w, hw, hback.passes, hback.fixed.symm⟩, hback.string⟩
  · rename_i hlength
    cases hnone : webDAVURL netip (endpointOf v).string with
    | none => rfl
    | some u' => exact absurd (webDAVURL_iff.mp hnone).1 hlength

/-- The text of an endpoint can stand in a line as it is. -/
theorem plainValue_string {raw : Text} {u : URL} (h : webDAVURL netip raw = some u) :
    PlainValue u.string ∧ u.string ≠ [] := by
  obtain ⟨-, v, hparse, hv, rfl⟩ := webDAVURL_iff.mp h
  have hparsed := parsedPath_of_parse hparse
  have hescaped := escapedAs_escapedPath (endpointOf_parsedPath hparsed) endpointOf_path_ne
  have hauthority := bracketed_authority (hostText_of_validHost hv.host) (canonicalPort_digits v)
  have hchars : ∀ c ∈ (endpointOf v).string, 0x21 ≤ c.toNat ∧ c.toNat < 0x7f := by
    intro c hc
    rw [string_endpointOf hparsed hv] at hc
    have hencoded : encodedChar c = true := by
      rcases List.mem_append.mp hc with hc | hc
      · rcases List.mem_append.mp hc with hc | hc
        · have hscheme : "https://".toList.all encodedChar = true := by decide
          exact List.all_eq_true.mp hscheme c hc
        · exact (authorityChar_plain (hauthority c hc)).2.2.2.2
      · exact validEncoded_iff.mp hescaped.valid c hc
    exact ⟨(encodedChar_plain hencoded).1, (encodedChar_plain hencoded).2.1⟩
  have hspace : ∀ c ∈ (endpointOf v).string, Text.isSpace c = false := by
    intro c hc
    have hrange := hchars c hc
    simp only [Text.isSpace, Bool.or_eq_false_iff, Bool.and_eq_false_iff, decide_eq_false_iff_not]
    omega
  refine ⟨⟨⟨fun c hc => hspace c (List.mem_of_mem_head? hc),
    fun c hc => hspace c (List.mem_of_getLast? hc)⟩, List.any_eq_false.mpr fun c hc => ?_⟩, ?_⟩
  · have hrange := hchars c hc
    simp only [Text.isControl, Bool.or_eq_true, Bool.and_eq_true, decide_eq_true_eq]
    omega
  · rw [string_endpointOf hparsed hv]
    simp

/-! ### The storage behind an endpoint -/

/-- What a URL denotes: a host, a port, and an escaped path up to a slash at its end. -/
structure Target where
  host : Text
  port : Text
  path : Text
  deriving DecidableEq

def slashed (path : Text) : Text := if path.getLast? = some '/' then path else path ++ ['/']

def URL.target (u : URL) : Target :=
  ⟨u.hostname.map Char.toLower, if u.port = [] then "443".toList else u.port, slashed u.escapedPath⟩

/-- A host that is lower-cased as ASCII, and a path that is escaped as `String` escapes it or needs
no slash. -/
structure Kept (v : URL) : Prop where
  host : v.hostname.map Char.toLower = toLower v.hostname
  path : v.path.getLast? = some '/' ∨ v.escapedPath = escape v.path .path

theorem toLower_lowerChar (c : Char) : (lowerChar c).toLower = lowerChar c := by
  unfold lowerChar
  split
  · rfl
  · split
    · rfl
    · rcases toLower_cases c with h | ⟨-, h⟩
      · rw [h, h]
      · exact h

theorem map_toLower_toLower (s : Text) : (toLower s).map Char.toLower = toLower s := by
  rw [toLower, List.map_map]
  exact List.map_congr_left fun c _ => toLower_lowerChar c

theorem target_port (v : URL) : (if canonicalPort v.port = [] then "443".toList else
    canonicalPort v.port) = if v.port = [] then "443".toList else v.port := by
  by_cases hkept : (v.port ≠ [] && v.port ≠ "443".toList) = true
  · have hsame : canonicalPort v.port = v.port := if_pos hkept
    rw [hsame]
  · have hnone : canonicalPort v.port = [] := if_neg hkept
    rw [hnone, if_pos rfl]
    by_cases hnil : v.port = []
    · rw [if_pos hnil]
    · have hdefault : v.port = "443".toList := by
        simp only [Bool.and_eq_true, decide_eq_true_eq, not_and, not_not] at hkept
        exact hkept hnil
      rw [if_neg hnil, hdefault]

theorem unescape_escapedPath {v : URL} (h : ParsedPath v) :
    unescape .path v.escapedPath = some v.path := by
  by_cases hnil : v.path = []
  · unfold URL.escapedPath
    split
    · rename_i hraw
      simp only [Bool.and_eq_true, decide_eq_true_eq] at hraw
      exact hraw.2
    · rw [hnil]
      rfl
  · exact (escapedAs_escapedPath h hnil).unescape

theorem escape_append_slash (s : Text) : escape (s ++ ['/']) .path = escape s .path ++ ['/'] := by
  rw [escape, List.flatMap_append]
  rfl

theorem getLast_escape {s : Text} (h : IsBytes s) (hlast : (escape s .path).getLast? = some '/') :
    s.getLast? = some '/' := by
  rcases List.eq_nil_or_concat s with rfl | ⟨t, c, rfl⟩
  · cases hlast
  · have hc : c.toNat < 256 := h c (by simp)
    have hsplit : escape (t ++ [c]) .path = escape t .path ++ if shouldEscape c .path then
        ['%', upperHex (c.toNat / 16), upperHex (c.toNat % 16)] else [c] := by
      simp [escape]
    have hhex : ∀ n : Fin 16, upperHex n ≠ '/' := by decide
    rw [List.concat_eq_append, List.getLast?_concat]
    rw [List.concat_eq_append, hsplit] at hlast
    split at hlast
    · rw [List.getLast?_append_of_ne_nil _ (by simp)] at hlast
      exact absurd (Option.some.inj hlast) (hhex ⟨c.toNat % 16, Nat.mod_lt _ (by decide)⟩)
    · rw [List.getLast?_concat] at hlast
      exact hlast

theorem slashed_escapedPath_iff {v : URL} (h : ParsedPath v) :
    slashed v.escapedPath = slashed (endpointOf v).escapedPath ↔
      v.path.getLast? = some '/' ∨ v.escapedPath = escape v.path .path := by
  by_cases hlast : v.path.getLast? = some '/'
  · have hsame : (endpointOf v).escapedPath = v.escapedPath := by
      unfold endpointOf
      dsimp only
      rw [if_pos hlast]
      rfl
    rw [hsame]
    exact ⟨fun _ => Or.inl hlast, fun _ => rfl⟩
  · have hstar : v.path ++ ['/'] ≠ ['*'] := by
      intro heq
      have h2 := congrArg List.getLast? heq
      rw [List.getLast?_concat] at h2
      exact absurd h2 (by decide)
    have hcanonical : (endpointOf v).escapedPath = escape v.path .path ++ ['/'] := by
      have hend : endpointOf v =
          ⟨canonicalHost (toLower v.hostname) v.port, v.path ++ ['/'], []⟩ := if_neg hlast
      rw [hend, URL.escapedPath]
      dsimp only
      rw [if_neg (by simp), if_neg hstar, escape_append_slash]
    have hslashed : slashed (escape v.path .path ++ ['/']) = escape v.path .path ++ ['/'] :=
      if_pos List.getLast?_concat
    rw [hcanonical, hslashed]
    constructor
    · intro heq
      right
      unfold slashed at heq
      split at heq
      · -- A path that is unescaped to itself with a slash more does not exist.
        have hread := unescape_escapedPath h
        have hbytes : IsBytes (v.path ++ ['/']) := by
          intro c hc
          rcases List.mem_append.mp hc with hc | hc
          · exact h.bytes c hc
          · rw [List.mem_singleton.mp hc]
            decide
        rw [heq, ← escape_append_slash, unescape_escape hbytes] at hread
        have hlength := congrArg List.length (Option.some.inj hread)
        rw [List.length_append, List.length_singleton] at hlength
        omega
      · exact List.append_cancel_right heq
    · rintro (hend | heq)
      · exact absurd hend hlast
      · rw [heq, slashed, if_neg]
        exact fun hend => hlast (getLast_escape h.bytes hend)

theorem target_eq_iff {v w : URL} (h : ParsedPath v) (hw : ReadBack netip v w) :
    v.target = w.target ↔ Kept v := by
  have hhost : w.hostname.map Char.toLower = toLower v.hostname := by
    rw [hw.hostname, map_toLower_toLower]
  unfold URL.target
  rw [Target.mk.injEq, hhost, hw.port, target_port, hw.escapedPath, slashed_escapedPath_iff h]
  exact ⟨fun ⟨hname, _, hpath⟩ => ⟨hname, hpath⟩, fun hk => ⟨hk.host, rfl, hk.path⟩⟩

end RestFleet.Rclone
