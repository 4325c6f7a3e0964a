import RestFleet.Verification.Rclone.Endpoint

/-! # Canonical backends

A section that a backend accepts and completes is accepted again, and completed to a section that
answers alike. -/

namespace RestFleet.Rclone

variable {τ : Type} {times : Times τ}

/-! ### Tokens -/

theorem control_hex4 {n : ℕ} {c : Char} (h : c ∈ Json.hex4 n) : Text.isControl c = false := by
  have hfin : ∀ d : Fin 16, Text.isControl (Nat.digitChar d) = false := by decide
  have hdigit (d : ℕ) : Text.isControl (Nat.digitChar (d % 16)) = false :=
    hfin ⟨d % 16, Nat.mod_lt _ (by decide)⟩
  simp only [Json.hex4, List.mem_cons, List.not_mem_nil, or_false] at h
  rcases h with rfl | rfl | rfl | rfl <;> exact hdigit _

theorem control_escape {c d : Char} (hd : Text.isControl d = false) (h : c ∈ Json.escape d) :
    Text.isControl c = false := by
  have htwo (e : Char) (he : Text.isControl e = false) (hc : c ∈ ['\\', e]) :
      Text.isControl c = false := by
    rcases List.mem_cons.mp hc with rfl | hc
    · decide
    · rw [List.mem_singleton.mp hc, he]
  unfold Json.escape at h
  split at h
  · exact htwo d hd h
  split at h
  · exact htwo 'n' (by decide) h
  split at h
  · exact htwo 'r' (by decide) h
  split at h
  · exact htwo 't' (by decide) h
  split at h
  · exact htwo 'b' (by decide) h
  split at h
  · exact htwo 'f' (by decide) h
  split at h
  · rcases List.mem_cons.mp h with rfl | h
    · decide
    · rcases List.mem_cons.mp h with rfl | h
      · decide
      · exact control_hex4 h
  · rw [List.mem_singleton.mp h, hd]

theorem control_quote {s : Text} (h : s.hasControl = false) {c : Char} (hc : c ∈ Json.quote s) :
    Text.isControl c = false := by
  rw [Json.quote, List.cons_append, List.mem_cons, List.mem_append] at hc
  rcases hc with rfl | hc | hc
  · decide
  · obtain ⟨d, hd, hc⟩ := List.mem_flatMap.mp hc
    exact control_escape (by simpa using List.any_eq_false.mp h d hd) hc
  · rw [List.mem_singleton.mp hc]
    decide

theorem control_renderMembers {ms : List (Text × Json)}
    (hkeys : ∀ m ∈ ms, Text.hasControl m.1 = false)
    (hvalues : ∀ m ∈ ms, ∃ s, m.2 = .str s ∧ Text.hasControl s = false) {c : Char}
    (hc : c ∈ Json.renderMembers ms) : Text.isControl c = false := by
  induction ms with
  | nil => cases hc
  | cons m ms ih =>
      obtain ⟨k, j⟩ := m
      obtain ⟨s, rfl, hs⟩ := hvalues (k, j) List.mem_cons_self
      have hk := hkeys (k, .str s) List.mem_cons_self
      have hmember (h : c ∈ Json.quote k ∨ c = ':' ∨ c ∈ Json.quote s) : Text.isControl c = false := by
        rcases h with h | rfl | h
        · exact control_quote hk h
        · decide
        · exact control_quote hs h
      cases ms with
      | nil =>
          simp only [Json.renderMembers, Json.render, List.mem_append, List.mem_cons] at hc
          exact hmember hc
      | cons m' ms =>
          simp only [Json.renderMembers, Json.render, List.mem_append, List.mem_cons] at hc
          rcases hc with h | h | h | h | h
          · exact hmember (Or.inl h)
          · exact hmember (Or.inr (Or.inl h))
          · exact hmember (Or.inr (Or.inr h))
          · rw [h]
            decide
          · exact ih (fun m hm => hkeys m (List.mem_cons_of_mem _ hm))
              (fun m hm => hvalues m (List.mem_cons_of_mem _ hm)) h

namespace Token

/-- The members of the object that a token is encoded as. -/
def members (t : Token τ) (expiry : Text) : List (Text × Json) := [
  ("access_token".toList, .str t.accessToken), ("token_type".toList, .str t.tokenType),
  ("refresh_token".toList, .str t.refreshToken), ("expiry".toList, .str expiry)]

theorem distinct (t : Token τ) (expiry : Text) : Json.Distinct (t.members expiry) :=
  (by decide +kernel : Json.Distinct (members (⟨[], [], [], ()⟩ : Token Unit) []))

theorem field_str {t : Token τ} {expiry name s start : Text}
    (h : (name, .str s) ∈ t.members expiry) :
    Json.field name Json.decodeStr start (t.members expiry) = some s := by
  rw [Json.field_of_mem (t.distinct expiry) h]
  rfl

theorem decode_members (t : Token τ) {expiry : Text} (h : times.format t.expiry = some expiry) :
    Token.decode times (.obj (t.members expiry)) = some t := by
  have hknown : (t.members expiry).all (fun m =>
      ["access_token", "token_type", "refresh_token", "expiry"].any fun name =>
        Json.sameKey name.toList m.1) = true := by
    have hkeys : ∀ k ∈ (t.members expiry).map Prod.fst,
        (["access_token", "token_type", "refresh_token", "expiry"].any fun name =>
          Json.sameKey name.toList k) = true :=
      (by decide +kernel : ∀ k ∈ (members (⟨[], [], [], ()⟩ : Token Unit) []).map Prod.fst, _)
    exact List.all_eq_true.mpr fun m hm => hkeys m.1 (List.mem_map_of_mem hm)
  have hexpiry : Json.field "expiry".toList (Json.decodeText times.parse) times.zero
      (t.members expiry) = some t.expiry := by
    rw [Json.field_of_mem (t.distinct expiry) (j := .str expiry) (by simp [members])]
    exact times.parse_format t.expiry expiry h
  have haccess : Json.field "access_token".toList Json.decodeStr [] (t.members expiry) =
      some t.accessToken := field_str (by simp [members])
  have htype : Json.field "token_type".toList Json.decodeStr [] (t.members expiry) =
      some t.tokenType := field_str (by simp [members])
  have hrefresh : Json.field "refresh_token".toList Json.decodeStr [] (t.members expiry) =
      some t.refreshToken := field_str (by simp [members])
  rw [Token.decode, hknown, haccess, htype, hrefresh, hexpiry]
  rfl

end Token

/-- A canonical token: the text of a token that passes. -/
structure CanonicalToken (times : Times τ) (text : Text) : Prop where
  token : ∃ (t : Token τ) (expiry : Text), t.valid times = true ∧
    times.format t.expiry = some expiry ∧ text = Json.render (.obj (t.members expiry))

theorem canonicalToken_eq_some {text canonical : Text}
    (h : canonicalToken times text = some canonical) : CanonicalToken times canonical := by
  unfold canonicalToken at h
  obtain ⟨j, -, h⟩ := Option.bind_eq_some_iff.mp h
  obtain ⟨t, -, h⟩ := Option.bind_eq_some_iff.mp h
  split at h
  · rename_i hvalid
    obtain ⟨expiry, hexpiry, rfl⟩ := Option.map_eq_some_iff.mp h
    exact ⟨t, expiry, hvalid, hexpiry, rfl⟩
  · cases h

theorem CanonicalToken.fixed {text : Text} (h : CanonicalToken times text) :
    canonicalToken times text = some text := by
  obtain ⟨t, expiry, hvalid, hexpiry, rfl⟩ := h.token
  have hjson : Json.Valid (.obj (t.members expiry)) := ⟨trivial, trivial, trivial, trivial, trivial⟩
  have hencode : t.encode times = some (Json.render (.obj (t.members expiry))) := by
    rw [Token.encode, hexpiry]
    rfl
  rw [canonicalToken, Json.parse_render hjson]
  simp [t.decode_members hexpiry, hvalid, hencode]

theorem CanonicalToken.plain {text : Text} (h : CanonicalToken times text) :
    PlainValue text ∧ text ≠ [] := by
  obtain ⟨t, expiry, hvalid, hexpiry, rfl⟩ := h.token
  simp only [Token.valid, Bool.and_eq_true, Bool.not_eq_true', decide_eq_true_eq] at hvalid
  obtain ⟨⟨⟨⟨⟨-, -⟩, htype⟩, -⟩, haccess⟩, hrefresh⟩ := hvalid
  have htext : Json.render (.obj (t.members expiry)) =
      '\x7b' :: Json.renderMembers (t.members expiry) ++ ['\x7d'] := rfl
  have hcontrol : ∀ c ∈ Json.renderMembers (t.members expiry), Text.isControl c = false := by
    intro c hc
    refine control_renderMembers (fun m hm => ?_) (fun m hm => ?_) hc
    · have hkeys : ∀ k ∈ (t.members expiry).map Prod.fst, Text.hasControl k = false :=
        (by decide : ∀ k ∈ (Token.members (⟨[], [], [], ()⟩ : Token Unit) []).map Prod.fst, _)
      exact hkeys m.1 (List.mem_map_of_mem hm)
    · simp only [Token.members, List.mem_cons, List.not_mem_nil, or_false] at hm
      rcases hm with rfl | rfl | rfl | rfl
      · exact ⟨_, rfl, haccess⟩
      · exact ⟨_, rfl, by rw [htype]; decide⟩
      · exact ⟨_, rfl, hrefresh⟩
      · exact ⟨_, rfl, times.plain t.expiry expiry hexpiry⟩
  rw [htext]
  refine ⟨⟨⟨?_, ?_⟩, ?_⟩, by simp⟩
  · intro c hc
    cases hc
    decide
  · intro c hc
    rw [List.getLast?_concat] at hc
    cases hc
    decide
  · refine List.any_eq_false.mpr fun c hc => ?_
    rw [List.cons_append, List.mem_cons, List.mem_append] at hc
    rcases hc with rfl | hc | hc
    · decide
    · rw [hcontrol c hc]
      exact Bool.false_ne_true
    · rw [List.mem_singleton.mp hc]
      decide

/-! ### Completed sections -/

/-- A section with values that can stand in lines. -/
structure GoodFields (m : Fields) : Prop where
  unique : m.Unique
  values : ∀ e ∈ m, PlainValue e.2

theorem GoodFields.set {m : Fields} {v : Text} (h : GoodFields m) (k : Text) (hv : PlainValue v) :
    GoodFields (m.set k v) where
  unique := h.unique.set k v
  values e he := by
    rcases Fields.mem_set he with he | rfl
    · exact h.values e he
    · exact hv

theorem plainValue_of_decide {v : Text} (h : v.trimSpace = v ∧ v.hasControl = false) :
    PlainValue v :=
  ⟨h.1 ▸ Text.trimmed_trimSpace v, h.2⟩

theorem allowedKeys_iff {m : Fields} {allowed : List String} :
    allowedKeys m allowed = true ↔ ∀ k ∈ m.map (·.1), ∃ option ∈ allowed, option.toList = k := by
  simp [allowedKeys, List.all_eq_true, List.any_eq_true]

theorem allowedKeys_set {m : Fields} {allowed : List String} {option : String} {v : Text}
    (h : allowedKeys m allowed = true) (ho : option ∈ allowed) :
    allowedKeys (m.set option.toList v) allowed = true := by
  rw [allowedKeys_iff] at h ⊢
  intro k hk
  rw [Fields.keys_set] at hk
  split at hk
  · exact h k hk
  · rcases List.mem_append.mp hk with hk | hk
    · exact h k hk
    · exact ⟨option, ho, (List.mem_singleton.mp hk).symm⟩

/-- What a backend makes of a section: a section that it accepts and completes again to one that
answers alike, as long as `fits` holds. -/
structure Completed (validate : Fields → Option Fields) (allowed : List String) (fits : Prop)
    (m m' : Fields) : Prop where
  good : GoodFields m'
  keys : allowedKeys m' allowed = true
  type : m'.get "type".toList = m.get "type".toList
  again : ∀ n : Fields, n.Unique → allowedKeys n allowed = true → (∀ k, n.get k = m'.get k) →
    fits → ∃ n', validate n = some n' ∧ n'.Unique ∧ ∀ k, n'.get k = m'.get k

theorem normalizeToken_eq_some {m m' : Fields} (h : normalizeToken times m = some m') :
    ∃ t, CanonicalToken times t ∧ m' = m.set "token".toList t := by
  obtain ⟨t, ht, rfl⟩ := Option.map_eq_some_iff.mp h
  exact ⟨t, canonicalToken_eq_some ht, rfl⟩

theorem normalizeToken_canonical {n : Fields} {t : Text} (ht : CanonicalToken times t)
    (hn : n.get "token".toList = t) : normalizeToken times n = some (n.set "token".toList t) := by
  rw [normalizeToken, hn, ht.fixed]
  rfl

def oneDriveKeys : List String :=
  ["type", "token", "drive_id", "drive_type", "client_id", "client_secret", "region"]

theorem validateOneDrive_completed {m m' : Fields} (hm : GoodFields m)
    (h : validateOneDrive times m = some m') :
    Completed (validateOneDrive times) oneDriveKeys True m m' := by
  unfold validateOneDrive at h
  extract_lets driveType at h
  split at h
  · cases h
  · rename_i hchecks
    obtain ⟨t, ht, rfl⟩ := normalizeToken_eq_some h
    have hregion : GoodFields (m.set "region".toList "global".toList) :=
      hm.set _ (plainValue_of_decide (by decide))
    have hget (k : Text) : ((m.set "region".toList "global".toList).set "token".toList t).get k =
        if k = "token".toList then t else if k = "region".toList then "global".toList else m.get k := by
      rw [Fields.get_set hregion.unique, Fields.get_set hm.unique]
    simp only [Bool.or_eq_true, Bool.not_eq_true', not_or, Bool.not_eq_false] at hchecks
    obtain ⟨⟨⟨⟨⟨hkeys, hdrive⟩, htype⟩, -⟩, hclient⟩, hsecret⟩ := hchecks
    refine ⟨hregion.set _ ht.plain.1, ?_, ?_, ?_⟩
    · exact allowedKeys_set (allowedKeys_set hkeys (by decide)) (by decide)
    · rw [hget, if_neg (by decide), if_neg (by decide)]
    · intro n hn hallowed hsame _
      have hother (k : Text) (h1 : k ≠ "token".toList) (h2 : k ≠ "region".toList) :
          n.get k = m.get k := by rw [hsame, hget, if_neg h1, if_neg h2]
      have hglobal : n.get "region".toList = "global".toList := by
        rw [hsame, hget, if_neg (by decide), if_pos rfl]
      have htoken : (n.set "region".toList "global".toList).get "token".toList = t := by
        rw [Fields.get_set_ne (by decide), hsame, hget, if_pos rfl]
      refine ⟨(n.set "region".toList "global".toList).set "token".toList t, ?_,
        (hn.set _ _).set _ _, ?_⟩
      · unfold validateOneDrive
        dsimp only
        rw [hother "drive_type".toList (by decide) (by decide),
          hother "drive_id".toList (by decide) (by decide),
          hother "client_id".toList (by decide) (by decide),
          hother "client_secret".toList (by decide) (by decide), hglobal, if_neg,
          normalizeToken_canonical ht htoken]
        simp only [Bool.or_eq_true, Bool.not_eq_true', not_or, Bool.not_eq_false]
        exact ⟨⟨⟨⟨⟨hallowed, hdrive⟩, htype⟩, by decide⟩, hclient⟩, hsecret⟩
      · intro k
        rw [Fields.get_set_same (hn.set _ _) htoken, Fields.get_set_same hn hglobal, hsame]

def driveKeys : List String :=
  ["type", "token", "client_id", "client_secret", "scope", "root_folder_id", "team_drive"]

/-- A section that gets a default for a key without a value. -/
def withDefault (m : Fields) (k v : Text) : Fields := if m.get k = [] then m.set k v else m

theorem withDefault_good {m : Fields} {v : Text} (h : GoodFields m) (k : Text) (hv : PlainValue v) :
    GoodFields (withDefault m k v) := by
  unfold withDefault
  split
  · exact h.set k hv
  · exact h

theorem withDefault_keys {m : Fields} {allowed : List String} {option : String} (v : Text)
    (h : allowedKeys m allowed = true) (ho : option ∈ allowed) :
    allowedKeys (withDefault m option.toList v) allowed = true := by
  unfold withDefault
  split
  · exact allowedKeys_set h ho
  · exact h

theorem get_withDefault_ne {m : Fields} {k k' v : Text} (h : k' ≠ k) :
    (withDefault m k v).get k' = m.get k' := by
  unfold withDefault
  split
  · exact Fields.get_set_ne h
  · rfl

theorem get_withDefault_ne_nil {m : Fields} {k v : Text} (h : m.Unique) (hv : v ≠ []) :
    (withDefault m k v).get k ≠ [] := by
  unfold withDefault
  split
  · rw [Fields.get_set_self h]
    exact hv
  · assumption

theorem withDefault_of_ne_nil {m : Fields} {k v : Text} (h : m.get k ≠ []) : withDefault m k v = m :=
  if_neg h

theorem validateDrive_completed {m m' : Fields} (hm : GoodFields m)
    (h : validateDrive times m = some m') :
    Completed (validateDrive times) driveKeys True m m' := by
  have hdefault (n : Fields) : (if n.get "scope".toList = [] then
      n.set "scope".toList "drive".toList else n) = withDefault n "scope".toList "drive".toList := rfl
  unfold validateDrive at h
  dsimp only at h
  split at h
  · cases h
  · rename_i hchecks
    rw [hdefault] at h
    split at h
    · rename_i hscope
      obtain ⟨t, ht, rfl⟩ := normalizeToken_eq_some h
      have hgood : GoodFields (withDefault m "scope".toList "drive".toList) :=
        withDefault_good hm _ (plainValue_of_decide (by decide))
      simp only [Bool.or_eq_true, Bool.not_eq_true', not_or, Bool.not_eq_false] at hchecks
      obtain ⟨⟨⟨⟨⟨⟨⟨⟨⟨hkeys, hlength⟩, hclient⟩, hsecret⟩, hlong⟩, hsome⟩, hroot⟩, hteam⟩,
        hrootID⟩, hteamID⟩ := hchecks
      refine ⟨hgood.set _ ht.plain.1, ?_, ?_, ?_⟩
      · exact allowedKeys_set (withDefault_keys _ hkeys (by decide)) (by decide)
      · rw [Fields.get_set_ne (by decide), get_withDefault_ne (by decide)]
      · intro n hn hallowed hsame _
        have hother (k : Text) (h1 : k ≠ "token".toList) (h2 : k ≠ "scope".toList) :
            n.get k = m.get k := by
          rw [hsame, Fields.get_set_ne h1, get_withDefault_ne h2]
        have hkept : n.get "scope".toList =
            (withDefault m "scope".toList "drive".toList).get "scope".toList := by
          rw [hsame, Fields.get_set_ne (by decide)]
        have hnone : n.get "scope".toList ≠ [] := by
          rw [hkept]
          exact get_withDefault_ne_nil hm.unique (by decide)
        have htoken : n.get "token".toList = t := by
          rw [hsame, Fields.get_set_self hgood.unique]
        refine ⟨n.set "token".toList t, ?_, hn.set _ _, ?_⟩
        · unfold validateDrive
          dsimp only
          rw [hother "client_id".toList (by decide) (by decide),
            hother "client_secret".toList (by decide) (by decide),
            hother "root_folder_id".toList (by decide) (by decide),
            hother "team_drive".toList (by decide) (by decide), if_neg, hdefault,
            withDefault_of_ne_nil hnone, hkept, if_pos hscope, normalizeToken_canonical ht htoken]
          simp only [Bool.or_eq_true, Bool.not_eq_true', not_or, Bool.not_eq_false]
          exact ⟨⟨⟨⟨⟨⟨⟨⟨⟨hallowed, hlength⟩, hclient⟩, hsecret⟩, hlong⟩, hsome⟩, hroot⟩, hteam⟩,
            hrootID⟩, hteamID⟩
        · intro k
          rw [Fields.get_set_same hn htoken, hsame]
    · cases h

def webDAVKeys : List String := ["type", "url", "vendor", "user", "pass", "bearer_token"]

variable {netip : Netip}

theorem auth_congr {m n : Fields} (h : ∀ k, k ≠ "url".toList → n.get k = m.get k) :
    basicAuth n = basicAuth m ∧ bearerAuth n = bearerAuth m := by
  unfold basicAuth bearerAuth
  rw [h "user".toList (by decide), h "pass".toList (by decide), h "bearer_token".toList (by decide)]
  exact ⟨rfl, rfl⟩

theorem validateWebDAV_eq_some {m m' : Fields} (h : validateWebDAV netip m = some m') :
    allowedKeys m webDAVKeys = true ∧
      (m.get "vendor".toList = [] ∨ vendors.any (fun v => v.toList = m.get "vendor".toList) = true) ∧
      (basicAuth (withDefault m "vendor".toList "other".toList) = true ∨
        bearerAuth (withDefault m "vendor".toList "other".toList) = true) ∧
      ∃ u, webDAVURL netip (m.get "url".toList) = some u ∧
        m' = (withDefault m "vendor".toList "other".toList).set "url".toList u.string := by
  have hdefault : (if m.get "vendor".toList = [] then
      m.set "vendor".toList "other".toList else m) = withDefault m "vendor".toList "other".toList := rfl
  unfold validateWebDAV at h
  dsimp only at h
  split at h
  · cases h
  · rename_i hkeys
    split at h
    · cases h
    · rename_i hvendor
      rw [hdefault] at h
      split at h
      · cases h
      · rename_i hauth
        obtain ⟨u, hu, rfl⟩ := Option.map_eq_some_iff.mp h
        rw [get_withDefault_ne (by decide)] at hu
        simp only [Bool.not_eq_true', Bool.not_eq_false, Bool.and_eq_true, decide_eq_true_eq,
          not_and] at hkeys hvendor hauth
        refine ⟨hkeys, ?_, ?_, u, hu, rfl⟩
        · by_cases hnil : m.get "vendor".toList = []
          · exact Or.inl hnil
          · exact Or.inr (hvendor hnil)
        · by_cases hbasic : basicAuth (withDefault m "vendor".toList "other".toList) = true
          · exact Or.inl hbasic
          · exact Or.inr (hauth (Bool.eq_false_iff.mpr hbasic))

theorem validateWebDAV_of {n : Fields} {u : URL} (hkeys : allowedKeys n webDAVKeys = true)
    (hvendor : vendors.any (fun v => v.toList = n.get "vendor".toList) = true)
    (hauth : basicAuth n = true ∨ bearerAuth n = true)
    (hu : webDAVURL netip (n.get "url".toList) = some u) :
    validateWebDAV netip n = some (n.set "url".toList u.string) := by
  have hnil : n.get "vendor".toList ≠ [] := by
    intro hnil
    rw [hnil] at hvendor
    exact absurd hvendor (by decide)
  have hkeys : allowedKeys n ["type", "url", "vendor", "user", "pass", "bearer_token"] = true := hkeys
  unfold validateWebDAV
  dsimp only
  rw [hkeys, hvendor, if_neg (by decide), if_neg (by simp), if_neg hnil, hu, if_neg]
  · rfl
  · rcases hauth with hauth | hauth <;> simp [hauth]

theorem validateWebDAV_none {n : Fields} (h : 4096 < (n.get "url".toList).byteLength) :
    validateWebDAV netip n = none := by
  cases hsome : validateWebDAV netip n with
  | none => rfl
  | some n' =>
      obtain ⟨-, -, -, u, hu, -⟩ := validateWebDAV_eq_some hsome
      have hle := (webDAVURL_iff.mp hu).1
      omega

theorem validateWebDAV_completed {m m' : Fields} (hm : GoodFields m)
    (h : validateWebDAV netip m = some m') :
    Completed (validateWebDAV netip) webDAVKeys ((m'.get "url".toList).byteLength ≤ 4096) m m' := by
  obtain ⟨hkeys, hvendor, hauth, u, hu, rfl⟩ := validateWebDAV_eq_some h
  have hgood : GoodFields (withDefault m "vendor".toList "other".toList) :=
    withDefault_good hm _ (plainValue_of_decide (by decide))
  refine ⟨hgood.set _ (plainValue_string hu).1, ?_, ?_, ?_⟩
  · exact allowedKeys_set (withDefault_keys _ hkeys (by decide)) (by decide)
  · rw [Fields.get_set_ne (by decide), get_withDefault_ne (by decide)]
  · intro n hn hallowed hsame hfits
    have hurl : n.get "url".toList = u.string := by rw [hsame, Fields.get_set_self hgood.unique]
    have hother (k : Text) (hk : k ≠ "url".toList) :
        n.get k = (withDefault m "vendor".toList "other".toList).get k := by
      rw [hsame, Fields.get_set_ne hk]
    have hvendor' : vendors.any (fun v => v.toList = n.get "vendor".toList) = true := by
      rw [hother _ (by decide)]
      rcases hvendor with hnil | hvendor
      · rw [withDefault, if_pos hnil, Fields.get_set_self hm.unique]
        decide
      · rw [withDefault_of_ne_nil]
        · exact hvendor
        · intro hnil
          rw [hnil] at hvendor
          exact absurd hvendor (by decide)
    have hauth' : basicAuth n = true ∨ bearerAuth n = true := by
      rw [(auth_congr hother).1, (auth_congr hother).2]
      exact hauth
    rw [Fields.get_set_self hgood.unique] at hfits
    have hstable := webDAVURL_string hu
    rw [if_pos hfits] at hstable
    obtain ⟨u', hu', hstring⟩ := hstable
    refine ⟨n.set "url".toList u'.string, ?_, hn.set _ _, fun k => ?_⟩
    · exact validateWebDAV_of hallowed hvendor' hauth' (by rw [hurl]; exact hu')
    · rw [Fields.get_set_same hn (by rw [hurl, hstring]), hsame]

/-! ### Any backend -/

variable {site : Site τ}

/-- The URL that a completed section names is not too long for the next reader. -/
def Fits (m : Fields) : Prop :=
  m.get "type".toList = "webdav".toList → (m.get "url".toList).byteLength ≤ 4096

theorem Completed.of_type {validate : Fields → Option Fields} {allowed : List String} {fits : Prop}
    {m m' : Fields} (h : Completed validate allowed fits m m')
    (hsame : ∀ n : Fields, n.get "type".toList = m.get "type".toList →
      validateBackend site n = validate n)
    (hfits : Fits m' → fits) : Completed (validateBackend site) allowed (Fits m') m m' := by
  refine ⟨h.good, h.keys, h.type, fun n hn hkeys hget hfit => ?_⟩
  rw [hsame n (by rw [hget, h.type])]
  exact h.again n hn hkeys hget (hfits hfit)

theorem validateBackend_completed {m m' : Fields} (hm : GoodFields m)
    (h : validateBackend site m = some m') :
    ∃ allowed, (∀ option ∈ allowed, plainKey option.toList = true) ∧
      Completed (validateBackend site) allowed (Fits m') m m' := by
  unfold validateBackend at h
  dsimp only at h
  split at h
  · rename_i htype
    refine ⟨oneDriveKeys, by decide, (validateOneDrive_completed hm h).of_type ?_ fun _ => trivial⟩
    intro n hn
    rw [validateBackend, hn, if_pos htype]
  · rename_i hone
    split at h
    · rename_i htype
      refine ⟨driveKeys, by decide, (validateDrive_completed hm h).of_type ?_ fun _ => trivial⟩
      intro n hn
      rw [validateBackend, hn, if_neg hone, if_pos htype]
    · rename_i htwo
      split at h
      · rename_i htype
        have hdone := validateWebDAV_completed hm h
        refine ⟨webDAVKeys, by decide, hdone.of_type ?_ fun hfit => hfit ?_⟩
        · intro n hn
          rw [validateBackend, hn, if_neg hone, if_neg htwo, if_pos htype]
        · rw [hdone.type]
          exact htype
      · cases h

theorem validateBackend_webdav {n : Fields} (h : n.get "type".toList = "webdav".toList) :
    validateBackend site n = validateWebDAV site.netip n := by
  rw [validateBackend, h, if_neg (by decide), if_neg (by decide), if_pos rfl]

theorem fits_of_validateBackend {n n' : Fields} (h : validateBackend site n = some n') : Fits n := by
  intro htype
  rw [validateBackend_webdav htype] at h
  by_contra hlong
  rw [validateWebDAV_none (by omega)] at h
  cases h

end RestFleet.Rclone
