import RestFleet.Verification.Rclone.Backends

/-! # Canonical configurations

`ParseConfig` accepts what `Bytes` emits, but for the limits, which are checked on the input only, and
for URLs that are emitted differently from how they were read. -/

namespace RestFleet.Rclone

/-! ### Sections by name -/

namespace Sections

variable {s : Sections} {name name' : Text} {m : Fields}

theorem names_set (s : Sections) (name : Text) (m : Fields) :
    (s.set name m).map (·.1) = s.map (·.1) := by
  rw [Sections.set, List.map_map]
  refine List.map_congr_left fun e _ => ?_
  by_cases he : e.1 = name <;> simp [he]

theorem mem_of_get? (h : s.get? name = some m) : (name, m) ∈ s := by
  obtain ⟨e, he, rfl⟩ := Option.map_eq_some_iff.mp h
  have hname : e.1 = name := of_decide_eq_true (List.find?_some he :)
  rw [← hname]
  exact List.mem_of_find?_eq_some he

theorem get?_of_mem (h : (s.map (·.1)).Nodup) (hm : (name, m) ∈ s) : s.get? name = some m := by
  induction s with
  | nil => cases hm
  | cons e s ih =>
      obtain ⟨hfresh, hrest⟩ := List.nodup_cons.mp h
      rcases List.mem_cons.mp hm with rfl | hm
      · simp [get?]
      · have hne : e.1 ≠ name := by
          rintro rfl
          exact hfresh (List.mem_map.mpr ⟨_, hm, rfl⟩)
        rw [← ih hrest hm]
        simp [get?, hne]

theorem get?_set_self (h : (s.map (·.1)).Nodup) (hold : (s.get? name).isSome) :
    (s.set name m).get? name = some m := by
  obtain ⟨old, hold⟩ := Option.isSome_iff_exists.mp hold
  refine get?_of_mem (by rw [names_set]; exact h) ?_
  exact List.mem_map.mpr ⟨(name, old), mem_of_get? hold, if_pos rfl⟩

theorem get?_set_ne (h : name' ≠ name) : (s.set name m).get? name' = s.get? name' := by
  induction s with
  | nil => rfl
  | cons e s ih =>
      have hkey : (if e.1 = name then (name, m) else e).1 = e.1 := by
        split
        · rename_i he
          exact he.symm
        · rfl
      have hcons : Sections.set (e :: s) name m =
          (if e.1 = name then (name, m) else e) :: Sections.set s name m := rfl
      by_cases hname : e.1 = name'
      · have hne : e.1 ≠ name := fun he => h (hname.symm.trans he)
        rw [hcons, if_neg hne]
        simp [get?, hname]
      · have hskip (e : Text × Fields) (s : Sections) (he : e.1 ≠ name') :
            get? (e :: s) name' = get? s name' := by
          simp [get?, he]
        rw [hcons, hskip _ _ (by rw [hkey]; exact hname), hskip _ _ hname, ih]

theorem get?_tabulate {names : List Text} (f : Text → Fields) (h : name ∈ names) :
    get? (names.map fun n => (n, f n)) name = some (f name) := by
  induction names with
  | nil => cases h
  | cons n names ih =>
      by_cases hn : n = name
      · simp [get?, hn]
      · rw [← ih ((List.mem_cons.mp h).resolve_left (Ne.symm hn))]
        simp [get?, hn]

end Sections

/-! ### What is accepted -/

variable {τ : Type} {site : Site τ} {raw remote upstream root : Text} {s : Sections}
  {crypt cloud cloud' : Fields} {c c' : Config}

structure Accepted (site : Site τ) (s : Sections) (remote : Text) (crypt : Fields)
    (upstream root : Text) (cloud cloud' : Fields) : Prop where
  length : s.length = 2
  first : s.get? remote = some crypt
  valid : validCrypt crypt = true
  chain : (crypt.get "remote".toList).cut ':' = some (upstream, root)
  other : upstream ≠ remote
  inside : safeRoot root = true
  second : s.get? upstream = some cloud
  backend : validateBackend site cloud = some cloud'

def completed (s : Sections) (remote : Text) (crypt : Fields) (upstream : Text) (cloud' : Fields) :
    Config :=
  ⟨(s.set remote (normalizeCrypt crypt)).set upstream cloud', remote⟩

theorem parseConfig_iff : ParseConfig site raw remote = some c ↔
    (raw ≠ [] ∧ raw.byteLength ≤ maxConfigBytes ∧ remotePattern remote = true) ∧
      ∃ s crypt upstream root cloud cloud', readSections raw = some s ∧
        Accepted site s remote crypt upstream root cloud cloud' ∧
        c = completed s remote crypt upstream cloud' := by
  unfold ParseConfig parseConfig
  constructor
  · intro h
    split at h
    · cases h
    · rename_i hraw
      simp only [Bool.or_eq_true, decide_eq_true_eq, Bool.not_eq_true', not_or, not_lt,
        Bool.not_eq_false] at hraw
      refine ⟨⟨hraw.1.1, hraw.1.2, hraw.2⟩, ?_⟩
      obtain ⟨s, hs, h⟩ := Option.bind_eq_some_iff.mp h
      split at h
      · cases h
      · rename_i hlength
        obtain ⟨crypt, hcrypt, h⟩ := Option.bind_eq_some_iff.mp h
        split at h
        · cases h
        · rename_i hvalid
          obtain ⟨⟨upstream, root⟩, hchain, h⟩ := Option.bind_eq_some_iff.mp h
          dsimp only at h
          split at h
          · cases h
          · rename_i hroot
            obtain ⟨cloud, hcloud, h⟩ := Option.bind_eq_some_iff.mp h
            obtain ⟨taken, htaken, h⟩ := Option.bind_eq_some_iff.mp h
            cases htaken
            obtain ⟨cloud', hbackend, h⟩ := Option.bind_eq_some_iff.mp h
            cases h
            simp only [Bool.or_eq_true, decide_eq_true_eq, Bool.not_eq_true', not_or,
              Bool.not_eq_false] at hroot
            exact ⟨s, crypt, upstream, root, cloud, cloud', hs,
              ⟨not_not.mp hlength, hcrypt, by simpa using hvalid, hchain, hroot.1, hroot.2, hcloud,
                hbackend⟩, rfl⟩
  · rintro ⟨⟨hne, hsize, hremote⟩, s, crypt, upstream, root, cloud, cloud', hs, h, rfl⟩
    rw [if_neg (by simp [hne, hsize, hremote])]
    rw [hs, Option.bind_eq_bind, Option.bind_some, if_neg (not_not_intro h.length), h.first]
    rw [Option.bind_eq_bind, Option.bind_some, if_neg (by simp [h.valid]), h.chain]
    rw [Option.bind_eq_bind, Option.bind_some]
    dsimp only
    rw [if_neg (by simp [h.other, h.inside]), h.second]
    simp [takeSocket, h.backend, completed]

/-! ### The crypt section -/

theorem allowedKeys_canon {m : Fields} {allowed : List String} (hm : m.Unique)
    (h : allowedKeys m allowed = true) : allowedKeys m.canon allowed = true := by
  rw [allowedKeys_iff] at h ⊢
  intro k hk
  obtain ⟨e, he, rfl⟩ := List.mem_map.mp hk
  exact h e.1 (List.mem_map.mpr ⟨e, ((Fields.mem_canon hm).mp he).1, rfl⟩)

def cryptKeys : List String :=
  ["type", "remote", "password", "password2", "filename_encryption", "directory_name_encryption"]

theorem get_normalizeCrypt (h : crypt.Unique) (k : Text) : (normalizeCrypt crypt).get k =
    if k = "directory_name_encryption".toList then "true".toList
    else if k = "filename_encryption".toList then "standard".toList else crypt.get k := by
  rw [normalizeCrypt, Fields.get_set (h.set _ _), Fields.get_set h]

/-- A section that answers like a completed crypt section is valid, and complete. -/
theorem validCrypt_normalized {n : Fields} (hcrypt : crypt.Unique) (hvalid : validCrypt crypt = true)
    (hn : n.Unique) (hkeys : allowedKeys n cryptKeys = true)
    (hget : ∀ k, n.get k = (normalizeCrypt crypt).get k) :
    validCrypt n = true ∧ ∀ k, (normalizeCrypt n).get k = (normalizeCrypt crypt).get k := by
  have hother (k : Text) (h1 : k ≠ "directory_name_encryption".toList)
      (h2 : k ≠ "filename_encryption".toList) : n.get k = crypt.get k := by
    rw [hget, get_normalizeCrypt hcrypt, if_neg h1, if_neg h2]
  have hkeys : allowedKeys n ["type", "remote", "password", "password2", "filename_encryption",
      "directory_name_encryption"] = true := hkeys
  constructor
  · simp only [validCrypt, Bool.and_eq_true] at hvalid ⊢
    obtain ⟨⟨⟨⟨⟨htype, -⟩, hpassword⟩, hpassword2⟩, -⟩, -⟩ := hvalid
    refine ⟨⟨⟨⟨⟨?_, hkeys⟩, ?_⟩, ?_⟩, ?_⟩, ?_⟩
    · rw [hother _ (by decide) (by decide)]
      exact htype
    · rw [hother _ (by decide) (by decide)]
      exact hpassword
    · rw [hother _ (by decide) (by decide)]
      exact hpassword2
    · rw [hget, get_normalizeCrypt hcrypt, if_neg (by decide), if_pos rfl]
      decide
    · rw [hget, get_normalizeCrypt hcrypt, if_pos rfl]
      decide
  · intro k
    rw [get_normalizeCrypt hn, get_normalizeCrypt hcrypt]
    split
    · rfl
    · rename_i h1
      split
      · rfl
      · rename_i h2
        exact hother k h1 h2

theorem normalizeCrypt_good (h : GoodFields crypt) (hvalid : validCrypt crypt = true) :
    GoodFields (normalizeCrypt crypt) ∧ allowedKeys (normalizeCrypt crypt) cryptKeys = true := by
  have hkeys : allowedKeys crypt cryptKeys = true := by
    simp only [validCrypt, Bool.and_eq_true] at hvalid
    exact hvalid.1.1.1.1.2
  refine ⟨(h.set _ (plainValue_of_decide (by decide))).set _ (plainValue_of_decide (by decide)), ?_⟩
  exact allowedKeys_set (allowedKeys_set hkeys (by decide)) (by decide)

/-! ### The canonical text -/

def Config.canon (c : Config) : Sections :=
  (sortStrings (c.sections.map (·.1))).map fun name => (name, ((c.sections.get? name).getD []).canon)

theorem sectionBytes_eq (name : Text) (m : Fields) :
    Config.sectionBytes name m = sectionText (name, m.canon) := by
  simp [Config.sectionBytes, sectionText, headerLine, fieldsText, fieldLine, Fields.canon,
    Fields.keys, List.flatMap_map]

theorem Config.bytes_eq (c : Config) : c.bytes = c.canon.flatMap sectionText := by
  rw [Config.bytes, Config.canon, List.flatMap_map]
  congr 1
  funext name
  exact sectionBytes_eq name _

structure Writable (c : Config) : Prop where
  length : c.sections.length = 2
  names : ∀ name ∈ c.sections.map (·.1), remotePattern name = true
  nodup : (c.sections.map (·.1)).Nodup
  good : ∀ e ∈ c.sections, GoodFields e.2
  keys : ∀ e ∈ c.sections, ∀ k ∈ e.2.map (·.1), plainKey k = true

namespace Writable

theorem getD_eq (h : Writable c) {e : Text × Fields} (he : e ∈ c.sections) :
    (c.sections.get? e.1).getD [] = e.2 := by
  rw [Sections.get?_of_mem (m := e.2) h.nodup he]
  rfl

theorem mem_canon (h : Writable c) {e : Text × Fields} (he : e ∈ c.canon) :
    ∃ m, (e.1, m) ∈ c.sections ∧ e.2 = m.canon := by
  obtain ⟨name, hname, rfl⟩ := List.mem_map.mp he
  obtain ⟨d, hd, rfl⟩ := List.mem_map.mp ((sortStrings_perm _).mem_iff.mp hname)
  exact ⟨d.2, hd, by rw [h.getD_eq hd]⟩

theorem canon_names (c : Config) : c.canon.map (·.1) = sortStrings (c.sections.map (·.1)) := by
  simp [Config.canon, Function.comp_def]

theorem get?_canon {name : Text} {m : Fields} (hm : c.sections.get? name = some m) :
    c.canon.get? name = some m.canon := by
  have hmem := Sections.mem_of_get? hm
  rw [Config.canon, Sections.get?_tabulate (fun name => ((c.sections.get? name).getD []).canon), hm]
  · rfl
  · exact (sortStrings_perm _).mem_iff.mpr (List.mem_map.mpr ⟨_, hmem, rfl⟩)

theorem plain (h : Writable c) : PlainSections c.canon where
  names e he := by
    obtain ⟨m, hm, -⟩ := h.mem_canon he
    exact h.names e.1 (List.mem_map.mpr ⟨_, hm, rfl⟩)
  nodup := by
    rw [canon_names]
    exact (sortStrings_perm _).nodup_iff.mpr h.nodup
  fields e he f hf := by
    obtain ⟨m, hm, heq⟩ := h.mem_canon he
    rw [heq] at hf
    obtain ⟨hf, hne⟩ := (Fields.mem_canon (h.good _ hm).unique).mp hf
    exact ⟨h.keys _ hm f.1 (List.mem_map.mpr ⟨f, hf, rfl⟩), (h.good _ hm).values f hf, hne⟩
  unique e he := by
    obtain ⟨m, hm, heq⟩ := h.mem_canon he
    rw [heq]
    exact (h.good _ hm).unique.canon

theorem canon_length (h : Writable c) : c.canon.length = 2 := by
  rw [Config.canon, List.length_map, (sortStrings_perm _).length_eq, List.length_map, h.length]

theorem readSections_bytes (h : Writable c) : readSections c.bytes = some c.canon := by
  have hread := readLines_sections h.plain
    (by rw [List.nil_append]; exact h.plain.nodup)
    (by rw [List.nil_append, h.canon_length])
  rw [List.nil_append, ← c.bytes_eq] at hread
  exact hread

theorem bytes_ne_nil (h : Writable c) : c.bytes ≠ [] := by
  intro hnil
  have hread := h.readSections_bytes
  rw [hnil] at hread
  have hcanon : ([] : Sections) = c.canon := Option.some.inj hread
  have hlength := h.canon_length
  rw [← hcanon] at hlength
  cases hlength

theorem canon_perm (h : Writable c) :
    c.canon.Perm (c.sections.map fun e => (e.1, e.2.canon)) := by
  have hentries : ((c.sections.map (·.1)).map fun name =>
      (name, ((c.sections.get? name).getD []).canon)) =
      c.sections.map fun e => (e.1, e.2.canon) := by
    rw [List.map_map]
    refine List.map_congr_left fun e he => ?_
    rw [Function.comp_apply, h.getD_eq he]
  rw [← hentries]
  exact (sortStrings_perm _).map _

theorem byteLength_bytes (h : Writable c) : c.bytes.byteLength =
    Text.byteLength (c.sections.flatMap fun e => sectionText (e.1, e.2.filter (·.2 ≠ []))) := by
  have hfields {m m' : Fields} (hm : m.Perm m') (name : Text) :
      (sectionText (name, m)).Perm (sectionText (name, m')) :=
    (((hm.flatMap_right _).append_right _).cons _).append_left _
  have hperm : c.bytes.Perm
      (c.sections.flatMap fun e => sectionText (e.1, e.2.filter (·.2 ≠ []))) := by
    rw [c.bytes_eq]
    refine (h.canon_perm.flatMap_right _).trans ?_
    rw [List.flatMap_map]
    exact List.Perm.flatMap_left _ fun e he => hfields (Fields.canon_perm (h.good e he).unique) e.1
  exact (hperm.map _).sum_nat

end Writable

/-! ### Configurations that answer alike -/

structure Alike (c c' : Config) : Prop where
  remote : c.remote = c'.remote
  nodup : (c.sections.map (·.1)).Nodup
  names : (c.sections.map (·.1)).Perm (c'.sections.map (·.1))
  fields : ∀ name ∈ c.sections.map (·.1), ∃ m m', c.sections.get? name = some m ∧
    c'.sections.get? name = some m' ∧ m.Unique ∧ m'.Unique ∧ ∀ k, m.get k = m'.get k

namespace Alike

theorem symm (h : Alike c c') : Alike c' c where
  remote := h.remote.symm
  nodup := h.names.nodup_iff.mp h.nodup
  names := h.names.symm
  fields name hname := by
    obtain ⟨m, m', hm, hm', hu, hu', hget⟩ := h.fields name (h.names.mem_iff.mpr hname)
    exact ⟨m', m, hm', hm, hu', hu, fun k => (hget k).symm⟩

theorem bytes (h : Alike c c') : c.bytes = c'.bytes := by
  have hcanon : c.canon = c'.canon := by
    rw [Config.canon, Config.canon, ← sortStrings_congr h.nodup h.names]
    refine List.map_congr_left fun name hname => ?_
    obtain ⟨m, m', hm, hm', hu, hu', hget⟩ := h.fields name ((sortStrings_perm _).mem_iff.mp hname)
    rw [hm, hm', Option.getD_some, Option.getD_some, Fields.canon_congr hu hu' hget]
  rw [c.bytes_eq, c'.bytes_eq, hcanon]

theorem get_getD (h : Alike c c') (name k : Text) : ((c.sections.get? name).getD []).get k =
    ((c'.sections.get? name).getD []).get k := by
  by_cases hname : name ∈ c.sections.map (·.1)
  · obtain ⟨m, m', hm, hm', -, -, hget⟩ := h.fields name hname
    rw [hm, hm', Option.getD_some, Option.getD_some, hget]
  · rw [get?_eq_none hname, get?_eq_none (fun hname' => hname (h.names.mem_iff.mpr hname'))]

theorem backend (h : Alike c c') : c.backend = c'.backend := by
  have hupstream : c.upstream = c'.upstream := by
    unfold Config.upstream
    dsimp only
    rw [h.get_getD, h.remote]
  rw [Config.backend, Config.cloud, hupstream, h.get_getD]
  rfl

theorem sameFields_of_get {m m' : Fields} (hm : m.Unique) (hget : ∀ k, m.get k = m'.get k)
    (type : Text) (replace : Bool) : sameFields type replace m m' = true := by
  refine List.all_eq_true.mpr fun e he => ?_
  have hvalue : m'.get e.1 = e.2 := by
    rw [← hget, Fields.get_of_mem (v := e.2) hm he]
  rw [hvalue]
  split
  · rfl
  · split <;> simp

theorem sameConfig (h : Alike c c') (replace : Bool) : c.sameConfig c' replace = true := by
  have hlength : c.sections.length = c'.sections.length := by
    simpa using h.names.length_eq
  rw [Config.sameConfig, Bool.and_eq_true, Bool.and_eq_true, decide_eq_true_eq, decide_eq_true_eq]
  refine ⟨⟨h.remote, hlength⟩, List.all_eq_true.mpr fun e he => ?_⟩
  obtain ⟨m, m', hm, hm', hu, hu', hget⟩ := h.fields e.1 (List.mem_map.mpr ⟨e, he, rfl⟩)
  have hsame : m = e.2 := by
    rw [Sections.get?_of_mem (m := e.2) h.nodup he] at hm
    exact (Option.some.inj hm).symm
  rw [hm', ← hsame]
  dsimp only
  rw [sameFields_of_get hu hget, sameFields_of_get hu' fun k => (hget k).symm]
  rfl

end Alike

/-! ### A configuration that was parsed -/

/-- The names of two sections are the remote and its upstream. -/
theorem Accepted.name_cases (h : Accepted site s remote crypt upstream root cloud cloud')
    {name : Text} (hname : name ∈ s.map (·.1)) : name = remote ∨ name = upstream := by
  have hremote : remote ∈ s.map (·.1) := List.mem_map.mpr ⟨_, Sections.mem_of_get? h.first, rfl⟩
  have hupstream : upstream ∈ s.map (·.1) := List.mem_map.mpr ⟨_, Sections.mem_of_get? h.second, rfl⟩
  have hother := h.other
  obtain ⟨a, b, rfl⟩ := List.length_eq_two.mp h.length
  simp only [List.map_cons, List.map_nil, List.mem_cons, List.not_mem_nil, or_false] at *
  grind

theorem names_completed (s : Sections) (remote : Text) (crypt : Fields) (upstream : Text)
    (cloud' : Fields) :
    (completed s remote crypt upstream cloud').sections.map (·.1) = s.map (·.1) := by
  rw [completed, Sections.names_set, Sections.names_set]

namespace Accepted

variable (h : Accepted site s remote crypt upstream root cloud cloud')
include h

theorem get?_remote (hs : (s.map (·.1)).Nodup) :
    (completed s remote crypt upstream cloud').sections.get? remote = some (normalizeCrypt crypt) := by
  rw [completed, Sections.get?_set_ne h.other.symm, Sections.get?_set_self hs]
  rw [h.first]
  rfl

theorem get?_upstream (hs : (s.map (·.1)).Nodup) :
    (completed s remote crypt upstream cloud').sections.get? upstream = some cloud' := by
  rw [completed, Sections.get?_set_self (by rw [Sections.names_set]; exact hs)]
  rw [Sections.get?_set_ne h.other, h.second]
  rfl

theorem sections_cases (hs : (s.map (·.1)).Nodup) {e : Text × Fields}
    (he : e ∈ (completed s remote crypt upstream cloud').sections) :
    e = (remote, normalizeCrypt crypt) ∨ e = (upstream, cloud') := by
  have hnodup : ((completed s remote crypt upstream cloud').sections.map (·.1)).Nodup := by
    rw [names_completed]
    exact hs
  have hget := Sections.get?_of_mem (m := e.2) hnodup he
  have hname : e.1 ∈ s.map (·.1) := by
    rw [← names_completed]
    exact List.mem_map.mpr ⟨e, he, rfl⟩
  rcases h.name_cases hname with heq | heq
  · rw [heq, h.get?_remote hs] at hget
    exact Or.inl (Prod.ext heq (Option.some.inj hget).symm)
  · rw [heq, h.get?_upstream hs] at hget
    exact Or.inr (Prod.ext heq (Option.some.inj hget).symm)

theorem writable (hs : ReadFrom s) : Writable (completed s remote crypt upstream cloud') := by
  have hcrypt : GoodFields crypt :=
    ⟨hs.unique _ (Sections.mem_of_get? h.first), hs.values _ (Sections.mem_of_get? h.first)⟩
  have hcloud : GoodFields cloud :=
    ⟨hs.unique _ (Sections.mem_of_get? h.second), hs.values _ (Sections.mem_of_get? h.second)⟩
  obtain ⟨hgood, hkeys⟩ := normalizeCrypt_good hcrypt h.valid
  obtain ⟨allowed, hplain, hdone⟩ := validateBackend_completed hcloud h.backend
  have hplainKeys {m : Fields} {allowed : List String} (hm : allowedKeys m allowed = true)
      (hallowed : ∀ option ∈ allowed, plainKey option.toList = true) (k : Text)
      (hk : k ∈ m.map (·.1)) : plainKey k = true := by
    obtain ⟨option, hoption, rfl⟩ := allowedKeys_iff.mp hm k hk
    exact hallowed option hoption
  refine ⟨?_, ?_, ?_, ?_, ?_⟩
  · simp [completed, Sections.set, h.length]
  · intro name hname
    rw [names_completed] at hname
    obtain ⟨e, he, rfl⟩ := List.mem_map.mp hname
    exact hs.names e he
  · rw [names_completed]
    exact hs.nodup
  · intro e he
    rcases h.sections_cases hs.nodup he with rfl | rfl
    · exact hgood
    · exact hdone.good
  · intro e he
    rcases h.sections_cases hs.nodup he with rfl | rfl
    · exact hplainKeys hkeys (by decide)
    · exact hplainKeys hdone.keys hplain

theorem cloud_eq (hs : ReadFrom s) : (completed s remote crypt upstream cloud').cloud = cloud' := by
  have hcrypt := hs.unique _ (Sections.mem_of_get? h.first)
  have hupstream : (completed s remote crypt upstream cloud').upstream = upstream := by
    have hremote : (completed s remote crypt upstream cloud').remote = remote := rfl
    unfold Config.upstream
    dsimp only
    rw [hremote, h.get?_remote hs.nodup, Option.getD_some, get_normalizeCrypt hcrypt,
      if_neg (by decide), if_neg (by decide), h.chain]
    rfl
  rw [Config.cloud, hupstream, h.get?_upstream hs.nodup]
  rfl

theorem chain_canon (hs : ReadFrom s) :
    ((normalizeCrypt crypt).canon.get "remote".toList).cut ':' = some (upstream, root) := by
  have hcrypt := hs.unique _ (Sections.mem_of_get? h.first)
  have hnormal : (normalizeCrypt crypt).Unique := (hcrypt.set _ _).set _ _
  rw [Fields.get_canon hnormal, get_normalizeCrypt hcrypt, if_neg (by decide), if_neg (by decide),
    h.chain]

/-- The canonical sections are accepted, unless the URL is too long, and completed to a
configuration that answers alike. -/
theorem again (hs : ReadFrom s) (hfits : Fits cloud') :
    ∃ done, Accepted site (completed s remote crypt upstream cloud').canon remote
        (normalizeCrypt crypt).canon upstream root cloud'.canon done ∧
      Alike (completed s remote crypt upstream cloud')
        (completed (completed s remote crypt upstream cloud').canon remote
          (normalizeCrypt crypt).canon upstream done) := by
  have hcrypt : GoodFields crypt :=
    ⟨hs.unique _ (Sections.mem_of_get? h.first), hs.values _ (Sections.mem_of_get? h.first)⟩
  have hcloud : GoodFields cloud :=
    ⟨hs.unique _ (Sections.mem_of_get? h.second), hs.values _ (Sections.mem_of_get? h.second)⟩
  obtain ⟨hgood, hkeys⟩ := normalizeCrypt_good hcrypt h.valid
  obtain ⟨allowed, -, hdone⟩ := validateBackend_completed hcloud h.backend
  have hw := h.writable hs
  obtain ⟨hvalid, hsame⟩ := validCrypt_normalized hcrypt.unique h.valid hgood.unique.canon
    (allowedKeys_canon hgood.unique hkeys) (Fields.get_canon hgood.unique)
  obtain ⟨done, hbackend, hunique, hget⟩ := hdone.again cloud'.canon hdone.good.unique.canon
    (allowedKeys_canon hdone.good.unique hdone.keys) (Fields.get_canon hdone.good.unique) hfits
  have hagain : Accepted site (completed s remote crypt upstream cloud').canon remote
      (normalizeCrypt crypt).canon upstream root cloud'.canon done :=
    ⟨hw.canon_length, Writable.get?_canon (h.get?_remote hs.nodup), hvalid, h.chain_canon hs, h.other,
      h.inside, Writable.get?_canon (h.get?_upstream hs.nodup), hbackend⟩
  refine ⟨done, hagain, rfl, hw.nodup, ?_, fun name hname => ?_⟩
  · rw [names_completed (completed s remote crypt upstream cloud').canon, Writable.canon_names]
    exact (sortStrings_perm _).symm
  · rw [names_completed] at hname
    rcases h.name_cases hname with rfl | rfl
    · exact ⟨_, _, h.get?_remote hs.nodup, hagain.get?_remote hw.plain.nodup, hgood.unique,
        (hgood.unique.canon.set _ _).set _ _, fun k => (hsame k).symm⟩
    · exact ⟨_, _, h.get?_upstream hs.nodup, hagain.get?_upstream hw.plain.nodup,
        hdone.good.unique, hunique, fun k => (hget k).symm⟩

end Accepted

/-! ### What a text denotes -/

/-- The storage behind a remote: the section it encrypts into, the directory there, the kind of
backend and, for WebDAV, its URL. -/
structure Storage where
  upstream : Text
  root : Text
  backend : Text
  endpoint : Option URL

def storage (netip : Netip) (raw remote : Text) : Option Storage := do
  let s ← readSections raw
  let crypt ← s.get? remote
  let (upstream, root) ← (crypt.get "remote".toList).cut ':'
  let cloud ← s.get? upstream
  let backend := cloud.get "type".toList
  pure ⟨upstream, root, backend,
    if backend = "webdav".toList then URL.parse netip (cloud.get "url".toList) else none⟩

/-- A storage target: a URL counts by its host, port and escaped path. -/
structure Denotation where
  upstream : Text
  root : Text
  backend : Text
  endpoint : Option Target

def Storage.denotes (s : Storage) : Denotation :=
  ⟨s.upstream, s.root, s.backend, s.endpoint.map URL.target⟩

theorem storage_eq (netip : Netip) (hread : readSections raw = some s)
    (hcrypt : s.get? remote = some crypt)
    (hchain : (crypt.get "remote".toList).cut ':' = some (upstream, root))
    (hcloud : s.get? upstream = some cloud) :
    storage netip raw remote = some ⟨upstream, root, cloud.get "type".toList,
      if cloud.get "type".toList = "webdav".toList then URL.parse netip (cloud.get "url".toList)
      else none⟩ := by
  rw [storage, hread, Option.bind_eq_bind, Option.bind_some, hcrypt, Option.bind_eq_bind,
    Option.bind_some, hchain, Option.bind_eq_bind, Option.bind_some]
  dsimp only
  rw [hcloud]
  rfl

/-- The URL of a WebDAV section before and after it is completed. -/
theorem endpoint_completed (hcloud : GoodFields cloud)
    (htype : cloud.get "type".toList = "webdav".toList)
    (h : validateBackend site cloud = some cloud') :
    ∃ v w, URL.parse site.netip (cloud.get "url".toList) = some v ∧
      URL.parse site.netip (cloud'.get "url".toList) = some w ∧ (v.target = w.target ↔ Kept v) := by
  rw [validateBackend_webdav htype] at h
  obtain ⟨-, -, -, u, hu, rfl⟩ := validateWebDAV_eq_some h
  obtain ⟨-, v, hparse, hv, rfl⟩ := webDAVURL_iff.mp hu
  have hparsed := parsedPath_of_parse hparse
  obtain ⟨w, hw, hback⟩ := parse_string hparsed hv
  refine ⟨v, w, hparse, ?_, target_eq_iff hparsed hback⟩
  rw [Fields.get_set_self (withDefault_good hcloud _ (plainValue_of_decide (by decide))).unique]
  exact hw

/-- The canonical text denotes the same storage exactly when the URL is kept. -/
theorem Accepted.denotes_iff (h : Accepted site s remote crypt upstream root cloud cloud')
    (hread : readSections raw = some s) :
    (storage site.netip (completed s remote crypt upstream cloud').bytes remote).map
          Storage.denotes = (storage site.netip raw remote).map Storage.denotes ↔
      ∀ t, storage site.netip raw remote = some t → ∀ v, t.endpoint = some v → Kept v := by
  have hs := readSections_readFrom hread
  have hcloud : GoodFields cloud :=
    ⟨hs.unique _ (Sections.mem_of_get? h.second), hs.values _ (Sections.mem_of_get? h.second)⟩
  obtain ⟨_, -, hdone⟩ := validateBackend_completed hcloud h.backend
  have hafter := storage_eq site.netip (h.writable hs).readSections_bytes
    (Writable.get?_canon (h.get?_remote hs.nodup)) (h.chain_canon hs)
    (Writable.get?_canon (h.get?_upstream hs.nodup))
  rw [Fields.get_canon hdone.good.unique, Fields.get_canon hdone.good.unique, hdone.type] at hafter
  have hbefore := storage_eq site.netip hread h.first h.chain h.second
  by_cases htype : cloud.get "type".toList = "webdav".toList
  · obtain ⟨v, w, hv, hw, hiff⟩ := endpoint_completed hcloud htype h.backend
    rw [if_pos htype, hw] at hafter
    rw [if_pos htype, hv] at hbefore
    rw [hafter, hbefore]
    simp only [Option.map_some, Option.some.injEq, Storage.denotes, Denotation.mk.injEq, true_and,
      forall_eq']
    rw [← hiff]
    exact eq_comm
  · rw [if_neg htype] at hafter hbefore
    rw [hafter, hbefore]
    simp

/-! ### Stability -/

/-- The canonical text of `c` is accepted again, for a configuration with this text, this backend
and the same fields. -/
def Stable (site : Site τ) (c : Config) : Prop :=
  ∃ c', ParseConfig site c.bytes c.remote = some c' ∧ c'.bytes = c.bytes ∧ c'.backend = c.backend ∧
    c.SameExceptToken c' = true ∧ c'.SameExceptToken c = true

theorem Accepted.stable_iff (h : Accepted site s remote crypt upstream root cloud cloud')
    (hs : ReadFrom s) :
    Stable site (completed s remote crypt upstream cloud') ↔
      (completed s remote crypt upstream cloud').bytes.byteLength ≤ maxConfigBytes ∧
        Fits (completed s remote crypt upstream cloud').cloud := by
  have hw := h.writable hs
  rw [h.cloud_eq hs]
  constructor
  · rintro ⟨c', hparse, -⟩
    obtain ⟨⟨-, hsize, -⟩, t, crypt', upstream', root', cloud'', done, hread, h', -⟩ :=
      parseConfig_iff.mp hparse
    rw [hw.readSections_bytes] at hread
    cases hread
    have hfirst : (completed s remote crypt upstream cloud').canon.get? remote = some crypt' := h'.first
    rw [Writable.get?_canon (h.get?_remote hs.nodup)] at hfirst
    cases hfirst
    have hchain := h'.chain
    rw [h.chain_canon hs] at hchain
    cases hchain
    have hsecond := h'.second
    rw [Writable.get?_canon (h.get?_upstream hs.nodup)] at hsecond
    cases hsecond
    have hunique := (hw.good _ (Sections.mem_of_get? (h.get?_upstream hs.nodup))).unique
    refine ⟨hsize, ?_⟩
    rw [Fits, ← Fields.get_canon hunique, ← Fields.get_canon hunique]
    exact fits_of_validateBackend h'.backend
  · rintro ⟨hsize, hfits⟩
    obtain ⟨done, hagain, halike⟩ := h.again hs hfits
    refine ⟨_, parseConfig_iff.mpr ⟨⟨hw.bytes_ne_nil, hsize, ?_⟩, _, _, _, _, _, _,
      hw.readSections_bytes, hagain, rfl⟩, halike.bytes.symm, halike.backend.symm,
      halike.sameConfig false, halike.symm.sameConfig false⟩
    exact hs.names _ (Sections.mem_of_get? h.first)

theorem writable_of_parse (h : ParseConfig site raw remote = some c) : Writable c := by
  obtain ⟨-, s, crypt, upstream, root, cloud, cloud', hread, haccepted, rfl⟩ :=
    parseConfig_iff.mp h
  exact haccepted.writable (readSections_readFrom hread)

theorem denotes_iff (h : ParseConfig site raw remote = some c) :
    (storage site.netip c.bytes remote).map Storage.denotes =
        (storage site.netip raw remote).map Storage.denotes ↔
      ∀ t, storage site.netip raw remote = some t → ∀ v, t.endpoint = some v → Kept v := by
  obtain ⟨-, s, crypt, upstream, root, cloud, cloud', hread, haccepted, rfl⟩ :=
    parseConfig_iff.mp h
  exact haccepted.denotes_iff hread

/-- A configuration is stable exactly when its canonical text keeps to the limits and the URL it
was read with is emitted as it was. -/
theorem canonical_stable_iff (h : ParseConfig site raw remote = some c) :
    Stable site c ∧ (storage site.netip c.bytes remote).map Storage.denotes =
        (storage site.netip raw remote).map Storage.denotes ↔
      c.bytes.byteLength ≤ maxConfigBytes ∧ Fits c.cloud ∧
        ∀ t, storage site.netip raw remote = some t → ∀ v, t.endpoint = some v → Kept v := by
  rw [denotes_iff h, ← and_assoc]
  obtain ⟨-, s, crypt, upstream, root, cloud, cloud', hread, haccepted, rfl⟩ :=
    parseConfig_iff.mp h
  rw [haccepted.stable_iff (readSections_readFrom hread)]

def plainSite : Site Unit where
  times := ⟨(), fun _ => true, fun _ => none, fun _ => none, rfl, by simp, by simp⟩
  netip := ⟨fun _ => none, rfl, by simp, by simp⟩

def davText (url : String) : Text :=
  "[vault]\ntype = crypt\nremote = cloud:backups\npassword = AAAAAAAAAAAAAAAAAAAAAAAA\n".toList ++
    "[cloud]\ntype = webdav\nbearer_token = secret\nurl = ".toList ++ url.toList ++ ['\n']

theorem canonical_stable_plain : ∃ c, ParseConfig plainSite (davText "https://dav.example.com/a/")
      "vault".toList = some c ∧ Stable plainSite c ∧
    (storage plainSite.netip c.bytes "vault".toList).map Storage.denotes =
      (storage plainSite.netip (davText "https://dav.example.com/a/") "vault".toList).map
        Storage.denotes := by
  have hparse : (ParseConfig plainSite (davText "https://dav.example.com/a/") "vault".toList).any
      (fun c => (c.cloud.get "url".toList).byteLength ≤ 4096 && Text.byteLength
        (c.sections.flatMap fun e => sectionText (e.1, e.2.filter (·.2 ≠ []))) ≤ 4096) = true := by
    decide +kernel
  have hkept : (storage plainSite.netip (davText "https://dav.example.com/a/")
      "vault".toList).all (fun t => t.endpoint.all fun v =>
        v.hostname.map Char.toLower = toLower v.hostname && v.path.getLast? = some '/') = true := by
    decide +kernel
  obtain ⟨c, hc, hchecks⟩ := (Option.any_eq_true _ _).mp hparse
  simp only [Bool.and_eq_true, decide_eq_true_eq] at hchecks
  have hsize : c.bytes.byteLength ≤ maxConfigBytes := by
    rw [(writable_of_parse hc).byteLength_bytes]
    exact hchecks.2.trans (by decide)
  refine ⟨c, hc, (canonical_stable_iff hc).mpr ⟨hsize, fun _ => hchecks.1, fun t ht v hv => ?_⟩⟩
  rw [ht, Option.all_some, hv, Option.all_some] at hkept
  simp only [Bool.and_eq_true, decide_eq_true_eq] at hkept
  exact ⟨hkept.1, Or.inl hkept.2⟩

/-- The slash that `%2F` stands for is emitted as a separator of directories: the canonical text
denotes another directory. -/
theorem escaped_slash_lost : ∃ c, ParseConfig plainSite (davText "https://dav.example.com/a%2Fb")
      "vault".toList = some c ∧
    c.cloud.get "url".toList = "https://dav.example.com/a/b/".toList ∧
    (storage plainSite.netip c.bytes "vault".toList).map Storage.denotes ≠
      (storage plainSite.netip (davText "https://dav.example.com/a%2Fb") "vault".toList).map
        Storage.denotes := by
  have hparse : (ParseConfig plainSite (davText "https://dav.example.com/a%2Fb")
      "vault".toList).any (fun c => c.cloud.get "url".toList =
        "https://dav.example.com/a/b/".toList) = true := by
    decide +kernel
  have hlost : (storage plainSite.netip (davText "https://dav.example.com/a%2Fb")
      "vault".toList).any (fun t => t.endpoint.any fun v =>
        v.path.getLast? ≠ some '/' && v.escapedPath ≠ escape v.path .path) = true := by
    decide +kernel
  obtain ⟨c, hc, hurl⟩ := (Option.any_eq_true _ _).mp hparse
  obtain ⟨t, ht, hlost⟩ := (Option.any_eq_true _ _).mp hlost
  obtain ⟨v, hv, hlost⟩ := (Option.any_eq_true _ _).mp hlost
  simp only [Bool.and_eq_true, decide_eq_true_eq] at hlost
  refine ⟨c, hc, of_decide_eq_true hurl, fun hsame => ?_⟩
  have hkept := (denotes_iff hc).mp hsame t ht v hv
  exact hkept.path.elim hlost.1 hlost.2

end RestFleet.Rclone
