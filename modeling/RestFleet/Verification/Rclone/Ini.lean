import RestFleet.Verification.Rclone.Fields
import RestFleet.Verification.Strings

/-! # Canonical texts are read back

The text that is emitted for sections is read as the canonical form of these sections. -/

namespace RestFleet.Rclone

/-! ### Lines -/

def readLines (sections : Sections) (raw : Text) : Option Sections :=
  (raw.split '\n').foldlM readLine sections

theorem readLines_line {line rest : Text} (h : '\n' ∉ line) (sections : Sections) :
    readLines sections (line ++ '\n' :: rest) =
      (readLine sections line).bind fun sections => readLines sections rest := by
  rw [readLines, Text.split_line h, List.foldlM_cons]
  rfl

theorem readLines_nil (sections : Sections) : readLines sections [] = some sections := rfl

/-! ### Fields -/

/-- A value that stands in a line as it is. -/
structure PlainValue (v : Text) : Prop where
  trimmed : Text.Trimmed v
  control : v.hasControl = false

/-- A key that is a word. -/
def plainKey (k : Text) : Bool := k ≠ [] && k.all fun c => isAlnum c || c = '_'

theorem isAlnum_iff {c : Char} : isAlnum c = true ↔
    (48 ≤ c.toNat ∧ c.toNat ≤ 57) ∨ (97 ≤ c.toNat ∧ c.toNat ≤ 122) ∨
      (65 ≤ c.toNat ∧ c.toNat ≤ 90) := by
  have hdigit : c.isDigit = true ↔ 48 ≤ c.toNat ∧ c.toNat ≤ 57 := by
    simp [Char.isDigit, UInt32.le_iff_toNat_le]
  simp only [isAlnum, Bool.or_eq_true, Bool.and_eq_true, decide_eq_true_eq, hdigit, or_assoc]
  exact Iff.rfl

theorem ne_of_toNat {c d : Char} (h : c.toNat ≠ d.toNat) : c ≠ d := fun he => h (he ▸ rfl)

/-- A character of a name or a key is none that means something in a line. -/
structure PlainChar (c : Char) : Prop where
  space : Text.isSpace c = false
  control : Text.isControl c = false
  comment : c ≠ '#' ∧ c ≠ ';'
  header : c ≠ '[' ∧ c ≠ ']'
  equals : c ≠ '='

theorem plainChar {c : Char} (h : isAlnum c = true ∨ c = '_' ∨ c = '-') : PlainChar c := by
  have hrange : c.toNat = 45 ∨ 48 ≤ c.toNat ∧ c.toNat ≤ 57 ∨ 65 ≤ c.toNat ∧ c.toNat ≤ 90 ∨
      c.toNat = 95 ∨ 97 ≤ c.toNat ∧ c.toNat ≤ 122 := by
    rcases h with h | rfl | rfl
    · rw [isAlnum_iff] at h
      omega
    · decide
    · decide
  have hne (d : Char) (hd : d.toNat = 35 ∨ d.toNat = 59 ∨ d.toNat = 91 ∨ d.toNat = 93 ∨
      d.toNat = 61) : c ≠ d := ne_of_toNat (by omega)
  refine ⟨?_, ?_, ⟨hne _ (by decide), hne _ (by decide)⟩, ⟨hne _ (by decide), hne _ (by decide)⟩,
    hne _ (by decide)⟩
  · simp only [Text.isSpace, Bool.or_eq_false_iff, Bool.and_eq_false_iff, decide_eq_false_iff_not]
    omega
  · simp only [Text.isControl, Bool.or_eq_false_iff, Bool.and_eq_false_iff, decide_eq_false_iff_not]
    omega

theorem plainChar_of_plainKey {k : Text} (h : plainKey k = true) {c : Char} (hc : c ∈ k) :
    PlainChar c := by
  simp only [plainKey, Bool.and_eq_true, List.all_eq_true, Bool.or_eq_true, decide_eq_true_eq] at h
  exact plainChar ((h.2 c hc).imp_right Or.inl)

theorem plainChar_of_remotePattern {name : Text} (h : remotePattern name = true) {c : Char}
    (hc : c ∈ name) : PlainChar c := by
  simp only [remotePattern, Bool.and_eq_true, List.all_eq_true, Bool.or_eq_true,
    decide_eq_true_eq] at h
  have hc := h.2 c hc
  exact plainChar (by rwa [or_assoc] at hc)

theorem newline_not_mem {s : Text} (h : s.hasControl = false) : '\n' ∉ s := by
  intro hmem
  have hnot := List.any_eq_false.mp h '\n' hmem
  exact hnot (by decide)

def fieldLine (e : Text × Text) : Text := e.1 ++ " = ".toList ++ e.2

theorem fieldLine_eq (e : Text × Text) : fieldLine e = (e.1 ++ [' ']) ++ '=' :: ' ' :: e.2 := by
  simp [fieldLine]

structure PlainField (e : Text × Text) : Prop where
  key : plainKey e.1 = true
  value : PlainValue e.2
  ne_nil : e.2 ≠ []

theorem PlainField.key_ne_nil {e : Text × Text} (h : PlainField e) : e.1 ≠ [] := by
  have hkey := h.key
  simp only [plainKey, Bool.and_eq_true, decide_eq_true_eq] at hkey
  exact hkey.1

theorem PlainField.key_trimmed {e : Text × Text} (h : PlainField e) : Text.Trimmed e.1 where
  head _ hc := (plainChar_of_plainKey h.key (List.mem_of_mem_head? hc)).space
  last _ hc := (plainChar_of_plainKey h.key (List.mem_of_getLast? hc)).space

theorem PlainField.line_trimmed {e : Text × Text} (h : PlainField e) : Text.Trimmed (fieldLine e) where
  head c hc := by
    rw [fieldLine, List.append_assoc, List.head?_append_of_ne_nil _ h.key_ne_nil] at hc
    exact h.key_trimmed.head c hc
  last c hc := by
    rw [fieldLine, List.getLast?_append_of_ne_nil _ h.ne_nil] at hc
    exact h.value.trimmed.last c hc

theorem PlainField.line_control {e : Text × Text} (h : PlainField e) :
    (fieldLine e).hasControl = false := by
  have hkey : e.1.hasControl = false := by
    refine List.any_eq_false.mpr fun c hc => ?_
    rw [(plainChar_of_plainKey h.key hc).control]
    exact Bool.false_ne_true
  have hmiddle : Text.hasControl " = ".toList = false := by decide
  rw [fieldLine, Text.hasControl, List.any_append, List.any_append]
  exact Bool.or_eq_false_iff.mpr ⟨Bool.or_eq_false_iff.mpr ⟨hkey, hmiddle⟩, h.value.control⟩

theorem readLine_field {e : Text × Text} (h : PlainField e) (sections : Sections) :
    readLine sections (fieldLine e) = addField sections e.1 e.2 := by
  obtain ⟨k, v⟩ := e
  cases k with
  | nil => exact absurd rfl h.key_ne_nil
  | cons c k =>
      have hc : PlainChar c := plainChar_of_plainKey h.key List.mem_cons_self
      have hequals : '=' ∉ (c :: k) ++ [' '] := by
        intro hmem
        rcases List.mem_append.mp hmem with hmem | hmem
        · exact (plainChar_of_plainKey h.key hmem).equals rfl
        · exact absurd (List.mem_singleton.mp hmem) (by decide)
      have hhead : (fieldLine (c :: k, v)).head? = some c := rfl
      have hne : fieldLine (c :: k, v) ≠ [] := by
        rw [fieldLine, List.append_assoc]
        exact List.cons_ne_nil _ _
      unfold readLine
      rw [h.line_trimmed.trimSpace]
      dsimp only
      rw [hhead, h.line_control, if_neg (by simp [hne, hc.comment.1, hc.comment.2]),
        if_neg Bool.false_ne_true, if_neg (by simp [hc.header.1]), fieldLine_eq,
        Text.cut_append _ hequals]
      dsimp only
      rw [Text.trimSpace_append_space h.key_trimmed h.key_ne_nil, Text.trimSpace_cons_space h.value.trimmed]

/-! ### Sections -/

def headerLine (name : Text) : Text := '[' :: name ++ [']']

theorem headerLine_trimmed (name : Text) : Text.Trimmed (headerLine name) where
  head c hc := by
    cases hc
    decide
  last c hc := by
    rw [headerLine, List.getLast?_concat] at hc
    cases hc
    decide

theorem headerLine_control {name : Text} (h : remotePattern name = true) :
    (headerLine name).hasControl = false := by
  refine List.any_eq_false.mpr fun c hc => ?_
  rw [headerLine, List.cons_append, List.mem_cons, List.mem_append] at hc
  rcases hc with rfl | hc | hc
  · decide
  · rw [(plainChar_of_remotePattern h hc).control]
    exact Bool.false_ne_true
  · rw [List.mem_singleton.mp hc]
    decide

theorem readLine_header {name : Text} {sections : Sections} (h : remotePattern name = true)
    (hfresh : (sections.get? name).isSome = false) (hroom : sections.length < 2) :
    readLine sections (headerLine name) = some (sections ++ [(name, [])]) := by
  have hlast : (headerLine name).getLast? = some ']' := by
    rw [headerLine, List.getLast?_concat]
  have hhead : (headerLine name).head? = some '[' := rfl
  have hname : (headerLine name).tail.dropLast = name := by
    rw [headerLine, List.cons_append, List.tail_cons, List.dropLast_concat]
  unfold readLine
  rw [(headerLine_trimmed name).trimSpace]
  dsimp only
  rw [if_neg (by simp [headerLine]), headerLine_control h, if_neg Bool.false_ne_true,
    if_pos (by rw [hhead, hlast]; rfl), hname, h, hfresh, if_neg (by simp; omega)]

theorem addField_last {name : Text} {m : Fields} {k : Text} (front : Sections) (v : Text)
    (h : m.has k = false) :
    addField (front ++ [(name, m)]) k v = some (front ++ [(name, m ++ [(k, v)])]) := by
  induction front with
  | nil => simp [addField, h]
  | cons s front ih =>
      rw [List.cons_append]
      cases hrest : front ++ [(name, m)] with
      | nil => simp at hrest
      | cons s' rest =>
          rw [addField, ← hrest, ih]
          · rfl
          · simp

def fieldsText (m : Fields) : Text := m.flatMap fun e => fieldLine e ++ ['\n']

theorem readLines_fields {m done : Fields} (hm : ∀ e ∈ m, PlainField e)
    (hunique : Fields.Unique (done ++ m)) (front : Sections) (name rest : Text) :
    readLines (front ++ [(name, done)]) (fieldsText m ++ rest) =
      readLines (front ++ [(name, done ++ m)]) rest := by
  induction m generalizing done with
  | nil => simp [fieldsText]
  | cons e m ih =>
      have he : PlainField e := hm e List.mem_cons_self
      have htext : fieldsText (e :: m) ++ rest = fieldLine e ++ '\n' :: (fieldsText m ++ rest) := by
        simp [fieldsText]
      have hfresh : Fields.has done e.1 = false := by
        refine Bool.eq_false_iff.mpr fun hhas => ?_
        rw [Fields.Unique, List.map_append, List.nodup_append] at hunique
        exact hunique.2.2 e.1 (Fields.has_iff.mp hhas) e.1 (by simp) rfl
      rw [htext, readLines_line (newline_not_mem he.line_control), readLine_field he,
        addField_last front e.2 hfresh, Option.bind_some,
        ih (fun e' he' => hm e' (List.mem_cons_of_mem e he')) (by simpa using hunique)]
      simp

def sectionText (s : Text × Fields) : Text := headerLine s.1 ++ '\n' :: (fieldsText s.2 ++ ['\n'])

structure PlainSections (s : Sections) : Prop where
  names : ∀ e ∈ s, remotePattern e.1 = true
  nodup : (s.map (·.1)).Nodup
  fields : ∀ e ∈ s, ∀ f ∈ e.2, PlainField f
  unique : ∀ e ∈ s, e.2.Unique

theorem get?_eq_none {s : Sections} {name : Text} (h : name ∉ s.map (·.1)) : s.get? name = none := by
  have hnone : s.find? (·.1 = name) = none := by
    rw [List.find?_eq_none]
    intro e he hk
    exact h (List.mem_map.mpr ⟨e, he, of_decide_eq_true hk⟩)
  rw [Sections.get?, hnone]
  rfl

theorem readLine_blank (sections : Sections) : readLine sections [] = some sections := rfl

theorem readLines_sections {s front : Sections} (h : PlainSections s)
    (hnodup : ((front ++ s).map (·.1)).Nodup) (hroom : (front ++ s).length ≤ 2) :
    readLines front (s.flatMap sectionText) = some (front ++ s) := by
  induction s generalizing front with
  | nil =>
      rw [List.append_nil]
      exact readLines_nil front
  | cons e s ih =>
      have hname := h.names e List.mem_cons_self
      have hfresh : (front.get? e.1).isSome = false := by
        rw [get?_eq_none]
        · rfl
        · intro hmem
          rw [List.map_append, List.nodup_append] at hnodup
          exact hnodup.2.2 e.1 hmem e.1 (by simp) rfl
      have htext : (e :: s).flatMap sectionText = headerLine e.1 ++ '\n' ::
          (fieldsText e.2 ++ ([] ++ '\n' :: s.flatMap sectionText)) := by
        simp [sectionText]
      have hrest : PlainSections s := {
        names := fun e' he' => h.names e' (List.mem_cons_of_mem e he')
        nodup := (List.nodup_cons.mp h.nodup).2
        fields := fun e' he' => h.fields e' (List.mem_cons_of_mem e he')
        unique := fun e' he' => h.unique e' (List.mem_cons_of_mem e he') }
      have hunique : Fields.Unique ([] ++ e.2) := h.unique e List.mem_cons_self
      rw [htext, readLines_line (newline_not_mem (headerLine_control hname)),
        readLine_header hname hfresh (by simp at hroom; omega), Option.bind_some,
        readLines_fields (h.fields e List.mem_cons_self) hunique front e.1, readLines_line (by simp), readLine_blank, Option.bind_some, List.nil_append,
        ih hrest (by simpa using hnodup) (by simpa using hroom)]
      simp

/-! ### What a text can yield -/

structure ReadFrom (s : Sections) : Prop where
  names : ∀ e ∈ s, remotePattern e.1 = true
  nodup : (s.map (·.1)).Nodup
  unique : ∀ e ∈ s, e.2.Unique
  values : ∀ e ∈ s, ∀ f ∈ e.2, PlainValue f.2

theorem addField_eq_some {s s' : Sections} {k v : Text} (h : addField s k v = some s') :
    ∃ (front : Sections) (name : Text) (m : Fields), s = front ++ [(name, m)] ∧ m.has k = false ∧
      s' = front ++ [(name, m ++ [(k, v)])] := by
  induction s generalizing s' with
  | nil => cases h
  | cons e rest ih =>
      cases rest with
      | nil =>
          obtain ⟨name, m⟩ := e
          rw [addField] at h
          split at h
          · cases h
          · rename_i hk
            cases h
            exact ⟨[], name, m, rfl, Bool.eq_false_iff.mpr hk, rfl⟩
      | cons e' rest =>
          rw [addField] at h
          · obtain ⟨t, ht, rfl⟩ := Option.map_eq_some_iff.mp h
            obtain ⟨front, name, m, hs, hk, rfl⟩ := ih ht
            exact ⟨e :: front, name, m, by rw [hs]; rfl, hk, rfl⟩
          · simp

theorem plainValue_trimSpace {s t : Text} (h : s.hasControl = false) (ht : ∀ c ∈ t, c ∈ s) :
    PlainValue t.trimSpace := by
  refine ⟨Text.trimmed_trimSpace t, List.any_eq_false.mpr fun c hc => ?_⟩
  exact List.any_eq_false.mp h c (ht c (Text.mem_of_mem_trimSpace hc))

theorem ReadFrom.addField {s s' : Sections} {k v : Text} (h : ReadFrom s) (hv : PlainValue v)
    (hadd : addField s k v = some s') : ReadFrom s' := by
  obtain ⟨front, name, m, rfl, hk, rfl⟩ := addField_eq_some hadd
  have hold : (name, m) ∈ front ++ [(name, m)] := by simp
  have hkeys : (front ++ [(name, m ++ [(k, v)])]).map (·.1) = (front ++ [(name, m)]).map (·.1) := by
    simp
  refine ⟨?_, by rw [hkeys]; exact h.nodup, ?_, ?_⟩
  · intro e he
    rcases List.mem_append.mp he with he | he
    · exact h.names e (List.mem_append_left _ he)
    · rw [List.mem_singleton.mp he]
      exact h.names (name, m) hold
  · intro e he
    rcases List.mem_append.mp he with he | he
    · exact h.unique e (List.mem_append_left _ he)
    · rw [List.mem_singleton.mp he]
      have hm : Fields.Unique m := h.unique (name, m) hold
      change (List.map _ (m ++ [(k, v)])).Nodup
      rw [List.map_append, List.nodup_append]
      refine ⟨hm, by simp, ?_⟩
      rintro a ha b hb rfl
      rw [List.mem_singleton.mp hb] at ha
      exact Bool.eq_false_iff.mp hk (Fields.has_iff.mpr ha)
  · intro e he f hf
    rcases List.mem_append.mp he with he | he
    · exact h.values e (List.mem_append_left _ he) f hf
    · rw [List.mem_singleton.mp he] at hf
      rcases List.mem_append.mp hf with hf | hf
      · exact h.values (name, m) hold f hf
      · rw [List.mem_singleton.mp hf]
        exact hv

theorem ReadFrom.readLine {s s' : Sections} {line : Text} (h : ReadFrom s)
    (hread : readLine s line = some s') : ReadFrom s' := by
  unfold Rclone.readLine at hread
  extract_lets trimmed name at hread
  split at hread
  · cases hread
    exact h
  · split at hread
    · cases hread
    · rename_i hcontrol
      have hcontrol : trimmed.hasControl = false := Bool.eq_false_iff.mpr hcontrol
      split at hread
      · split at hread
        · cases hread
        · rename_i hok
          cases hread
          simp only [Bool.or_eq_true, Bool.not_eq_true', decide_eq_true_eq, not_or,
            Bool.not_eq_false, Bool.not_eq_true] at hok
          obtain ⟨⟨hname, hfresh⟩, -⟩ := hok
          refine ⟨?_, ?_, ?_, ?_⟩
          · intro e he
            rcases List.mem_append.mp he with he | he
            · exact h.names e he
            · rw [List.mem_singleton.mp he]
              exact hname
          · rw [List.map_append, List.nodup_append]
            refine ⟨h.nodup, by simp, ?_⟩
            rintro a ha b hb rfl
            rw [List.mem_singleton.mp hb] at ha
            obtain ⟨e, he, hkey⟩ := List.mem_map.mp ha
            have hsome : (s.find? (·.1 = name)).isSome = true := by
              rw [List.find?_isSome]
              exact ⟨e, he, decide_eq_true hkey⟩
            rw [Sections.get?, Option.isSome_map, hsome] at hfresh
            cases hfresh
          · intro e he
            rcases List.mem_append.mp he with he | he
            · exact h.unique e he
            · rw [List.mem_singleton.mp he]
              exact List.nodup_nil
          · intro e he f hf
            rcases List.mem_append.mp he with he | he
            · exact h.values e he f hf
            · rw [List.mem_singleton.mp he] at hf
              cases hf
      · split at hread
        · cases hread
        · rename_i key value hcut
          have hmem := Text.cut_eq_some hcut
          refine h.addField (plainValue_trimSpace hcontrol fun c hc => ?_) hread
          rw [hmem]
          exact List.mem_append_right _ (List.mem_cons_of_mem _ hc)

theorem readSections_readFrom {raw : Text} {s : Sections} (h : readSections raw = some s) :
    ReadFrom s := by
  have hrun (lines : List Text) (s s' : Sections) (hs : ReadFrom s)
      (hread : lines.foldlM readLine s = some s') : ReadFrom s' := by
    induction lines generalizing s with
    | nil =>
        cases hread
        exact hs
    | cons line lines ih =>
        rw [List.foldlM_cons] at hread
        obtain ⟨t, ht, hread⟩ := Option.bind_eq_some_iff.mp hread
        exact ih t (hs.readLine ht) hread
  exact hrun _ [] s ⟨by simp, List.nodup_nil, by simp, by simp⟩ h

end RestFleet.Rclone
