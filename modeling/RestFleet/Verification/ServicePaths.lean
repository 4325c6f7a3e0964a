import RestFleet.Model.Service
import RestFleet.Verification.Strings

/-! # Separation of the service paths

A clean absolute path is the list of its elements. -/

namespace RestFleet

/-! ## Elements of a path -/

/-- The names that lead from the root to a path. -/
def Text.elements (path : Text) : List Text := (path.split '/').filter (· ≠ [])

/-- Neither path is equal to, an ancestor of, or inside the other. -/
def Apart (a b : Text) : Prop :=
  ¬ Text.elements a <+: Text.elements b ∧ ¬ Text.elements b <+: Text.elements a

def IsElement (part : Text) : Prop := part ≠ [] ∧ '/' ∉ part

/-- The path from the root with the given elements. -/
def ofElements (parts : List Text) : Text := parts.flatMap ('/' :: ·)

section

variable {path a b : Text} {parts as bs : List Text}

theorem split_ofElements (h : ∀ p ∈ parts, IsElement p) :
    Text.split '/' (ofElements parts) = [] :: parts := by
  induction parts using List.reverseRecOn with
  | nil => rfl
  | append_singleton rest last ih =>
      have hjoin : ofElements (rest ++ [last]) = ofElements rest ++ '/' :: last := by
        simp [ofElements]
      rw [hjoin, Text.split_append (h last (by simp)).2,
        ih fun p hp => h p (List.mem_append_left _ hp)]
      rfl

theorem elements_ofElements (h : ∀ p ∈ parts, IsElement p) :
    Text.elements (ofElements parts) = parts := by
  rw [Text.elements, split_ofElements h]
  simpa using fun p hp => (h p hp).1

/-- With the final separator, a path begins another one if its elements do. -/
theorem ofElements_isPrefix (ha : ∀ p ∈ as, IsElement p) (hb : ∀ p ∈ bs, IsElement p) :
    ofElements as ++ ['/'] <+: ofElements bs ++ ['/'] ↔ as <+: bs := by
  constructor
  · rintro ⟨rest, hrest⟩
    have hsplit := congrArg (Text.split '/') hrest
    rw [List.append_assoc, List.singleton_append, Text.split_append_sep, Text.split_append_sep,
      split_ofElements ha, split_ofElements hb] at hsplit
    have hbegins : as <+: bs ++ [[]] := ⟨_, (List.cons.inj hsplit).2⟩
    -- the part after the final separator is empty, so it is no element of `as`
    refine (List.prefix_concat_iff.mp hbegins).resolve_left fun has => ?_
    exact (ha [] (has ▸ List.mem_append_right _ List.mem_cons_self)).1 rfl
  · rintro ⟨rest, rfl⟩
    rw [ofElements, ofElements, List.flatMap_append, List.append_assoc, List.prefix_append_right_inj]
    cases rest with
    | nil => exact List.prefix_refl _
    | cons p rest => exact ⟨p ++ ofElements rest ++ ['/'], by simp [ofElements]⟩

/-- A clean absolute path other than the root. -/
def BelowRoot (path : Text) : Prop := ∃ parts, (∀ p ∈ parts, IsElement p) ∧ path = ofElements parts

theorem isElement_of_mem_cleanParts {part : Text} (h : part ∈ Text.cleanParts path) :
    IsElement part := by
  suffices hfold : ∀ rest done : List Text, (∀ p ∈ rest, '/' ∉ p) → (∀ p ∈ done, IsElement p) →
      ∀ p ∈ rest.foldl Text.cleanStep done, IsElement p from
    hfold _ [] (fun p hp => Text.not_mem_of_mem_split hp) (by simp) part h
  intro rest
  induction rest with
  | nil => exact fun done _ hdone => hdone
  | cons q rest ih =>
      intro done hrest hdone
      refine ih _ (fun p hp => hrest p (List.mem_cons_of_mem _ hp)) fun p hp => ?_
      unfold Text.cleanStep at hp
      split_ifs at hp with hempty
      · exact hdone p hp
      · exact hdone p (List.dropLast_subset _ hp)
      · rcases List.mem_append.mp hp with hp | hp
        · exact hdone p hp
        · obtain rfl := List.mem_singleton.mp hp
          simp only [Bool.or_eq_true, decide_eq_true_eq, not_or] at hempty
          exact ⟨hempty.1, hrest p List.mem_cons_self⟩

theorem belowRoot_cleanAbs (h : path.cleanAbs ≠ ['/']) : BelowRoot path.cleanAbs := by
  rw [Text.cleanAbs_eq] at h ⊢
  split
  · rename_i hempty
    exact absurd (if_pos hempty) h
  · exact ⟨_, fun p => isElement_of_mem_cleanParts, rfl⟩

/-- Below the root, the overlap test is exact. -/
theorem servicePathsOverlap_eq_false_iff (ha : BelowRoot a) (hb : BelowRoot b) :
    servicePathsOverlap a b = false ↔ Apart a b := by
  have hoverlap : servicePathsOverlap a b = true ↔ b ++ ['/'] <+: a ++ ['/'] ∨
      a ++ ['/'] <+: b ++ ['/'] := by
    simp only [servicePathsOverlap, Bool.or_eq_true, decide_eq_true_eq, Text.hasPrefix_iff,
      List.prefix_concat_iff, List.append_left_inj]
    grind
  obtain ⟨as, has, rfl⟩ := ha
  obtain ⟨bs, hbs, rfl⟩ := hb
  rw [ofElements_isPrefix hbs has, ofElements_isPrefix has hbs] at hoverlap
  rw [Apart, elements_ofElements has, elements_ofElements hbs, ← Bool.not_eq_true, hoverlap, not_or,
    and_comm]

theorem not_apart_root : ¬ Apart a ['/'] := fun h => h.2 List.nil_prefix

end

/-! ## Accepted configurations -/

namespace ServiceConfig

variable {s : ServiceConfig} {dir : Text}

/-- Private directories are apart from each other, from the directories of key files and from those
of sockets, and the latter two from each other. -/
structure Separated (s : ServiceConfig) : Prop where
  privateDirs : s.privateDirs.Pairwise Apart
  others : ∀ dir ∈ s.privateDirs, ∀ other ∈ s.keyDirs ++ s.ipcDirs, Apart dir other
  keyDirs : ∀ dir ∈ s.keyDirs, ∀ ipc ∈ s.ipcDirs, Apart dir ipc

theorem noOverlap_iff : s.noOverlap = true ↔
    s.privateDirs.Pairwise (fun dir other => servicePathsOverlap dir other = false) ∧
    (∀ dir ∈ s.privateDirs, ∀ other ∈ s.keyDirs ++ s.ipcDirs,
      servicePathsOverlap dir other = false) ∧
    ∀ dir ∈ s.keyDirs, ∀ ipc ∈ s.ipcDirs, servicePathsOverlap dir ipc = false := by
  simp only [noOverlap, Bool.and_eq_true, decide_eq_true_eq, List.all_eq_true, Bool.not_eq_true',
    and_assoc]

theorem privateDirs_subset_paths : s.privateDirs ⊆ s.paths := by
  intro dir hdir
  simp only [privateDirs, paths, List.mem_append, List.mem_map, List.mem_flatMap] at hdir ⊢
  rcases hdir with hdir | ⟨r, hr, rfl⟩
  · exact Or.inl (Or.inl (by simp_all; tauto))
  · exact Or.inr ⟨r, hr, by simp⟩

theorem belowRoot_of_privateDir (h : s.validPaths = true) (hdir : dir ∈ s.privateDirs) :
    BelowRoot dir := by
  simp only [validPaths, Bool.and_eq_true, List.all_eq_true, decide_eq_true_eq] at h
  obtain ⟨⟨⟨-, hclean⟩, hroot⟩, -⟩ := h.1.1 dir (privateDirs_subset_paths hdir)
  exact hclean ▸ belowRoot_cleanAbs (hclean.symm ▸ hroot)

theorem belowRoot_of_mem_dirs {files : List Text} (h : ['/'] ∉ files.map Text.dir)
    (hdir : dir ∈ files.map Text.dir) : BelowRoot dir := by
  obtain ⟨file, -, rfl⟩ := List.mem_map.mp hdir
  exact belowRoot_cleanAbs fun hroot => h (hroot ▸ hdir)

/-- An accepted configuration has its directories separated, unless a key file or a socket is in the
root directory itself. -/
theorem service_paths_separated_iff (s : ServiceConfig) (net : Net) (uid : UInt32)
    (h : s.validate net uid = true) :
    s.Separated ↔ ['/'] ∉ s.keyDirs ∧ ['/'] ∉ s.ipcDirs := by
  simp only [validate, Bool.and_eq_true] at h
  obtain ⟨⟨-, hpaths⟩, hoverlap⟩ := h
  obtain ⟨hprivate, hothers, hkeys⟩ := noOverlap_iff.mp hoverlap
  have hbelow : ∀ dir ∈ s.privateDirs, BelowRoot dir := fun _ => belowRoot_of_privateDir hpaths
  constructor
  · intro hsep
    have hapart := hsep.others s.auditQueueDirectory List.mem_cons_self
    exact ⟨fun hroot => not_apart_root (hapart _ (List.mem_append_left _ hroot)),
      fun hroot => not_apart_root (hapart _ (List.mem_append_right _ hroot))⟩
  · rintro ⟨hkey, hipc⟩
    refine ⟨hprivate.imp_of_mem fun ha hb => ?_, fun dir hdir other hother => ?_,
      fun dir hdir ipc hmem => ?_⟩
    · exact (servicePathsOverlap_eq_false_iff (hbelow _ ha) (hbelow _ hb)).mp
    · refine (servicePathsOverlap_eq_false_iff (hbelow dir hdir) ?_).mp (hothers dir hdir other hother)
      exact (List.mem_append.mp hother).elim (belowRoot_of_mem_dirs hkey) (belowRoot_of_mem_dirs hipc)
    · exact (servicePathsOverlap_eq_false_iff (belowRoot_of_mem_dirs hkey hdir)
        (belowRoot_of_mem_dirs hipc hmem)).mp (hkeys dir hdir ipc hmem)

/-! ## A computed configuration -/

def sampleNet : Net :=
  ⟨(Text.cut · ':'), (· = "127.0.0.1".toList), fun host port => host ++ ':' :: port⟩

def sampleRepository (id : UUID) : ServiceRepository :=
  ⟨⟨id, id, id, id, id, id, id, id, id, id, id, List.replicate 64 '0'⟩, "/k/s".toList, "/p".toList,
    "/s/m".toList, "/s/a".toList⟩

def sampleConfig (pin : Text) : ServiceConfig :=
  let id : UUID := 0x00000000000070008000000000000000
  { version := 1, environment := "production".toList, centralPinFile := pin,
    auditOrigin := ⟨id, id⟩, auditSourceFile := "/k/o".toList,
    recipientPublic := List.replicate 32 1, auditQueueDirectory := "/q".toList,
    maxBytes := 1048576, maxRecords := 1, runtimeDirectory := "/r".toList,
    rcloneBinary := "/b".toList, certificateFile := "/k/c".toList, tlsKeyFile := "/k/t".toList,
    clientCAFile := [], listenAddress := "127.0.0.1:443".toList, maxSessions := 1, serverUID := 1,
    sharedGroup := 1, replaySocket := "/s/r".toList, startupWaitSeconds := 1,
    repositories := [sampleRepository id] }

theorem service_paths_separated_iff_sample : (sampleConfig "/k/p".toList).Separated :=
  (service_paths_separated_iff _ sampleNet 2 (by decide +kernel)).mpr (by decide)

/-- A key file in the root directory, which holds every private directory. -/
theorem key_file_in_root_accepted :
    (sampleConfig "/p0".toList).validate sampleNet 2 = true ∧
      ¬ (sampleConfig "/p0".toList).Separated :=
  ⟨by decide +kernel, fun h => not_apart_root
    (h.others "/q".toList (by decide) ['/'] (by decide))⟩

end ServiceConfig

end RestFleet
