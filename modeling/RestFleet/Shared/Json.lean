import Mathlib.Algebra.GroupWithZero.Nat
import Mathlib.Data.Int.Notation
import Mathlib.Data.List.Perm.Basic
import Mathlib.Data.List.Nodup

/-! # JSON values

Values with ordered object members, the text that a compact encoder writes for them, and the
rules by which a decoder fills the fields of a record. A store that keeps values but not the
order of members returns a value that is the same up to that order. -/

namespace RestFleet

inductive Json where
  | null
  | bool (b : Bool)
  | int (n : ℤ)
  | decimal (literal : List Char)
  | str (s : List Char)
  | arr (items : List Json)
  | obj (members : List (List Char × Json))

namespace Json

/-! ## Text -/

/-- The four digits of a `\u` escape. -/
def hex4 (n : ℕ) : List Char :=
  [Nat.digitChar (n / 4096 % 16), Nat.digitChar (n / 256 % 16), Nat.digitChar (n / 16 % 16),
    Nat.digitChar (n % 16)]

/-- One character of a string, escaped for JavaScript and HTML. -/
def escape (c : Char) : List Char :=
  if c = '"' || c = '\\' then ['\\', c]
  else if c = '\n' then ['\\', 'n']
  else if c = '\r' then ['\\', 'r']
  else if c = '\t' then ['\\', 't']
  else if c.toNat = 8 then ['\\', 'b']
  else if c.toNat = 12 then ['\\', 'f']
  else if c.toNat < 32 || c = '<' || c = '>' || c = '&' || c.toNat = 0x2028 || c.toNat = 0x2029 then
    '\\' :: 'u' :: hex4 c.toNat
  else [c]

def quote (s : List Char) : List Char := '"' :: s.flatMap escape ++ ['"']

def digits (n : ℤ) : List Char :=
  if n < 0 then '-' :: Nat.toDigits 10 n.natAbs else Nat.toDigits 10 n.natAbs

mutual

def render : Json → List Char
  | .null => ['n', 'u', 'l', 'l']
  | .bool true => ['t', 'r', 'u', 'e']
  | .bool false => ['f', 'a', 'l', 's', 'e']
  | .int n => digits n
  | .decimal literal => literal
  | .str s => quote s
  | .arr items => '[' :: renderItems items ++ [']']
  | .obj members => '\x7b' :: renderMembers members ++ ['\x7d']

def renderItems : List Json → List Char
  | [] => []
  | [j] => render j
  | j :: rest => render j ++ ',' :: renderItems rest

def renderMembers : List (List Char × Json) → List Char
  | [] => []
  | [(k, j)] => quote k ++ ':' :: render j
  | (k, j) :: rest => quote k ++ ':' :: (render j ++ ',' :: renderMembers rest)

end

theorem length_renderItems (items : List Json) :
    (renderItems items).length =
      (items.map fun j => (render j).length).sum + (items.length - 1) := by
  induction items with
  | nil => simp [renderItems]
  | cons j rest ih =>
      cases rest with
      | nil => simp [renderItems]
      | cons j' rest =>
          simp only [renderItems, List.length_append, List.length_cons, ih, List.map_cons,
            List.sum_cons]
          omega

def memberLength (m : List Char × Json) : ℕ := (quote m.1).length + 1 + (render m.2).length

theorem length_renderMembers (members : List (List Char × Json)) :
    (renderMembers members).length =
      (members.map memberLength).sum + (members.length - 1) := by
  induction members with
  | nil => simp [renderMembers]
  | cons m rest ih =>
      obtain ⟨k, j⟩ := m
      cases rest with
      | nil =>
          simp only [renderMembers, List.length_append, List.length_cons, List.map_cons,
            List.sum_cons, List.map_nil, List.sum_nil, memberLength, List.length_nil]
          omega
      | cons m' rest =>
          simp only [renderMembers, List.length_append, List.length_cons, ih, List.map_cons,
            List.sum_cons, memberLength]
          omega

theorem length_render_arr (items : List Json) :
    (render (.arr items)).length =
      (items.map fun j => (render j).length).sum + (items.length - 1) + 2 := by
  simp only [render, List.length_cons, List.length_append, length_renderItems, List.length_nil]

theorem length_render_obj (members : List (List Char × Json)) :
    (render (.obj members)).length =
      (members.map memberLength).sum + (members.length - 1) + 2 := by
  simp only [render, List.length_cons, List.length_append, length_renderMembers, List.length_nil]

/-! ## Values up to the order of members -/

mutual

/-- The same value, with the members of its objects in any order. -/
inductive Same : Json → Json → Prop where
  | null : Same .null .null
  | bool (b : Bool) : Same (.bool b) (.bool b)
  | int (n : ℤ) : Same (.int n) (.int n)
  | decimal (literal : List Char) : Same (.decimal literal) (.decimal literal)
  | str (s : List Char) : Same (.str s) (.str s)
  | arr {items items' : List Json} (h : SameItems items items') : Same (.arr items) (.arr items')
  | obj {members members' stored : List (List Char × Json)} (h : SameMembers members members')
      (hp : members'.Perm stored) : Same (.obj members) (.obj stored)

inductive SameItems : List Json → List Json → Prop where
  | nil : SameItems [] []
  | cons {j j' : Json} {rest rest' : List Json} (h : Same j j') (ht : SameItems rest rest') :
      SameItems (j :: rest) (j' :: rest')

inductive SameMembers : List (List Char × Json) → List (List Char × Json) → Prop where
  | nil : SameMembers [] []
  | cons {k : List Char} {j j' : Json} {rest rest' : List (List Char × Json)} (h : Same j j')
      (ht : SameMembers rest rest') : SameMembers ((k, j) :: rest) ((k, j') :: rest')

end

mutual

theorem Same.refl : ∀ j : Json, Same j j
  | .null => .null
  | .bool b => .bool b
  | .int n => .int n
  | .decimal literal => .decimal literal
  | .str s => .str s
  | .arr items => .arr (SameItems.refl items)
  | .obj members => .obj (SameMembers.refl members) (List.Perm.refl members)

theorem SameItems.refl : ∀ items : List Json, SameItems items items
  | [] => .nil
  | j :: rest => .cons (Same.refl j) (SameItems.refl rest)

theorem SameMembers.refl : ∀ members : List (List Char × Json), SameMembers members members
  | [] => .nil
  | (_, j) :: rest => .cons (Same.refl j) (SameMembers.refl rest)

end

theorem Same.of_null {j : Json} (h : Same .null j) : j = .null := by
  cases h
  rfl

theorem Same.of_bool {b : Bool} {j : Json} (h : Same (.bool b) j) : j = .bool b := by
  cases h
  rfl

theorem Same.of_int {n : ℤ} {j : Json} (h : Same (.int n) j) : j = .int n := by
  cases h
  rfl

theorem Same.of_str {s : List Char} {j : Json} (h : Same (.str s) j) : j = .str s := by
  cases h
  rfl

theorem SameMembers.keys {members members' : List (List Char × Json)}
    (h : SameMembers members members') : members'.map Prod.fst = members.map Prod.fst := by
  induction members generalizing members' with
  | nil =>
      cases h
      rfl
  | cons m rest ih =>
      cases h with
      | cons _ ht => simp [ih ht]

theorem SameMembers.mem {members members' : List (List Char × Json)}
    (h : SameMembers members members') {k : List Char} {j : Json} (hm : (k, j) ∈ members) :
    ∃ j', (k, j') ∈ members' ∧ Same j j' := by
  induction members generalizing members' with
  | nil => cases hm
  | cons m rest ih =>
      cases h with
      | cons hj ht =>
          rcases List.mem_cons.mp hm with heq | hm
          · cases heq
            exact ⟨_, List.mem_cons_self, hj⟩
          · obtain ⟨j', hmem, hsame⟩ := ih ht hm
            exact ⟨j', List.mem_cons_of_mem _ hmem, hsame⟩

/-- What the members of a stored object have in common with those that were written. -/
structure Carries (members stored : List (List Char × Json)) : Prop where
  keys : (stored.map Prod.fst).Perm (members.map Prod.fst)
  mem : ∀ k j, (k, j) ∈ members → ∃ j', (k, j') ∈ stored ∧ Same j j'

theorem Same.of_obj {members : List (List Char × Json)} {j : Json} (h : Same (.obj members) j) :
    ∃ stored, j = .obj stored ∧ Carries members stored := by
  cases h with
  | obj hm hp =>
      refine ⟨_, rfl, ?_, ?_⟩
      · rw [← hm.keys]
        exact (hp.map Prod.fst).symm
      · intro k j hmem
        obtain ⟨j', hj', hsame⟩ := hm.mem hmem
        exact ⟨j', hp.mem_iff.mp hj', hsame⟩

/-! ## Decoding

A key names a field when both fold to the same text. A value of `null` leaves a scalar field as
it is and clears a slice or a pointer. -/

variable {α : Type}

/-- Simple case folding, as far as it can produce an ASCII letter. -/
def foldChar (c : Char) : Char :=
  if c.isLower then c.toUpper
  else if c.toNat = 0x17f then 'S'
  else if c.toNat = 0x212a then 'K'
  else c

def sameKey (name key : List Char) : Bool := key.map foldChar = name.map foldChar

/-- The decoded value of one field: every member with its name is decoded over the last one. -/
def field (name : List Char) (decode : α → Json → Option α) (start : α)
    (members : List (List Char × Json)) : Option α :=
  members.foldlM (fun x m => if sameKey name m.1 then decode x m.2 else some x) start

/-- No two keys name one field. -/
def Distinct (members : List (List Char × Json)) : Prop :=
  ((members.map Prod.fst).map (List.map foldChar)).Nodup

instance (members : List (List Char × Json)) : Decidable (Distinct members) :=
  inferInstanceAs (Decidable (List.Nodup _))

section Field

variable {name : List Char} {decode : α → Json → Option α} {start x : α} {j : Json}
  {members stored : List (List Char × Json)}

theorem field_absent (h : ∀ m ∈ members, sameKey name m.1 = false) :
    field name decode start members = some start := by
  induction members with
  | nil => rfl
  | cons m rest ih =>
      have hm : sameKey name m.1 = false := h m List.mem_cons_self
      have hrest := ih fun m' hm' => h m' (List.mem_cons_of_mem m hm')
      simpa [field, hm] using hrest

theorem field_of_mem (hd : Distinct members) (hm : (name, j) ∈ members) :
    field name decode start members = decode start j := by
  induction members with
  | nil => cases hm
  | cons m rest ih =>
      obtain ⟨hfresh, hrest⟩ := List.nodup_cons.mp hd
      by_cases heq : m = (name, j)
      · subst heq
        have habsent : ∀ m' ∈ rest, sameKey name m'.1 = false := by
          intro m' hm'
          refine Bool.eq_false_iff.mpr fun hs => hfresh ?_
          exact List.mem_map.mpr ⟨m'.1, List.mem_map_of_mem hm', of_decide_eq_true hs⟩
        have hstep : field name decode start ((name, j) :: rest) =
            (decode start j).bind fun y => field name decode y rest := by
          simp [field, sameKey]
        rw [hstep]
        cases decode start j with
        | none => rfl
        | some y => exact field_absent habsent
      · have hmem : (name, j) ∈ rest := by
          rcases List.mem_cons.mp hm with h | h
          · exact absurd h.symm heq
          · exact h
        have hother : sameKey name m.1 = false := by
          refine Bool.eq_false_iff.mpr fun hs => hfresh ?_
          have hfold : m.1.map foldChar = name.map foldChar := of_decide_eq_true hs
          exact List.mem_map.mpr ⟨name, List.mem_map.mpr ⟨(name, j), hmem, rfl⟩, hfold.symm⟩
        have hstep : field name decode start (m :: rest) = field name decode start rest := by
          simp [field, hother]
        rw [hstep]
        exact ih hrest hmem

theorem Carries.distinct (h : Carries members stored) (hd : Distinct members) :
    Distinct stored :=
  (h.keys.map (List.map foldChar)).nodup_iff.mpr hd

/-- A field that was written is read back in whatever order the members come. -/
theorem Carries.field (h : Carries members stored) (hd : Distinct members)
    (hm : (name, j) ∈ members) (hx : ∀ j', Same j j' → decode start j' = some x) :
    Json.field name decode start stored = some x := by
  obtain ⟨j', hmem, hsame⟩ := h.mem name j hm
  rw [field_of_mem (h.distinct hd) hmem]
  exact hx j' hsame

theorem Carries.field_absent (h : Carries members stored)
    (habsent : ∀ m ∈ members, sameKey name m.1 = false) :
    Json.field name decode start stored = some start := by
  refine Json.field_absent fun m hm => ?_
  have hkey : m.1 ∈ members.map Prod.fst := h.keys.mem_iff.mp (List.mem_map_of_mem hm)
  obtain ⟨m', hm', hk⟩ := List.mem_map.mp hkey
  rw [← hk]
  exact habsent m' hm'

end Field

/-! ## Field types -/

def decodeBool : Bool → Json → Option Bool
  | x, .null => some x
  | _, .bool b => some b
  | _, _ => none

/-- An integer field accepts the integers in its range. -/
def decodeInt (low high : ℤ) : ℤ → Json → Option ℤ
  | x, .null => some x
  | _, .int n => if low ≤ n && n ≤ high then some n else none
  | _, _ => none

def decodeStr : List Char → Json → Option (List Char)
  | x, .null => some x
  | _, .str s => some s
  | _, _ => none

/-- A type with a text form. -/
def decodeText (parse : List Char → Option α) : α → Json → Option α
  | x, .null => some x
  | _, .str s => parse s
  | _, _ => none

/-- A slice: `none` is the nil slice. -/
def encodeSlice (encode : α → Json) : Option (List α) → Json
  | none => .null
  | some xs => .arr (xs.map encode)

def decodeSlice (decode : Json → Option α) : Option (List α) → Json → Option (Option (List α))
  | _, .null => some none
  | _, .arr items => (items.mapM decode).map some
  | _, _ => none

def encodePointer (encode : α → Json) : Option α → Json
  | none => .null
  | some x => encode x

/-- A pointer keeps what it points to and fills it. -/
def decodePointer (zero : α) (decode : α → Json → Option α) : Option α → Json → Option (Option α)
  | _, .null => some none
  | x, j => (decode (x.getD zero) j).map some

theorem decodeBool_same {b x : Bool} {j : Json} (h : Same (.bool b) j) :
    decodeBool x j = some b := by
  rw [h.of_bool]
  rfl

theorem decodeInt_same {low high n x : ℤ} {j : Json} (hl : low ≤ n) (hh : n ≤ high)
    (h : Same (.int n) j) : decodeInt low high x j = some n := by
  rw [h.of_int]
  simp [decodeInt, hl, hh]

theorem decodeStr_same {s x : List Char} {j : Json} (h : Same (.str s) j) :
    decodeStr x j = some s := by
  rw [h.of_str]
  rfl

theorem decodeText_same {parse : List Char → Option α} {text : α → List Char} {a x : α} {j : Json}
    (hp : parse (text a) = some a) (h : Same (.str (text a)) j) :
    decodeText parse x j = some a := by
  rw [h.of_str]
  exact hp

theorem decodeItems_same {β : Type} {encode : α → Json} {decode : Json → Option β} {f : α → β}
    {xs : List α} {items : List Json}
    (hdec : ∀ a ∈ xs, ∀ j, Same (encode a) j → decode j = some (f a))
    (h : SameItems (xs.map encode) items) : items.mapM decode = some (xs.map f) := by
  induction xs generalizing items with
  | nil =>
      cases h
      rfl
  | cons a rest ih =>
      cases h with
      | cons hj ht =>
          have ha := hdec a List.mem_cons_self _ hj
          have hrest := ih (fun b hb => hdec b (List.mem_cons_of_mem a hb)) ht
          simp [List.mapM_cons, ha, hrest]

theorem decodeSlice_same {β : Type} {encode : α → Json} {decode : Json → Option β} {f : α → β}
    {slice : Option (List α)} {x : Option (List β)} {j : Json}
    (hdec : ∀ xs, slice = some xs → ∀ a ∈ xs, ∀ j, Same (encode a) j → decode j = some (f a))
    (h : Same (encodeSlice encode slice) j) :
    decodeSlice decode x j = some (slice.map (List.map f)) := by
  cases slice with
  | none =>
      rw [h.of_null]
      rfl
  | some xs =>
      cases h with
      | arr hitems => simp [decodeSlice, decodeItems_same (hdec xs rfl) hitems]

/-! ## Omitted members -/

/-- The zero values that `omitempty` leaves out. -/
def isEmpty : Json → Bool
  | .null | .bool false | .int 0 | .str [] | .arr [] => true
  | _ => false

/-- An object without its empty members. -/
def sparse (members : List (List Char × Json)) : List (List Char × Json) :=
  members.filter fun m => !m.2.isEmpty

theorem length_render_sparse (members : List (List Char × Json)) :
    (render (.obj (sparse members))).length ≤ (members.map memberLength).sum + members.length + 2 := by
  have hsum : ((sparse members).map memberLength).sum ≤ (members.map memberLength).sum := by
    induction members with
    | nil => simp [Json.sparse]
    | cons m rest ih =>
        rw [Json.sparse, List.filter_cons]
        split
        · simpa [Json.sparse] using ih
        · rw [List.map_cons, List.sum_cons]
          exact Nat.le_add_left_of_le ih
  have hlen : (sparse members).length ≤ members.length := List.length_filter_le _ _
  rw [length_render_obj]
  omega

theorem Distinct.sparse {members : List (List Char × Json)} (hd : Distinct members) :
    Distinct (Json.sparse members) :=
  List.Nodup.sublist ((List.filter_sublist.map _).map _) hd

/-- An omitted field keeps the value that it has in a new record. -/
theorem Carries.field_sparse {name : List Char} {decode : α → Json → Option α} {start x : α}
    {j : Json} {members stored : List (List Char × Json)} (h : Carries (Json.sparse members) stored)
    (hd : Distinct members) (hm : (name, j) ∈ members) (hempty : j.isEmpty = true → x = start)
    (hx : j.isEmpty = false → ∀ j', Same j j' → decode start j' = some x) :
    Json.field name decode start stored = some x := by
  cases he : j.isEmpty with
  | false => exact h.field hd.sparse (List.mem_filter.mpr ⟨hm, by simp [he]⟩) (hx he)
  | true =>
      rw [hempty he]
      refine h.field_absent fun m hkept => Bool.eq_false_iff.mpr fun hs => ?_
      obtain ⟨hmem, hne⟩ := List.mem_filter.mp hkept
      have hfold : m.1.map foldChar = name.map foldChar := of_decide_eq_true hs
      rw [Distinct, List.map_map] at hd
      have heq : m = (name, j) := List.inj_on_of_nodup_map hd hmem hm hfold
      simp [heq, he] at hne

end Json

end RestFleet
