import Mathlib.Data.List.Sort
import RestFleet.Shared.JsonText

/-! # Normal forms of JSON values

The last of the members with one key is kept, members are sorted and each number is written its own
way. Doing so absorbs having done so in another way before. Numbers are literals here. -/

namespace RestFleet.Json

section Members

variable {α β : Type}

/-- Of the members with one key only the last one counts. -/
def lastWins : List (List Char × α) → List (List Char × α)
  | [] => []
  | m :: rest => if m.1 ∈ rest.map (·.1) then lastWins rest else m :: lastWins rest

theorem mem_keys_lastWins {k : List Char} {members : List (List Char × α)} :
    k ∈ (lastWins members).map (·.1) ↔ k ∈ members.map (·.1) := by
  induction members with
  | nil => rfl
  | cons m rest ih =>
      unfold lastWins
      split
      · rename_i hm
        rw [ih, List.map_cons, List.mem_cons]
        refine ⟨Or.inr, ?_⟩
        rintro (rfl | h)
        · exact hm
        · exact h
      · rw [List.map_cons, List.map_cons, List.mem_cons, List.mem_cons, ih]

theorem mem_of_mem_lastWins {m : List Char × α} {members : List (List Char × α)}
    (h : m ∈ lastWins members) : m ∈ members := by
  induction members with
  | nil => exact h
  | cons x rest ih =>
      unfold lastWins at h
      split at h
      · exact List.mem_cons_of_mem x (ih h)
      · rcases List.mem_cons.mp h with rfl | h
        · exact List.mem_cons_self
        · exact List.mem_cons_of_mem x (ih h)

theorem nodup_lastWins (members : List (List Char × α)) :
    ((lastWins members).map (·.1)).Nodup := by
  induction members with
  | nil => exact List.nodup_nil
  | cons m rest ih =>
      unfold lastWins
      split
      · exact ih
      · rename_i hm
        rw [List.map_cons, List.nodup_cons, mem_keys_lastWins]
        exact ⟨hm, ih⟩

theorem lastWins_of_nodup {members : List (List Char × α)} (h : (members.map (·.1)).Nodup) :
    lastWins members = members := by
  induction members with
  | nil => rfl
  | cons m rest ih =>
      rw [List.map_cons, List.nodup_cons] at h
      rw [lastWins, if_neg h.1, ih h.2]

/-- A change of the values of members. -/
abbrev onValues (f : α → β) (members : List (List Char × α)) : List (List Char × β) :=
  members.map fun m => (m.1, f m.2)

theorem keys_onValues (f : α → β) (members : List (List Char × α)) :
    (onValues f members).map (·.1) = members.map (·.1) := by
  simp

theorem lastWins_onValues (f : α → β) (members : List (List Char × α)) :
    lastWins (onValues f members) = onValues f (lastWins members) := by
  induction members with
  | nil => rfl
  | cons m rest ih =>
      rw [onValues, List.map_cons, lastWins, lastWins, keys_onValues]
      by_cases hm : m.1 ∈ rest.map (·.1)
      · rw [if_pos hm, if_pos hm, ih]
      · rw [if_neg hm, if_neg hm, ih]
        rfl

variable (le le' : List Char → List Char → Prop) [DecidableRel le] [DecidableRel le']

def sortMembers (members : List (List Char × α)) : List (List Char × α) :=
  members.insertionSort fun a b => le a.1 b.1

theorem sortMembers_perm (members : List (List Char × α)) :
    (sortMembers le members).Perm members :=
  List.perm_insertionSort _ members

theorem sortMembers_onValues (f : α → β) (members : List (List Char × α)) :
    sortMembers le (onValues f members) = onValues f (sortMembers le members) :=
  (List.map_insertionSort (fun a b : List Char × α => le a.1 b.1)
    (fun a b : List Char × β => le a.1 b.1) (fun m => (m.1, f m.2)) members
    fun _ _ _ _ => Iff.rfl).symm

theorem sortMembers_congr [IsTrans _ le] [Std.Total le] [Std.Antisymm le]
    {members members' : List (List Char × α)} (h : (members.map (·.1)).Nodup)
    (hp : members.Perm members') : sortMembers le members = sortMembers le members' := by
  have hsorted (l : List (List Char × α)) :
      (sortMembers le l).Pairwise fun a b => le a.1 b.1 := by
    have : IsTrans (List Char × α) fun a b => le a.1 b.1 := ⟨fun _ _ _ hab hbc => Trans.trans hab hbc⟩
    have : Std.Total fun a b : List Char × α => le a.1 b.1 :=
      ⟨fun a b => Std.Total.total (r := le) a.1 b.1⟩
    exact List.pairwise_insertionSort _ l
  have hperm : (sortMembers le members).Perm (sortMembers le members') :=
    (sortMembers_perm le members).trans (hp.trans (sortMembers_perm le members').symm)
  refine hperm.eq_of_pairwise (fun a b ha hb hab hba => ?_) (hsorted _) (hsorted _)
  have hkey : a.1 = b.1 := Std.Antisymm.antisymm (r := le) a.1 b.1 hab hba
  have ha' := (sortMembers_perm le members).mem_iff.mp ha
  have hb' := hp.mem_iff.mpr ((sortMembers_perm le members').mem_iff.mp hb)
  exact List.inj_on_of_nodup_map h ha' hb' hkey

end Members

/-! ## Normal forms -/

section Normal

variable (number : List Char → List Char) (le : List Char → List Char → Prop) [DecidableRel le]

mutual

/-- The value with its members deduplicated and sorted and its numbers rewritten. -/
def normal : Json → Json
  | .int n => .decimal (number (digits n))
  | .decimal literal => .decimal (number literal)
  | .arr items => .arr (normalItems items)
  | .obj members => .obj (sortMembers le (lastWins (normalMembers members)))
  | j => j

def normalItems : List Json → List Json
  | [] => []
  | j :: rest => normal j :: normalItems rest

def normalMembers : List (List Char × Json) → List (List Char × Json)
  | [] => []
  | (k, j) :: rest => (k, normal j) :: normalMembers rest

end

theorem normalMembers_eq (members : List (List Char × Json)) :
    normalMembers number le members = onValues (normal number le) members := by
  induction members with
  | nil => rfl
  | cons m rest ih =>
      obtain ⟨k, j⟩ := m
      rw [normalMembers, ih]
      rfl

end Normal

mutual

/-- The literals of a value, those of overwritten members included. -/
def literals : Json → List (List Char)
  | .int n => [digits n]
  | .decimal literal => [literal]
  | .arr items => literalsItems items
  | .obj members => literalsMembers members
  | _ => []

def literalsItems : List Json → List (List Char)
  | [] => []
  | j :: rest => literals j ++ literalsItems rest

def literalsMembers : List (List Char × Json) → List (List Char)
  | [] => []
  | (_, j) :: rest => literals j ++ literalsMembers rest

end

mutual

/-- The strings of a value, with the keys of its members. -/
def strings : Json → List (List Char)
  | .str s => [s]
  | .arr items => stringsItems items
  | .obj members => stringsMembers members
  | _ => []

def stringsItems : List Json → List (List Char)
  | [] => []
  | j :: rest => strings j ++ stringsItems rest

def stringsMembers : List (List Char × Json) → List (List Char)
  | [] => []
  | (k, j) :: rest => k :: (strings j ++ stringsMembers rest)

end

section Absorb

variable {f g : List Char → List Char} {le le' : List Char → List Char → Prop} [DecidableRel le]
  [DecidableRel le']

/-- What is deduplicated and sorted is so again, whatever the first order was. -/
theorem sort_lastWins_absorb [IsTrans _ le] [Std.Total le] [Std.Antisymm le]
    (members : List (List Char × Json)) :
    sortMembers le (lastWins (sortMembers le' (lastWins members))) =
      sortMembers le (lastWins members) := by
  have hperm := sortMembers_perm le' (lastWins members)
  have hnodup := nodup_lastWins members
  rw [lastWins_of_nodup ((hperm.map _).nodup_iff.mpr hnodup)]
  exact (sortMembers_congr le hnodup hperm.symm).symm

mutual

theorem normal_normal [IsTrans _ le] [Std.Total le] [Std.Antisymm le] (j : Json)
    (h : ∀ l ∈ literals j, f (g l) = f l) :
    normal f le (normal g le' j) = normal f le j := by
  match j, h with
  | .null, _ => rfl
  | .bool b, _ => rfl
  | .str s, _ => rfl
  | .int n, h => simp [normal, h (digits n) (by simp [literals])]
  | .decimal l, h => simp [normal, h l (by simp [literals])]
  | .arr items, h =>
      simp only [normal]
      rw [normalItems_normalItems items h]
  | .obj members, h =>
      simp only [normal]
      rw [normalMembers_eq f le (sortMembers _ _), ← sortMembers_onValues, ← lastWins_onValues,
        sort_lastWins_absorb, ← normalMembers_eq f le (normalMembers g le' members),
        normalMembers_normalMembers members h]

theorem normalItems_normalItems [IsTrans _ le] [Std.Total le] [Std.Antisymm le]
    (items : List Json) (h : ∀ l ∈ literalsItems items, f (g l) = f l) :
    normalItems f le (normalItems g le' items) = normalItems f le items := by
  match items, h with
  | [], _ => rfl
  | j :: rest, h =>
      simp only [literalsItems, List.mem_append] at h
      simp only [normalItems]
      rw [normal_normal j fun l hl => h l (Or.inl hl),
        normalItems_normalItems rest fun l hl => h l (Or.inr hl)]

theorem normalMembers_normalMembers [IsTrans _ le] [Std.Total le] [Std.Antisymm le]
    (members : List (List Char × Json)) (h : ∀ l ∈ literalsMembers members, f (g l) = f l) :
    normalMembers f le (normalMembers g le' members) = normalMembers f le members := by
  match members, h with
  | [], _ => rfl
  | (k, j) :: rest, h =>
      simp only [literalsMembers, List.mem_append] at h
      simp only [normalMembers]
      rw [normal_normal j fun l hl => h l (Or.inl hl),
        normalMembers_normalMembers rest fun l hl => h l (Or.inr hl)]

end

end Absorb

section LiteralsNormal

variable {number : List Char → List Char} {le : List Char → List Char → Prop} [DecidableRel le]

theorem mem_literalsMembers {l : List Char} {members : List (List Char × Json)} :
    l ∈ literalsMembers members ↔ ∃ m ∈ members, l ∈ literals m.2 := by
  induction members with
  | nil => simp [literalsMembers]
  | cons m rest ih => simp [literalsMembers, ih]

mutual

/-- The literals of a normal form are rewritten ones. -/
theorem literals_normal (j : Json) {l : List Char} (h : l ∈ literals (normal number le j)) :
    ∃ l₀ ∈ literals j, l = number l₀ := by
  match j with
  | .null | .bool _ | .str _ => cases h
  | .int n => exact ⟨digits n, List.mem_singleton_self _, List.mem_singleton.mp h⟩
  | .decimal literal => exact ⟨literal, List.mem_singleton_self _, List.mem_singleton.mp h⟩
  | .arr items => exact literalsItems_normalItems items h
  | .obj members =>
      obtain ⟨m, hm, hl⟩ := mem_literalsMembers.mp h
      have hmem := mem_of_mem_lastWins ((sortMembers_perm le _).mem_iff.mp hm)
      exact literalsMembers_normalMembers members (mem_literalsMembers.mpr ⟨m, hmem, hl⟩)

theorem literalsItems_normalItems (items : List Json) {l : List Char}
    (h : l ∈ literalsItems (normalItems number le items)) :
    ∃ l₀ ∈ literalsItems items, l = number l₀ := by
  match items with
  | [] => cases h
  | j :: rest =>
      rcases List.mem_append.mp h with h | h
      · obtain ⟨l₀, hl₀, rfl⟩ := literals_normal j h
        exact ⟨l₀, List.mem_append_left _ hl₀, rfl⟩
      · obtain ⟨l₀, hl₀, rfl⟩ := literalsItems_normalItems rest h
        exact ⟨l₀, List.mem_append_right _ hl₀, rfl⟩

theorem literalsMembers_normalMembers (members : List (List Char × Json)) {l : List Char}
    (h : l ∈ literalsMembers (normalMembers number le members)) :
    ∃ l₀ ∈ literalsMembers members, l = number l₀ := by
  match members with
  | [] => cases h
  | (k, j) :: rest =>
      rcases List.mem_append.mp h with h | h
      · obtain ⟨l₀, hl₀, rfl⟩ := literals_normal j h
        exact ⟨l₀, List.mem_append_left _ hl₀, rfl⟩
      · obtain ⟨l₀, hl₀, rfl⟩ := literalsMembers_normalMembers rest h
        exact ⟨l₀, List.mem_append_right _ hl₀, rfl⟩

end

end LiteralsNormal

/-! ## Encodings with literals -/

mutual

/-- Every number of the value is a literal. -/
def Written : Json → Prop
  | .int _ => False
  | .decimal literal => literal ≠ [] ∧ ∀ c ∈ literal, isNumberChar c = true
  | .arr items => WrittenItems items
  | .obj members => WrittenMembers members
  | _ => True

def WrittenItems : List Json → Prop
  | [] => True
  | j :: rest => Written j ∧ WrittenItems rest

def WrittenMembers : List (List Char × Json) → Prop
  | [] => True
  | (_, j) :: rest => Written j ∧ WrittenMembers rest

end

theorem writtenMembers_iff {members : List (List Char × Json)} :
    WrittenMembers members ↔ ∀ m ∈ members, Written m.2 := by
  induction members with
  | nil => simp [WrittenMembers]
  | cons m rest ih => simp [WrittenMembers, ih]

section WrittenNormal

variable {number : List Char → List Char} {le : List Char → List Char → Prop} [DecidableRel le]

mutual

theorem written_normal (hn : ∀ l, number l ≠ [] ∧ ∀ c ∈ number l, isNumberChar c = true) (j : Json) :
    Written (normal number le j) := by
  match j with
  | .null | .bool _ | .str _ => trivial
  | .int n => exact hn (digits n)
  | .decimal l => exact hn l
  | .arr items => exact writtenItems_normalItems hn items
  | .obj members =>
      refine writtenMembers_iff.mpr fun m hm => ?_
      have hmem := mem_of_mem_lastWins ((sortMembers_perm le _).mem_iff.mp hm)
      exact writtenMembers_iff.mp (writtenMembers_normalMembers hn members) m hmem

theorem writtenItems_normalItems
    (hn : ∀ l, number l ≠ [] ∧ ∀ c ∈ number l, isNumberChar c = true) (items : List Json) :
    WrittenItems (normalItems number le items) := by
  match items with
  | [] => trivial
  | j :: rest => exact ⟨written_normal hn j, writtenItems_normalItems hn rest⟩

theorem writtenMembers_normalMembers
    (hn : ∀ l, number l ≠ [] ∧ ∀ c ∈ number l, isNumberChar c = true)
    (members : List (List Char × Json)) : WrittenMembers (normalMembers number le members) := by
  match members with
  | [] => trivial
  | (k, j) :: rest => exact ⟨written_normal hn j, writtenMembers_normalMembers hn rest⟩

end

end WrittenNormal

def tag : Json → ℕ
  | .null => 0
  | .bool _ => 1
  | .int _ => 2
  | .decimal _ => 3
  | .str _ => 4
  | .arr _ => 5
  | .obj _ => 6

/-- The constructor of a value, from the first character of its encoding. -/
def tagOf (c : Char) : ℕ :=
  if isNumberChar c then 3
  else if c = 'n' then 0
  else if c = 't' || c = 'f' then 1
  else if c = '"' then 4
  else if c = '[' then 5
  else if c = '\x7b' then 6
  else 7

theorem exists_cons_written {j : Json} (h : Written j) :
    ∃ c s, render j = c :: s ∧ tagOf c = tag j := by
  match j, h with
  | .null, _ => exact ⟨_, _, rfl, rfl⟩
  | .bool true, _ => exact ⟨_, _, rfl, rfl⟩
  | .bool false, _ => exact ⟨_, _, rfl, rfl⟩
  | .decimal [], h => exact absurd rfl h.1
  | .decimal (c :: s), h => exact ⟨c, s, rfl, if_pos (h.2 c List.mem_cons_self)⟩
  | .str s, _ => exact ⟨_, _, rfl, rfl⟩
  | .arr items, _ => exact ⟨_, _, rfl, rfl⟩
  | .obj members, _ => exact ⟨_, _, rfl, rfl⟩

theorem tag_eq {j j' : Json} (hj : Written j) (hj' : Written j') {rest rest' : List Char}
    (h : render j ++ rest = render j' ++ rest') : tag j = tag j' := by
  obtain ⟨c, s, hc, htag⟩ := exists_cons_written hj
  obtain ⟨c', s', hc', htag'⟩ := exists_cons_written hj'
  rw [hc, hc', List.cons_append, List.cons_append] at h
  rw [← htag, ← htag', (List.cons.inj h).1]

theorem decimal_append_inj {l l' rest rest' : List Char} (hl : ∀ c ∈ l, isNumberChar c = true)
    (hl' : ∀ c ∈ l', isNumberChar c = true) (hrest : Ends rest) (hrest' : Ends rest')
    (h : l ++ rest = l' ++ rest') : l = l' ∧ rest = rest' := by
  obtain ⟨htake, hdrop⟩ := takeWhile_append hl hrest
  obtain ⟨htake', hdrop'⟩ := takeWhile_append hl' hrest'
  rw [h] at htake hdrop
  exact ⟨htake.symm.trans htake', hdrop.symm.trans hdrop'⟩

theorem quote_append_inj {s s' rest rest' : List Char}
    (h : quote s ++ rest = quote s' ++ rest') : s = s' ∧ rest = rest' := by
  have htail : s.flatMap escape ++ '"' :: rest = s'.flatMap escape ++ '"' :: rest' := by
    simpa [quote] using h
  have hread := congrArg parseString htail
  rw [parseString_flatMap_escape, parseString_flatMap_escape] at hread
  exact Prod.mk.inj (Option.some.inj hread)

theorem render_append_ne {j : Json} (hj : Written j) {c : Char} (hc : tagOf c = 7)
    (rest rest' : List Char) : render j ++ rest ≠ c :: rest' := by
  intro h
  obtain ⟨d, s, hd, htag⟩ := exists_cons_written hj
  rw [hd, List.cons_append] at h
  rw [(List.cons.inj h).1, hc] at htag
  cases j <;> cases htag

/-- What stands between an item and the end of its list. -/
def continued (text : List Char) : List Char := if text = [] then [] else ',' :: text

theorem renderItems_cons (j : Json) (items : List Json) (hi : WrittenItems items) :
    renderItems (j :: items) = render j ++ continued (renderItems items) := by
  cases items with
  | nil => simp [renderItems, continued]
  | cons j' items =>
      obtain ⟨c, s, hc, -⟩ := exists_cons_written hi.1
      have hne : renderItems (j' :: items) ≠ [] := by
        cases items <;> simp [renderItems, hc]
      simp [renderItems, continued, hne]

theorem renderMembers_cons (k : List Char) (j : Json) (members : List (List Char × Json)) :
    renderMembers ((k, j) :: members) =
      quote k ++ ':' :: (render j ++ continued (renderMembers members)) := by
  cases members with
  | nil => simp [renderMembers, continued]
  | cons m members =>
      have hne : renderMembers (m :: members) ≠ [] := by
        cases members <;> simp [renderMembers, quote]
      simp [renderMembers, continued, hne]

theorem ends_continued {c : Char} (hc : isNumberChar c = false) (text rest : List Char) :
    Ends (continued text ++ c :: rest) := by
  unfold continued
  split
  · exact ends_cons hc
  · exact ends_cons (by decide)

/-- Two lists end at the same place, or both go on. -/
theorem continued_append_inj {c : Char} (hc : c ≠ ',') {text text' rest rest' : List Char}
    (h : continued text ++ c :: rest = continued text' ++ c :: rest') :
    text ++ c :: rest = text' ++ c :: rest' := by
  unfold continued at h
  split at h <;> split at h
  · simp_all
  · simp at h
    exact absurd h.1 hc
  · simp at h
    exact absurd h.1.symm hc
  · simpa using h

mutual

/-- Neither of two encodings goes on where the other one ends. -/
theorem render_append_inj (j j' : Json) (hj : Written j) (hj' : Written j') (rest rest' : List Char)
    (hrest : Ends rest) (hrest' : Ends rest') (h : render j ++ rest = render j' ++ rest') :
    j = j' ∧ rest = rest' := by
  have htag := tag_eq hj hj' h
  match j, j', hj, hj', htag with
  | .null, .null, _, _, _ => exact ⟨rfl, List.append_cancel_left h⟩
  | .bool b, .bool b', _, _, _ =>
      cases b <;> cases b' <;> simp_all [render]
  | .decimal l, .decimal l', hl, hl', _ =>
      obtain ⟨rfl, hrest⟩ := decimal_append_inj hl.2 hl'.2 hrest hrest' h
      exact ⟨rfl, hrest⟩
  | .str s, .str s', _, _, _ =>
      obtain ⟨rfl, hrest⟩ := quote_append_inj h
      exact ⟨rfl, hrest⟩
  | .arr items, .arr items', hi, hi', _ =>
      have hitems : renderItems items ++ ']' :: rest = renderItems items' ++ ']' :: rest' := by
        simpa [render] using h
      obtain ⟨rfl, hrest⟩ := renderItems_append_inj items items' hi hi' rest rest' hitems
      exact ⟨rfl, hrest⟩
  | .obj members, .obj members', hm, hm', _ =>
      have hmembers : renderMembers members ++ '\x7d' :: rest =
          renderMembers members' ++ '\x7d' :: rest' := by
        simpa [render] using h
      obtain ⟨rfl, hrest⟩ := renderMembers_append_inj members members' hm hm' rest rest' hmembers
      exact ⟨rfl, hrest⟩

theorem renderItems_append_inj (items items' : List Json) (hi : WrittenItems items)
    (hi' : WrittenItems items') (rest rest' : List Char)
    (h : renderItems items ++ ']' :: rest = renderItems items' ++ ']' :: rest') :
    items = items' ∧ rest = rest' := by
  match items, items', hi, hi' with
  | [], [], _, _ => exact ⟨rfl, (List.cons.inj h).2⟩
  | [], j' :: items', _, hi' =>
      rw [renderItems_cons j' items' hi'.2, List.append_assoc] at h
      exact absurd h.symm (render_append_ne hi'.1 rfl _ _)
  | j :: items, [], hi, _ =>
      rw [renderItems_cons j items hi.2, List.append_assoc] at h
      exact absurd h (render_append_ne hi.1 rfl _ _)
  | j :: items, j' :: items', hi, hi' =>
      rw [renderItems_cons j items hi.2, renderItems_cons j' items' hi'.2, List.append_assoc,
        List.append_assoc] at h
      obtain ⟨rfl, htail⟩ := render_append_inj j j' hi.1 hi'.1 _ _
        (ends_continued (by decide) _ _) (ends_continued (by decide) _ _) h
      obtain ⟨rfl, hrest⟩ := renderItems_append_inj items items' hi.2 hi'.2 rest rest'
        (continued_append_inj (by decide) htail)
      exact ⟨rfl, hrest⟩

theorem renderMembers_append_inj (members members' : List (List Char × Json))
    (hm : WrittenMembers members) (hm' : WrittenMembers members') (rest rest' : List Char)
    (h : renderMembers members ++ '\x7d' :: rest = renderMembers members' ++ '\x7d' :: rest') :
    members = members' ∧ rest = rest' := by
  match members, members', hm, hm' with
  | [], [], _, _ => exact ⟨rfl, (List.cons.inj h).2⟩
  | [], (k', j') :: members', _, _ =>
      rw [renderMembers_cons] at h
      exact absurd (List.cons.inj h).1 (by decide)
  | (k, j) :: members, [], _, _ =>
      rw [renderMembers_cons] at h
      exact absurd (List.cons.inj h).1 (by decide)
  | (k, j) :: members, (k', j') :: members', hm, hm' =>
      rw [renderMembers_cons, renderMembers_cons, List.append_assoc, List.append_assoc,
        List.cons_append, List.cons_append] at h
      obtain ⟨rfl, hcolon⟩ := quote_append_inj h
      rw [List.append_assoc, List.append_assoc] at hcolon
      obtain ⟨rfl, htail⟩ := render_append_inj j j' hm.1 hm'.1 _ _
        (ends_continued (by decide) _ _) (ends_continued (by decide) _ _) (List.cons.inj hcolon).2
      obtain ⟨rfl, hrest⟩ := renderMembers_append_inj members members' hm.2 hm'.2 rest rest'
        (continued_append_inj (by decide) htail)
      exact ⟨rfl, hrest⟩

end

end RestFleet.Json
