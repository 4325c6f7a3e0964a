import Mathlib.Data.Nat.Bitwise
import Mathlib.Tactic.Ring
import RestFleet.Model.Agent.Schedule
import RestFleet.Verification.Strings

/-! # What a cron field stands for

After a step close to the largest `int` the loop of `parseField` comes back below the start of the
range and sets bits that the field does not denote. -/

namespace RestFleet.Agent.Schedule

variable {low high first last step : ℤ}

/-! ### The grammar -/

/-- A list item without its step: a star, a value or a range, with its first and last value. -/
inductive Reads (low high : ℤ) : Text → ℤ → ℤ → Prop
  | star : Reads low high ['*'] low high
  | value {text : Text} {v : ℤ} : '-' ∉ text → text.atoi = some v → low ≤ v → v ≤ high →
      Reads low high text v v
  | range {left right : Text} {first last : ℤ} : '-' ∉ left → left.atoi = some first →
      right.atoi = some last → low ≤ first → last ≤ high → first ≤ last →
      Reads low high (left ++ '-' :: right) first last

/-- A list item without its step, and the step. -/
inductive Steps : Text → Text → ℤ → Prop
  | one {item : Text} : '/' ∉ item → Steps item item 1
  | step {base raw : Text} {step : ℤ} : '/' ∉ base → raw.atoi = some step → 1 ≤ step →
      Steps (base ++ '/' :: raw) base step

/-- A list item stands for the values `first`, `first + step`, … up to `last`. -/
def Item (low high : ℤ) (item : Text) (first last step : ℤ) : Prop :=
  ∃ base, Steps item base step ∧ Reads low high base first last

/-- The values of a range that are not above its end. -/
def Within (first last step v : ℤ) : Prop := v ≤ last ∧ ∃ k : ℕ, v = first + k * step

/-- The values that a field denotes: the union over its items. -/
def Denotes (low high : ℤ) (part : Text) (v : ℤ) : Prop :=
  ∃ item ∈ part.split ',', ∃ first last step,
    Item low high item first last step ∧ Within first last step v

theorem parseStep_iff {item base : Text} : parseStep item = some (base, step) ↔ Steps item base step := by
  constructor
  · intro h
    unfold parseStep at h
    split at h
    case h_1 front raw hcut =>
      obtain ⟨hfront, rfl⟩ := Text.cut_eq_some_iff.mp hcut
      split at h
      case h_1 parsed hparsed =>
        split at h
        case isTrue => cases h
        case isFalse hpos =>
          cases h
          exact .step hfront hparsed (by omega)
      case h_2 => cases h
    case h_2 hcut =>
      cases h
      exact .one (Text.cut_eq_none_iff.mp hcut)
  · rintro (hitem | ⟨hbase, hraw, hpos⟩)
    · rw [parseStep, Text.cut_eq_none hitem]
    · simp only [parseStep, Text.cut_append _ hbase, hraw]
      rw [if_neg (by omega)]

theorem star_atoi : Text.atoi ['*'] = none := rfl

theorem parseRange_iff {base : Text} :
    parseRange base low high = some (first, last) ↔ Reads low high base first last := by
  constructor
  · intro h
    unfold parseRange at h
    split at h
    case isTrue hstar =>
      cases h
      exact hstar ▸ .star
    case isFalse hstar =>
      split at h
      case h_1 left right hcut =>
        obtain ⟨hleft, rfl⟩ := Text.cut_eq_some_iff.mp hcut
        split at h
        case h_1 a b ha hb =>
          split at h
          case isTrue => cases h
          case isFalse hbounds =>
            cases h
            simp only [Bool.or_eq_true, decide_eq_true_eq, not_or, not_lt] at hbounds
            exact .range hleft ha hb (by omega) (by omega) (by omega)
        case h_2 => cases h
      case h_2 hcut =>
        split at h
        case h_1 v hv =>
          split at h
          case isTrue => cases h
          case isFalse hbounds =>
            cases h
            simp only [Bool.or_eq_true, decide_eq_true_eq, not_or] at hbounds
            exact .value (Text.cut_eq_none_iff.mp hcut) hv (by omega) (by omega)
        case h_2 => cases h
  · rintro (_ | ⟨hdash, hv, hlow, hhigh⟩ | ⟨hleft, ha, hb, hlow, hhigh, hle⟩)
    · rfl
    · have hstar : base ≠ ['*'] := by
        rintro rfl
        rw [star_atoi] at hv
        cases hv
      have hbounds : ¬(first < low ∨ high < first) := by omega
      simp [parseRange, hstar, Text.cut_eq_none hdash, hv, hbounds]
    · rename_i left right
      have hstar : left ++ '-' :: right ≠ ['*'] := by
        cases left <;> simp
      have hbounds : ¬((first < low ∨ high < last) ∨ last < first) := by omega
      simp [parseRange, hstar, Text.cut_append _ hleft, ha, hb, hbounds]

/-! ### The loop -/

/-- A run of the loop from a value: the values that it takes until one is above `last`. -/
inductive Loop (last step : ℤ) : ℤ → List ℤ → Prop
  | done {v : ℤ} : last < v → Loop last step v []
  | next {v : ℤ} {values : List ℤ} : v ≤ last → Loop last step (addInt v step) values →
      Loop last step v (v :: values)

theorem testBit_mark {v : ℤ} {mask i : ℕ} :
    (if v < low then mask else mask ||| 1 <<< (v - low).toNat).testBit i = true ↔
      mask.testBit i = true ∨ low + i = v := by
  split
  case isTrue hlt =>
    have hne : ¬low + i = v := by omega
    simp [hne]
  case isFalse hle =>
    have hbit : (v - low).toNat = i ↔ low + i = v := by omega
    rw [Nat.testBit_or, Nat.one_shiftLeft, Nat.testBit_two_pow, Bool.or_eq_true, decide_eq_true_eq,
      hbit]

/-- The model of the loop sets exactly the bits of the values that a run takes. -/
theorem testBit_setBits {v : ℤ} {values : List ℤ} (h : Loop last step v values) {n : ℕ}
    (hn : values.length ≤ n) (mask i : ℕ) :
    (setBits low last step n v mask).testBit i = true ↔
      mask.testBit i = true ∨ low + i ∈ values := by
  induction h generalizing n mask with
  | done hlt =>
      cases n with
      | zero => simp [setBits]
      | succ n => rw [setBits, if_neg (by omega)]; simp
  | @next v values hle _ ih =>
      cases n with
      | zero => cases hn
      | succ n =>
          rw [setBits, if_pos hle, ih (by simpa using hn), testBit_mark, List.mem_cons, or_assoc]

theorem addInt_of_lt {a b : ℤ} (hlow : -2 ^ 63 ≤ a + b) (hhigh : a + b < 2 ^ 63) :
    addInt a b = a + b := by
  unfold addInt
  omega

theorem addInt_of_le {a b : ℤ} (hlow : 2 ^ 63 ≤ a + b) (hhigh : a + b < 2 ^ 64) :
    addInt a b = a + b - 2 ^ 64 := by
  unfold addInt
  omega

theorem le_succ_mul (j : ℕ) {d : ℤ} (hd : 0 ≤ d) : d ≤ ((j : ℤ) + 1) * d := by
  rw [Int.add_mul, Int.one_mul]
  exact Int.le_add_of_nonneg_left (Int.mul_nonneg (Int.natCast_nonneg j) hd)

/-- Steps that cannot overflow: the loop takes the values of the range. -/
theorem loop_steady (hstep : 1 ≤ step) (hsmall : step ≤ 2 ^ 63 - 64) (hlast : last < 64) {v : ℤ}
    (hv : 0 ≤ v) :
    ∃ values, Loop last step v values ∧ values.length ≤ (last + 1 - v).toNat ∧
      ∀ x, x ∈ values ↔ Within v last step x := by
  induction hn : (last + 1 - v).toNat using Nat.strong_induction_on generalizing v with
  | _ n ih =>
      rcases lt_or_ge last v with hlt | hle
      · refine ⟨[], .done hlt, by simp, fun x => ⟨nofun, ?_⟩⟩
        rintro ⟨hx, k, rfl⟩
        have := Int.mul_nonneg (Int.natCast_nonneg k) (by omega : 0 ≤ step)
        omega
      · have hadd : addInt v step = v + step := addInt_of_lt (by omega) (by omega)
        obtain ⟨values, hloop, hlength, hvalues⟩ :=
          ih (last + 1 - (v + step)).toNat (by omega) (by omega) rfl
        refine ⟨v :: values, .next hle (hadd ▸ hloop), by simp; omega, fun x => ?_⟩
        rw [List.mem_cons, hvalues]
        constructor
        · rintro (rfl | ⟨hx, k, rfl⟩)
          · exact ⟨hle, 0, by simp⟩
          · exact ⟨hx, k + 1, by push_cast; ring⟩
        · rintro ⟨hx, k, rfl⟩
          cases k with
          | zero => exact .inl (by simp)
          | succ k => exact .inr ⟨hx, k, by push_cast; ring⟩

/-- A step of `2 ^ 63 - k` overflows from every value that is not below `k`. Two such steps lead
back to a value that is smaller by `2 * k`. -/
theorem loop_wrapping {k : ℤ} (hk : 1 ≤ k) (hsmall : k < 64) (hlast : last < 64) {v : ℤ}
    (hv : -k ≤ v) (hle : v ≤ last) :
    ∃ values, Loop last (2 ^ 63 - k) v values ∧ values.length ≤ (v + k).toNat + 2 ∧
      ∀ x, 0 ≤ x → (x ∈ values ↔ ∃ j : ℕ, x = v - j * (2 * k)) := by
  induction hn : (v + k).toNat using Nat.strong_induction_on generalizing v with
  | _ n ih =>
      rcases lt_or_ge v k with hlt | hge
      · have hadd : addInt v (2 ^ 63 - k) = v + (2 ^ 63 - k) := addInt_of_lt (by omega) (by omega)
        refine ⟨[v], .next hle (.done (by omega)), by simp, fun x hx => ?_⟩
        rw [List.mem_singleton]
        constructor
        · rintro rfl
          exact ⟨0, by simp⟩
        · rintro ⟨j, rfl⟩
          cases j with
          | zero => simp
          | succ j =>
              have := le_succ_mul j (by omega : 0 ≤ 2 * k)
              push_cast at hx
              omega
      · have hwrap : addInt v (2 ^ 63 - k) = v - 2 ^ 63 - k :=
          (addInt_of_le (by omega) (by omega)).trans (by ring)
        have hback : addInt (v - 2 ^ 63 - k) (2 ^ 63 - k) = v - 2 * k :=
          (addInt_of_lt (by omega) (by omega)).trans (by ring)
        obtain ⟨values, hloop, hlength, hvalues⟩ :=
          ih (v - 2 * k + k).toNat (by omega) (by omega) (by omega) rfl
        have hsecond : Loop last (2 ^ 63 - k) (v - 2 ^ 63 - k) ((v - 2 ^ 63 - k) :: values) :=
          .next (by omega) (hback ▸ hloop)
        refine ⟨v :: (v - 2 ^ 63 - k) :: values, .next hle (by rw [hwrap]; exact hsecond),
          by simp; omega, fun x hx => ?_⟩
        rw [List.mem_cons, List.mem_cons, hvalues x hx]
        constructor
        · rintro (rfl | rfl | ⟨j, rfl⟩)
          · exact ⟨0, by simp⟩
          · omega
          · exact ⟨j + 1, by push_cast; ring⟩
        · rintro ⟨j, rfl⟩
          cases j with
          | zero => exact .inl (by simp)
          | succ j => exact .inr (.inr ⟨j, by push_cast; ring⟩)

/-! ### Items and fields -/

theorem atoi_lt {text : Text} {v : ℤ} (h : text.atoi = some v) : v < 2 ^ 63 := by
  simp only [Text.atoi] at h
  split at h <;>
  · obtain ⟨-, hvalue⟩ := Option.ite_none_left_eq_some.mp h
    obtain ⟨hrange, hv⟩ := Option.ite_none_right_eq_some.mp hvalue
    cases hv
    simp only [isInt64, Bool.and_eq_true, decide_eq_true_eq] at hrange
    exact hrange.2

theorem Steps.bounds {item base : Text} (h : Steps item base step) : 1 ≤ step ∧ step < 2 ^ 63 := by
  cases h with
  | one => omega
  | step _ hraw hpos => exact ⟨hpos, atoi_lt hraw⟩

theorem Reads.last_le {base : Text} (h : Reads low high base first last) : last ≤ high := by
  cases h with
  | star => exact le_rfl
  | value _ _ _ hhigh => exact hhigh
  | range _ _ _ _ hhigh => exact hhigh

theorem Reads.low_le {base : Text} (h : Reads low high base first last) : low ≤ first := by
  cases h with
  | star => exact le_rfl
  | value _ _ hlow => exact hlow
  | range _ _ _ hlow => exact hlow

theorem Reads.le_last {base : Text} (h : Reads low high base first last) :
    first ≤ last ∨ first = low := by
  cases h with
  | star => exact .inr rfl
  | value => exact .inl le_rfl
  | range _ _ _ _ _ hle => exact .inl hle

/-- The values that an overflowing step comes back to. -/
def Stray (low first step v : ℤ) : Prop :=
  low ≤ v ∧ ∃ j : ℕ, v = first - (j + 1) * (2 ^ 64 - 2 * step)

theorem Stray.lt {v : ℤ} (h : Stray low first step v) (hstep : step < 2 ^ 63) : v < first := by
  obtain ⟨-, j, rfl⟩ := h
  have := le_succ_mul j (by omega : 0 ≤ 2 ^ 64 - 2 * step)
  omega

/-- The loop of an item ends. It takes the values of the item and, if its step overflows, the
values that it comes back to. -/
theorem loop_of_item (hlow : 0 ≤ low) (hhigh : high < 64) {item : Text}
    (h : Item low high item first last step) :
    ∃ values, Loop last step first values ∧ values.length ≤ maxValues ∧
      ∀ x, low ≤ x → (x ∈ values ↔ Within first last step x ∨ Stray low first step x) := by
  obtain ⟨base, hsteps, hreads⟩ := h
  obtain ⟨hpos, hmax⟩ := hsteps.bounds
  have hfirst := hreads.low_le
  have hlast := hreads.last_le
  have hempty : ∀ x, last < first → ¬Within first last step x := by
    rintro x hlt ⟨hx, k, rfl⟩
    have := Int.mul_nonneg (Int.natCast_nonneg k) (by omega : 0 ≤ step)
    omega
  rcases lt_or_ge last first with hlt | hle
  · -- the star of bounds without values
    have hstar : first = low := hreads.le_last.resolve_left (by omega)
    refine ⟨[], .done hlt, by simp, fun x hx => ⟨nofun, ?_⟩⟩
    rintro (hwithin | hstray)
    · exact absurd hwithin (hempty x hlt)
    · have := hstray.lt hmax
      omega
  rcases le_or_gt step (2 ^ 63 - 64) with hsmall | hlarge
  · obtain ⟨values, hloop, hlength, hvalues⟩ :=
      loop_steady hpos hsmall (by omega : last < 64) (hlow.trans hfirst)
    refine ⟨values, hloop, hlength.trans (by unfold maxValues; omega), fun x hx => ?_⟩
    rw [hvalues]
    refine ⟨.inl, fun h => h.resolve_right ?_⟩
    rintro ⟨-, j, rfl⟩
    have := le_succ_mul j (by omega : 0 ≤ 2 ^ 64 - 2 * step)
    omega
  · obtain ⟨k, rfl⟩ : ∃ k, step = 2 ^ 63 - k := ⟨2 ^ 63 - step, by ring⟩
    obtain ⟨values, hloop, hlength, hvalues⟩ :=
      loop_wrapping (k := k) (by omega) (by omega) (by omega : last < 64) (by omega) hle
    refine ⟨values, hloop, hlength.trans (by unfold maxValues; omega), fun x hx => ?_⟩
    rw [hvalues x (hlow.trans hx)]
    constructor
    · rintro ⟨j, rfl⟩
      cases j with
      | zero => exact .inl ⟨by simpa using hle, 0, by simp⟩
      | succ j => exact .inr ⟨hx, j, by push_cast; ring⟩
    · rintro (⟨hx, j, rfl⟩ | ⟨-, j, rfl⟩)
      · cases j with
        | zero => exact ⟨0, by simp⟩
        | succ j =>
            have := le_succ_mul j (by omega : 0 ≤ 2 ^ 63 - k)
            rw [Nat.cast_succ] at hx
            omega
      · exact ⟨j + 1, by push_cast; ring⟩

theorem parseItem_bits (hlow : 0 ≤ low) (hhigh : high < 64) {mask mask' : ℕ} {item : Text}
    (h : parseItem low high mask item = some mask') :
    ∃ first last step, Item low high item first last step ∧
      ∀ i : ℕ, mask'.testBit i = true ↔ mask.testBit i = true ∨
        Within first last step (low + i) ∨ Stray low first step (low + i) := by
  unfold parseItem at h
  split at h
  case isTrue => cases h
  case isFalse =>
    obtain ⟨⟨base, step⟩, hstep, h⟩ := Option.bind_eq_some_iff.mp h
    obtain ⟨⟨first, last⟩, hrange, h⟩ := Option.bind_eq_some_iff.mp h
    cases h
    have hitem : Item low high item first last step :=
      ⟨base, parseStep_iff.mp hstep, parseRange_iff.mp hrange⟩
    obtain ⟨values, hloop, hlength, hvalues⟩ := loop_of_item hlow hhigh hitem
    refine ⟨first, last, step, hitem, fun i => ?_⟩
    rw [testBit_setBits hloop hlength, hvalues (low + i) (by omega)]

theorem Item.unique {item : Text} {first' last' step' : ℤ} (h : Item low high item first last step)
    (h' : Item low high item first' last' step') : first = first' ∧ last = last' ∧ step = step' := by
  obtain ⟨base, hsteps, hreads⟩ := h
  obtain ⟨base', hsteps', hreads'⟩ := h'
  obtain ⟨rfl, rfl⟩ := Prod.mk.inj (Option.some.inj
    ((parseStep_iff.mpr hsteps).symm.trans (parseStep_iff.mpr hsteps')))
  obtain ⟨rfl, rfl⟩ := Prod.mk.inj (Option.some.inj
    ((parseRange_iff.mpr hreads).symm.trans (parseRange_iff.mpr hreads')))
  exact ⟨rfl, rfl, rfl⟩

/-- The values that some step of a field comes back to. -/
def Strays (low high : ℤ) (part : Text) (v : ℤ) : Prop :=
  ∃ item ∈ part.split ',', ∃ first last step,
    Item low high item first last step ∧ Stray low first step v

theorem parseItems_bits (hlow : 0 ≤ low) (hhigh : high < 64) {items : List Text} {mask mask' : ℕ}
    (h : items.foldlM (parseItem low high) mask = some mask') :
    (∀ item ∈ items, ∃ first last step, Item low high item first last step) ∧
      ∀ i : ℕ, mask'.testBit i = true ↔ mask.testBit i = true ∨
        ∃ item ∈ items, ∃ first last step, Item low high item first last step ∧
          (Within first last step (low + i) ∨ Stray low first step (low + i)) := by
  induction items generalizing mask with
  | nil =>
      cases h
      exact ⟨nofun, by simp⟩
  | cons item items ih =>
      rw [List.foldlM_cons] at h
      obtain ⟨next, hitem, hrest⟩ := Option.bind_eq_some_iff.mp h
      obtain ⟨first, last, step, hreads, hbits⟩ := parseItem_bits hlow hhigh hitem
      obtain ⟨hitems, hrestBits⟩ := ih hrest
      refine ⟨List.forall_mem_cons.mpr ⟨⟨first, last, step, hreads⟩, hitems⟩, fun i => ?_⟩
      rw [hrestBits, hbits, List.exists_mem_cons_iff, or_assoc]
      refine or_congr_right (or_congr_left ?_)
      constructor
      · intro hset
        exact ⟨first, last, step, hreads, hset⟩
      · rintro ⟨first', last', step', hreads', hset⟩
        obtain ⟨rfl, rfl, rfl⟩ := hreads.unique hreads'
        exact hset

/-- The mask of an accepted field: its values, and those that overflowing steps come back to. -/
theorem parseField_bits (hlow : 0 ≤ low) (hhigh : high < 64) {part : Text} {mask : ℕ}
    {wildcard : Bool} (h : parseField part (low, high) = some (mask, wildcard)) (i : ℕ) :
    mask.testBit i = true ↔ Denotes low high part (low + i) ∨ Strays low high part (low + i) := by
  obtain ⟨mask', hitems, h⟩ := Option.bind_eq_some_iff.mp h
  cases h
  rw [(parseItems_bits hlow hhigh hitems).2, Nat.zero_testBit, Denotes, Strays]
  simp only [Bool.false_eq_true, false_or, and_or_left, exists_or]

/-- The loops of an accepted field end, and its mask has exactly the bits of the values that the
field denotes if and only if every value that an overflowing step comes back to is one of them. -/
theorem parseField_exact_iff (hlow : 0 ≤ low) (hhigh : high < 64) {part : Text} {mask : ℕ}
    {wildcard : Bool} (h : parseField part (low, high) = some (mask, wildcard)) :
    (∀ item ∈ part.split ',', ∃ first last step, Item low high item first last step ∧
        ∃ values, Loop last step first values ∧ values.length ≤ maxValues) ∧
      ((∀ i : ℕ, mask.testBit i = true ↔ Denotes low high part (low + i)) ↔
        ∀ v, Strays low high part v → Denotes low high part v) := by
  constructor
  · intro item hitem
    obtain ⟨mask', hitems, -⟩ := Option.bind_eq_some_iff.mp h
    obtain ⟨first, last, step, hreads⟩ := (parseItems_bits hlow hhigh hitems).1 item hitem
    obtain ⟨values, hloop, hlength, -⟩ := loop_of_item hlow hhigh hreads
    exact ⟨first, last, step, hreads, values, hloop, hlength⟩
  · constructor
    · rintro hexact v hstray
      obtain ⟨item, hitem, first, last, step, hreads, hv, hj⟩ := hstray
      obtain ⟨i, rfl⟩ : ∃ i : ℕ, v = low + i := ⟨(v - low).toNat, by omega⟩
      exact (hexact i).mp ((parseField_bits hlow hhigh h i).mpr
        (.inr ⟨item, hitem, first, last, step, hreads, hv, hj⟩))
    · intro hcovered i
      rw [parseField_bits hlow hhigh h]
      exact ⟨fun hset => hset.elim id (hcovered _), .inl⟩

theorem parseField_exact_iff_minutes :
    parseField "10-30/10".toList (0, 59) = some (2 ^ 10 + 2 ^ 20 + 2 ^ 30, false) ∧
      ((∀ i : ℕ, (2 ^ 10 + 2 ^ 20 + 2 ^ 30 : ℕ).testBit i = true ↔
          Denotes 0 59 "10-30/10".toList (0 + i)) ↔
        ∀ v, Strays 0 59 "10-30/10".toList v → Denotes 0 59 "10-30/10".toList v) := by
  have h : parseField "10-30/10".toList (0, 59) = some (2 ^ 10 + 2 ^ 20 + 2 ^ 30, false) := by
    decide +kernel
  exact ⟨h, (parseField_exact_iff (by decide) (by decide) h).2⟩

/-- The largest step from minute 5 comes back to minutes 3 and 1. Both parsers accept the field. -/
theorem largest_step_sets_other_bits :
    Domain.validateCronField "5/9223372036854775807".toList 0 59 = true ∧
      ∃ mask, parseField "5/9223372036854775807".toList (0, 59) = some (mask, false) ∧
        mask.testBit 3 = true ∧ ¬Denotes 0 59 "5/9223372036854775807".toList 3 := by
  refine ⟨by decide +kernel, 42, by decide +kernel, by decide, ?_⟩
  rintro ⟨item, hitem, first, last, step, hreads, -, k, hk⟩
  have hsplit : Text.split ',' "5/9223372036854775807".toList = ["5/9223372036854775807".toList] := by
    decide +kernel
  rw [hsplit, List.mem_singleton] at hitem
  have hfive : Item 0 59 "5/9223372036854775807".toList 5 5 (2 ^ 63 - 1) :=
    ⟨"5".toList, parseStep_iff.mp (by decide +kernel), parseRange_iff.mp (by decide +kernel)⟩
  obtain ⟨rfl, -, rfl⟩ := (hitem ▸ hreads).unique hfive
  have := Int.mul_nonneg (Int.natCast_nonneg k) (by decide : (0 : ℤ) ≤ 2 ^ 63 - 1)
  omega

end RestFleet.Agent.Schedule
