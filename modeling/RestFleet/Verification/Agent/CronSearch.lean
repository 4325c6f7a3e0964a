import Mathlib.Order.Bounds.Basic
import RestFleet.Verification.Agent.CronField
import RestFleet.Verification.Agent.Schedule

/-! # Acceptance and search of cron expressions -/

namespace RestFleet.Agent.Schedule

open Domain (Zones)

/-! ### The two parsers -/

/-- `validateCronField` reads the step of an item as `parseField` does. -/
theorem validateCronPart_eq (low high : ℤ) (part : Text) :
    Domain.validateCronPart low high part =
      if part.isEmpty then false
      else match parseStep part with
        | none => false
        | some (base, step) =>
          if base = ['*'] then true
          else match base.cut '-' with
            | some (first, last) => match first.atoi, last.atoi with
              | some first, some last =>
                !(first < low || last > high || first > last) && !(step > last - first + 1)
              | _, _ => false
            | none => match base.atoi with
              | some value => !(value < low || value > high)
              | none => false := rfl

theorem parseItem_of_validateCronPart {low high : ℤ} {part : Text}
    (h : Domain.validateCronPart low high part = true) (mask : ℕ) :
    ∃ mask', parseItem low high mask part = some mask' := by
  rw [validateCronPart_eq] at h
  unfold parseItem
  split at h
  case isTrue => cases h
  case isFalse hpart =>
    rw [if_neg hpart]
    split at h
    case h_1 => cases h
    case h_2 base step hstep =>
      obtain ⟨⟨first, last⟩, hrange⟩ : ∃ r, parseRange base low high = some r := by
        unfold parseRange
        split at h
        case isTrue hstar => exact ⟨_, if_pos hstar⟩
        case isFalse hstar =>
          rw [if_neg hstar]
          split at h
          case h_1 hcut =>
            split at h
            case h_1 a b ha hb =>
              rw [Bool.and_eq_true, Bool.not_eq_true'] at h
              exact ⟨(a, b), by simp [hcut, ha, hb, h.1]⟩
            case h_2 => cases h
          case h_2 hcut =>
            split at h
            case h_1 v hv =>
              rw [Bool.not_eq_true'] at h
              exact ⟨(v, v), by simp [hcut, hv, h]⟩
            case h_2 => cases h
      exact ⟨_, by simp only [hstep, hrange, Option.bind_eq_bind, Option.bind_some]; rfl⟩

theorem parseField_of_validateCronField {low high : ℤ} {part : Text}
    (h : Domain.validateCronField part low high = true) :
    ∃ r, parseField part (low, high) = some r := by
  have hitems : ∀ items : List Text, items.all (Domain.validateCronPart low high) = true →
      ∀ mask, ∃ mask', items.foldlM (parseItem low high) mask = some mask' := by
    intro items
    induction items with
    | nil => exact fun _ mask => ⟨mask, rfl⟩
    | cons item items ih =>
        intro hall mask
        rw [List.all_cons, Bool.and_eq_true] at hall
        obtain ⟨next, hnext⟩ := parseItem_of_validateCronPart hall.1 mask
        obtain ⟨mask', hrest⟩ := ih hall.2 next
        exact ⟨mask', by rw [List.foldlM_cons, hnext]; exact hrest⟩
  obtain ⟨mask, hmask⟩ := hitems _ h 0
  exact ⟨_, by rw [parseField, hmask]; rfl⟩

/-- The five masks of a cron expression, and whether its day fields are restricted. -/
structure Parsed (cron : Text) (fields : Fields) (domRestricted dowRestricted : Bool) : Prop where
  parts : ∃ minute hour dom month dow, cron.fields = [minute, hour, dom, month, dow] ∧
    (∃ w, parseField minute (0, 59) = some (fields.minute, w)) ∧
    (∃ w, parseField hour (0, 23) = some (fields.hour, w)) ∧
    parseField dom (1, 31) = some (fields.dom, !domRestricted) ∧
    (∃ w, parseField month (1, 12) = some (fields.month, w)) ∧
    parseField dow (0, 6) = some (fields.dow, !dowRestricted) ∧
    (domRestricted = false ↔ dom = ['*']) ∧ (dowRestricted = false ↔ dow = ['*'])

theorem parseField_wildcard {part : Text} {bounds : ℤ × ℤ} {mask : ℕ} {wildcard : Bool}
    (h : parseField part bounds = some (mask, wildcard)) : wildcard = true ↔ part = ['*'] := by
  obtain ⟨mask', -, h⟩ := Option.bind_eq_some_iff.mp h
  cases h
  exact decide_eq_true_iff

/-- The checks of `New` beside the cron expression and the time zone. -/
def InRange (spec : Spec) : Prop :=
  0 ≤ spec.jitterSeconds ∧ spec.jitterSeconds ≤ 3600 ∧
    0 ≤ spec.misfireGraceSeconds ∧ spec.misfireGraceSeconds ≤ 86400

theorem eq_five {α : Type} {l : List α} (h : l.length = 5) : ∃ a b c d e, l = [a, b, c, d, e] := by
  match l, h with
  | [a, b, c, d, e], _ => exact ⟨a, b, c, d, e, rfl⟩

theorem mapM_parseField {a b c d e : Text} {m n o p q : ℕ × Bool} :
    ([a, b, c, d, e].zip fieldBounds).mapM (fun f => parseField f.1 f.2) = some [m, n, o, p, q] ↔
      parseField a (0, 59) = some m ∧ parseField b (0, 23) = some n ∧
        parseField c (1, 31) = some o ∧ parseField d (1, 12) = some p ∧
        parseField e (0, 6) = some q := by
  simp only [fieldBounds, List.zip_cons_cons, List.zip_nil_right, List.mapM_cons, List.mapM_nil,
    Option.bind_eq_bind, Option.bind_eq_some_iff, Option.pure_def, Option.some.injEq,
    List.cons.injEq]
  grind

theorem new_some {zones : Zones} {planID : UUID} {spec : Spec} {s : Scheduler}
    (h : new zones planID spec = some s) :
    zones spec.timezone = some s.loc ∧ s.planID = planID ∧ s.spec = spec ∧ InRange spec ∧
      Parsed spec.cron s.fields s.domRestricted s.dowRestricted := by
  unfold new at h
  split at h
  case h_1 => cases h
  case h_2 loc hloc =>
    obtain ⟨-, h⟩ := Option.ite_none_left_eq_some.mp h
    split at h
    case h_1 m n o p q hparsed =>
      obtain ⟨hlength, h⟩ := Option.ite_none_left_eq_some.mp h
      obtain ⟨hjitter, h⟩ := Option.ite_none_left_eq_some.mp h
      obtain ⟨hgrace, h⟩ := Option.ite_none_left_eq_some.mp h
      cases h
      obtain ⟨a, b, c, d, e, hfields⟩ := eq_five (not_not.mp hlength)
      rw [hfields, mapM_parseField] at hparsed
      obtain ⟨ha, hb, hc, hd, he⟩ := hparsed
      simp only [Bool.or_eq_true, decide_eq_true_eq, not_or, not_lt, gt_iff_lt] at hjitter hgrace
      refine ⟨hloc, rfl, rfl, ⟨hjitter.1, hjitter.2, hgrace.1, hgrace.2⟩,
        ⟨a, b, c, d, e, hfields, ⟨_, ha⟩, ⟨_, hb⟩, by simpa using hc, ⟨_, hd⟩, by simpa using he,
          ?_, ?_⟩⟩
      · simpa using parseField_wildcard hc
      · simpa using parseField_wildcard he
    case h_2 => cases h

/-- `New` accepts a validated cron expression in a valid time zone if the other values are in
range. -/
theorem exists_new {zones : Zones} {planID : UUID} {spec : Spec}
    (hcron : Domain.validateCron spec.cron = true)
    (hzone : Domain.validateTimezone zones spec.timezone = true) (hrange : InRange spec) :
    ∃ s, new zones planID spec = some s := by
  rw [Domain.validateTimezone, Bool.and_eq_true, Bool.not_eq_true', Option.isSome_iff_exists] at hzone
  obtain ⟨hname, loc, hloc⟩ := hzone
  rw [Domain.validateCron, Bool.and_eq_true, decide_eq_true_eq] at hcron
  obtain ⟨hlength, hall⟩ := hcron
  obtain ⟨a, b, c, d, e, hfields⟩ := eq_five hlength
  simp only [hfields, Domain.cronFields, List.zip_cons_cons, List.zip_nil_right, List.all_cons,
    List.all_nil, Bool.and_true, Bool.and_eq_true] at hall
  obtain ⟨m, hm⟩ := parseField_of_validateCronField hall.1
  obtain ⟨n, hn⟩ := parseField_of_validateCronField hall.2.1
  obtain ⟨o, ho⟩ := parseField_of_validateCronField hall.2.2.1
  obtain ⟨p, hp⟩ := parseField_of_validateCronField hall.2.2.2.1
  obtain ⟨q, hq⟩ := parseField_of_validateCronField hall.2.2.2.2
  have hparsed := mapM_parseField.mpr ⟨hm, hn, ho, hp, hq⟩
  obtain ⟨hjitter, hjitter', hgrace, hgrace'⟩ := hrange
  refine ⟨⟨planID, spec, loc, ⟨m.1, n.1, o.1, p.1, q.1⟩, !o.2, !q.2⟩, ?_⟩
  simp only [new, hloc, hname, hfields, hparsed, Bool.false_eq_true, if_false]
  rw [if_neg (by simp [fieldBounds]), if_neg (by simp [hjitter, hjitter']),
    if_neg (by simp [hgrace, hgrace'])]

/-! ### The search -/

namespace Scheduler

variable {s : Scheduler} {t c : ℤ}

/-- The local clock at an instant lies in the five masks. If both day fields are restricted, one
of them is enough. -/
def Allows (s : Scheduler) (t : ℤ) : Prop :=
  let seconds := t / second + s.loc (unixSecond t)
  let date := Calendar.date (seconds / 86400)
  let inDay := (seconds % 86400).toNat
  let dom := 1 ≤ date.day ∧ s.fields.dom.testBit (date.day - 1) = true
  let dow := s.fields.dow.testBit (Calendar.weekday (seconds / 86400)) = true
  s.fields.minute.testBit (inDay / 60 % 60) = true ∧ s.fields.hour.testBit (inDay / 3600) = true ∧
    (1 ≤ date.month ∧ s.fields.month.testBit (date.month - 1) = true) ∧
    if s.domRestricted = true ∧ s.dowRestricted = true then dom ∨ dow else dom ∧ dow

theorem matches_iff : s.matches t = true ↔ s.Allows t := by
  unfold «matches» Allows bit
  simp only [Nat.zero_le, decide_true, Bool.true_and, Nat.sub_zero]
  split
  case isTrue hmiss =>
    simp only [Bool.or_eq_true, Bool.not_eq_true', Bool.and_eq_false_iff, decide_eq_false_iff_not]
      at hmiss
    simp only [Bool.false_eq_true, false_iff]
    rintro ⟨hminute, hhour, ⟨hone, hmonth⟩, -⟩
    simp_all
  case isFalse hhit =>
    simp only [Bool.or_eq_true, Bool.not_eq_true', not_or, Bool.not_eq_false, Bool.and_eq_true,
      decide_eq_true_eq] at hhit
    obtain ⟨⟨hminute, hhour⟩, hmonth⟩ := hhit
    simp only [hminute, hhour, hmonth, Bool.and_eq_true, true_and]
    split <;> simp only [Bool.or_eq_true, Bool.and_eq_true, decide_eq_true_eq]

/-- The allowed minutes of the 366 days after an instant. -/
def Upcoming (s : Scheduler) (t c : ℤ) : Prop :=
  c % minute = 0 ∧ t < c ∧ c ≤ t + 366 * (24 * 60 * minute) ∧ s.Allows c

theorem upcoming_iff : s.Upcoming t c ↔ s.Slot c ∧ t < c ∧ c ≤ horizon t := by
  have hhorizon (hc : c % minute = 0) : c ≤ t + 366 * (24 * 60 * minute) ↔ c ≤ horizon t := by
    simp only [horizon, minute_eq, maxMinutesAhead] at *
    omega
  constructor
  · rintro ⟨hwhole, hlt, hle, hallows⟩
    exact ⟨⟨hwhole, matches_iff.mpr hallows⟩, hlt, (hhorizon hwhole).mp hle⟩
  · rintro ⟨⟨hwhole, hit⟩, hlt, hle⟩
    exact ⟨hwhole, hlt, (hhorizon hwhole).mpr hle, matches_iff.mp hit⟩

theorem nextScheduled_eq_none_iff : s.nextScheduled t = none ↔ ∀ c, ¬s.Upcoming t c := by
  constructor
  · intro h c hc
    obtain ⟨hslot, hlt, hle⟩ := upcoming_iff.mp hc
    exact absurd (nextScheduled_none h hslot hlt) (not_lt.mpr hle)
  · intro h
    rw [Option.eq_none_iff_forall_not_mem]
    intro c hc
    obtain ⟨hslot, hlt, hle, -⟩ := nextScheduled_some hc
    exact h c (upcoming_iff.mpr ⟨hslot, hlt, hle⟩)

theorem nextScheduled_eq_some_iff :
    s.nextScheduled t = some c ↔ IsLeast {c | s.Upcoming t c} c := by
  have hleast {d : ℤ} (h : s.nextScheduled t = some d) : IsLeast {c | s.Upcoming t c} d := by
    obtain ⟨hslot, hlt, hle, hmin⟩ := nextScheduled_some h
    refine ⟨upcoming_iff.mpr ⟨hslot, hlt, hle⟩, fun c hc => ?_⟩
    obtain ⟨hslot', hlt', -⟩ := upcoming_iff.mp hc
    exact hmin c hslot' hlt'
  refine ⟨hleast, fun h => ?_⟩
  cases hnext : s.nextScheduled t with
  | none => exact absurd h.1 (nextScheduled_eq_none_iff.mp hnext c)
  | some d => rw [(hleast hnext).unique h]

end Scheduler

/-- A validated cron expression in a valid time zone is accepted unless the jitter or the grace is
out of range. A scheduler has the masks of its expression, and its search returns the least allowed
minute of the next 366 days, or nothing exactly if there is none. -/
theorem cron_accepted_and_searched (zones : Zones) (planID : UUID) (spec : Spec) :
    (Domain.validateCron spec.cron = true → Domain.validateTimezone zones spec.timezone = true →
        ((∃ s, new zones planID spec = some s) ↔ InRange spec)) ∧
      ∀ s, new zones planID spec = some s →
        zones spec.timezone = some s.loc ∧
        Parsed spec.cron s.fields s.domRestricted s.dowRestricted ∧
        ∀ t, (∀ c, s.nextScheduled t = some c ↔ IsLeast {c | s.Upcoming t c} c) ∧
          (s.nextScheduled t = none ↔ ∀ c, ¬s.Upcoming t c) := by
  constructor
  · intro hcron hzone
    refine ⟨?_, exists_new hcron hzone⟩
    rintro ⟨s, hs⟩
    exact (new_some hs).2.2.2.1
  · intro s hs
    obtain ⟨hloc, -, -, -, hparsed⟩ := new_some hs
    exact ⟨hloc, hparsed, fun t =>
      ⟨fun c => Scheduler.nextScheduled_eq_some_iff, Scheduler.nextScheduled_eq_none_iff⟩⟩

def weekdays : Spec := ⟨"30 2 * * 1-5".toList, "UTC".toList, 600, 3600, "FORBID".toList⟩

def onlyUTC : Zones := fun name => if name = "UTC".toList then some fun _ => 0 else none

theorem cron_accepted_and_searched_weekdays :
    ∃ s, new onlyUTC UUID.nil weekdays = some s ∧
      ∀ t, s.nextScheduled t = none ↔ ∀ c, ¬s.Upcoming t c := by
  obtain ⟨haccepted, hsearched⟩ := cron_accepted_and_searched onlyUTC UUID.nil weekdays
  have hrange : InRange weekdays := ⟨by decide, by decide, by decide, by decide⟩
  obtain ⟨s, hs⟩ := (haccepted (by decide +kernel) (by decide +kernel)).mpr hrange
  exact ⟨s, hs, fun t => ((hsearched s hs).2.2 t).2⟩

end RestFleet.Agent.Schedule
