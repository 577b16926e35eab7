import Mathlib.Algebra.Order.Ring.Nat
import Mathlib.Data.List.Forall2
import Mathlib.Data.List.Lex
import Mathlib.Data.Nat.Find
import Mathlib.Data.String.Basic
import Mathlib.Order.Fin.Basic
import Mathlib.Tactic.IntervalCases

/-! Dates of the proleptic Gregorian calendar and the texts that sort as they do.

An instant is a number of microseconds from the first day of the year 1 on. Its fields are what
`datetime` shows: splitting by a table of starts keeps the order, part by part
(`split_lt`), and fields of fixed widths are ordered as texts as they are as numbers
(`render_lt`). So the text of the fields is an order preserving name of the instant
(`isoText_lt`), always of one length (`isoText_length`). -/
namespace PiPlatform.Library.Calendar

/-! ### Lists in order -/

section Order
variable {α : Type} [LinearOrder α]

theorem append_lt_append {xs xs' ys ys' : List α} (hlength : xs.length = xs'.length)
    (h : xs < xs') : xs ++ ys < xs' ++ ys' := by
  induction xs generalizing xs' with
  | nil =>
    obtain rfl := List.length_eq_zero_iff.mp hlength.symm
    exact absurd h (lt_irrefl _)
  | cons x xs ih =>
    cases xs' with
    | nil => cases hlength
    | cons x' xs' =>
      rw [List.cons_append, List.cons_append, List.cons_lt_cons_iff]
      rcases List.cons_lt_cons_iff.mp h with hx | ⟨rfl, hxs⟩
      · exact .inl hx
      · exact .inr ⟨rfl, ih (by simpa using hlength) hxs⟩

/-- First the one part, and the other where it is equal. -/
theorem append_lt_of_or {xs xs' ys ys' : List α} (hlength : xs.length = xs'.length)
    (h : xs < xs' ∨ xs = xs' ∧ ys < ys') : xs ++ ys < xs' ++ ys' := by
  rcases h with h | ⟨rfl, h⟩
  · exact append_lt_append hlength h
  · exact List.append_left_lt h

end Order

/-! ### Splitting by a table of starts -/

/-- The last start that `n` has passed, below a bound, and how far. -/
def split (starts : Nat → Nat) (bound n : Nat) : Nat × Nat :=
  let k := Nat.findGreatest (fun k => starts k ≤ n) bound
  (k, n - starts k)

section Split
variable {starts : Nat → Nat} {bound bound' n n' : Nat}

theorem starts_split (hzero : starts 0 = 0) : starts (split starts bound n).1 ≤ n := by
  have hfirst : starts 0 ≤ n := by
    rw [hzero]
    exact Nat.zero_le n
  exact Nat.findGreatest_spec (P := fun k => starts k ≤ n) (Nat.zero_le bound) hfirst

theorem split_lt (hzero : starts 0 = 0) (hbound : ∀ k, starts k ≤ n' → k ≤ bound') (h : n < n') :
    (split starts bound n).1 < (split starts bound' n').1 ∨
      (split starts bound n).1 = (split starts bound' n').1 ∧
        (split starts bound n).2 < (split starts bound' n').2 := by
  have hpassed : starts (split starts bound n).1 ≤ n := starts_split hzero
  have hle : (split starts bound n).1 ≤ (split starts bound' n').1 :=
    Nat.le_findGreatest (hbound _ (hpassed.trans h.le)) (hpassed.trans h.le)
  rcases hle.lt_or_eq with hlt | heq
  · exact .inl hlt
  · refine .inr ⟨heq, ?_⟩
    have hrest : (split starts bound n).2 = n - starts (split starts bound n).1 := rfl
    have hrest' : (split starts bound' n').2 = n' - starts (split starts bound' n').1 := rfl
    rw [hrest, hrest', ← heq]
    omega

end Split

theorem divMod_lt {n n' d : Nat} (h : n < n') :
    n / d < n' / d ∨ n / d = n' / d ∧ n % d < n' % d := by
  rcases (Nat.div_le_div_right (c := d) h.le).lt_or_eq with hlt | heq
  · exact .inl hlt
  · refine .inr ⟨heq, ?_⟩
    have hn := Nat.div_add_mod n d
    have hn' := Nat.div_add_mod n' d
    rw [heq] at hn
    omega

/-! ### Days -/

/-- The days before the first one of a year, from the year 1 on. -/
def daysBeforeYear (year : Nat) : Nat :=
  let y := year - 1
  y * 365 + y / 4 - y / 100 + y / 400

def isLeap (year : Nat) : Bool := year % 4 = 0 ∧ (year % 100 ≠ 0 ∨ year % 400 = 0)

/-- The days of a year before the first one of a month, from the month 1 on; no year reaches
beyond the twelfth. -/
def daysBeforeMonth (leap : Bool) (month : Nat) : Nat :=
  if month ≤ 12 then
    [0, 0, 31, 59, 90, 120, 151, 181, 212, 243, 273, 304, 334].getD month 0 +
      if leap ∧ 2 < month then 1 else 0
  else 367

/-- Year and day of the year. -/
def yearOf (days : Nat) : Nat × Nat := split daysBeforeYear (days / 365 + 1) days

/-- Month and day of the month, both from 0 on up to the first day. -/
def monthOf (leap : Bool) (dayOfYear : Nat) : Nat × Nat :=
  split (daysBeforeMonth leap) 12 dayOfYear

def dateFields (days : Nat) : List Nat :=
  let (year, dayOfYear) := yearOf days
  let (month, day) := monthOf (isLeap year) dayOfYear
  [year, month, day + 1]

/-- The days from 0001-01-01 to 9999-12-31. -/
def maxDays : Nat := 3652059

theorem year_le {year days : Nat} (h : daysBeforeYear year ≤ days) : year ≤ days / 365 + 1 := by
  simp only [daysBeforeYear] at h
  omega

theorem dateFields_length (days : Nat) : (dateFields days).length = 3 := rfl

theorem daysBeforeYear_succ (year : Nat) :
    daysBeforeYear (year + 1) ≤ daysBeforeYear year + 366 := by
  cases year with
  | zero => decide
  | succ y =>
    have hyear : ∀ z, daysBeforeYear (z + 1) = z * 365 + z / 4 - z / 100 + z / 400 := fun _ => rfl
    have hfourth : (y + 1) / 4 ≤ y / 4 + 1 := by omega
    have hcentury : (y + 1) / 100 = y / 100 ∨ (y + 1) / 100 = y / 100 + 1 := by omega
    have hcycle : (y + 1) / 400 ≤ y / 400 + 1 := by omega
    -- a cycle of four centuries ends only where a century does
    have hends : (y + 1) / 100 = y / 100 → (y + 1) / 400 = y / 400 := by omega
    have hless : y / 100 ≤ y / 4 := by omega
    have hless' : (y + 1) / 100 ≤ (y + 1) / 4 := by omega
    rw [hyear, hyear]
    generalize (y + 1) / 4 = fourth, y / 4 = fourth', (y + 1) / 100 = century,
      y / 100 = century', (y + 1) / 400 = cycle, y / 400 = cycle' at *
    omega

theorem yearOf_bounds {days : Nat} (h : days < maxDays) :
    (yearOf days).1 ≤ 9999 ∧ (yearOf days).2 < 366 := by
  have hpassed : daysBeforeYear (yearOf days).1 ≤ days := starts_split rfl
  have hnext : days < daysBeforeYear ((yearOf days).1 + 1) := by
    by_contra hle
    have hgreatest := Nat.le_findGreatest (P := fun k => daysBeforeYear k ≤ days)
      (year_le (not_lt.mp hle)) (not_lt.mp hle)
    exact absurd hgreatest (Nat.not_succ_le_self _)
  have hgap := daysBeforeYear_succ (yearOf days).1
  have hrest : (yearOf days).2 = days - daysBeforeYear (yearOf days).1 := rfl
  refine ⟨?_, by omega⟩
  by_contra hbeyond
  simp only [daysBeforeYear, maxDays] at hpassed h
  omega

theorem daysBeforeMonth_zero (leap : Bool) : daysBeforeMonth leap 0 = 0 := by
  cases leap <;> rfl

theorem month_le {leap : Bool} {month dayOfYear : Nat} (hday : dayOfYear < 366)
    (h : daysBeforeMonth leap month ≤ dayOfYear) : month ≤ 12 := by
  by_contra hbeyond
  rw [daysBeforeMonth, if_neg hbeyond] at h
  omega

theorem daysBeforeMonth_succ (leap : Bool) {month : Nat} (h : month ≤ 12) :
    daysBeforeMonth leap (month + 1) ≤ daysBeforeMonth leap month + 33 := by
  interval_cases month <;> cases leap <;> decide

theorem monthOf_bounds {leap : Bool} {dayOfYear : Nat} (h : dayOfYear < 366) :
    (monthOf leap dayOfYear).1 ≤ 12 ∧ (monthOf leap dayOfYear).2 < 33 := by
  have hmonth : (monthOf leap dayOfYear).1 ≤ 12 :=
    (Nat.findGreatest_le 12 :
      Nat.findGreatest (fun k => daysBeforeMonth leap k ≤ dayOfYear) 12 ≤ 12)
  have hnext : dayOfYear < daysBeforeMonth leap ((monthOf leap dayOfYear).1 + 1) := by
    by_contra hle
    have hgreatest := Nat.le_findGreatest (P := fun k => daysBeforeMonth leap k ≤ dayOfYear)
      (month_le h (not_lt.mp hle)) (not_lt.mp hle)
    exact absurd hgreatest (Nat.not_succ_le_self _)
  have hgap := daysBeforeMonth_succ leap hmonth
  have hrest : (monthOf leap dayOfYear).2 =
      dayOfYear - daysBeforeMonth leap (monthOf leap dayOfYear).1 := rfl
  exact ⟨hmonth, by omega⟩

theorem dateFields_lt {days days' : Nat} (h : days < days') (hmax : days' < maxDays) :
    dateFields days < dateFields days' := by
  have hbounds' := (yearOf_bounds hmax).2
  have hyear : (yearOf days).1 < (yearOf days').1 ∨
      (yearOf days).1 = (yearOf days').1 ∧ (yearOf days).2 < (yearOf days').2 :=
    split_lt rfl (fun _ => year_le) h
  simp only [dateFields]
  rw [List.cons_lt_cons_iff]
  refine hyear.imp_right fun ⟨heq, hday⟩ => ⟨heq, ?_⟩
  have hmonth : (monthOf (isLeap (yearOf days').1) (yearOf days).2).1 <
        (monthOf (isLeap (yearOf days').1) (yearOf days').2).1 ∨
      (monthOf (isLeap (yearOf days').1) (yearOf days).2).1 =
        (monthOf (isLeap (yearOf days').1) (yearOf days').2).1 ∧
      (monthOf (isLeap (yearOf days').1) (yearOf days).2).2 <
        (monthOf (isLeap (yearOf days').1) (yearOf days').2).2 :=
    split_lt (daysBeforeMonth_zero _) (fun _ => month_le hbounds') hday
  rw [heq, List.cons_lt_cons_iff, List.cons_lt_cons_iff]
  exact hmonth.imp_right fun ⟨hsame, hless⟩ => ⟨hsame, .inl (Nat.succ_lt_succ hless)⟩

/-! ### The time of the day -/

def timeFields (microseconds : Nat) : List Nat :=
  let afterHour := microseconds % 3600000000
  let afterMinute := afterHour % 60000000
  [microseconds / 3600000000, afterHour / 60000000, afterMinute / 1000000, afterMinute % 1000000]

theorem timeFields_lt {n n' : Nat} (h : n < n') : timeFields n < timeFields n' := by
  simp only [timeFields, List.cons_lt_cons_iff]
  refine (divMod_lt h).imp_right fun ⟨heq, hhour⟩ => ⟨heq, ?_⟩
  refine (divMod_lt hhour).imp_right fun ⟨heq, hminute⟩ => ⟨heq, ?_⟩
  exact (divMod_lt hminute).imp_right fun ⟨heq, hsecond⟩ => ⟨heq, .inl hsecond⟩

/-- Microseconds of a day. -/
def day : Nat := 86400000000

def fields (instant : Nat) : List Nat :=
  dateFields (instant / day) ++ timeFields (instant % day)

theorem fields_length (instant : Nat) : (fields instant).length = 7 := by
  rw [fields, List.length_append, dateFields_length]
  rfl

def maxInstant : Nat := maxDays * day

theorem maxInstant_pos : 0 < maxInstant := by decide

theorem fields_lt {instant instant' : Nat} (h : instant < instant') (hmax : instant' < maxInstant) :
    fields instant < fields instant' := by
  have hdays : instant' / day < maxDays := Nat.div_lt_of_lt_mul (by rwa [Nat.mul_comm])
  refine append_lt_of_or (by rw [dateFields_length, dateFields_length]) ?_
  rcases divMod_lt (d := day) h with hday | ⟨heq, hrest⟩
  · exact .inl (dateFields_lt hday hdays)
  · exact .inr ⟨by rw [heq], timeFields_lt hrest⟩

/-! ### Texts -/

/-- The last `width` digits of a number. -/
def digits : Nat → Nat → List Char
  | 0, _ => []
  | width + 1, n => digits width (n / 10) ++ [Nat.digitChar (n % 10)]

theorem digits_length (width n : Nat) : (digits width n).length = width := by
  induction width generalizing n with
  | zero => rfl
  | succ width ih => rw [digits, List.length_append, ih, List.length_singleton]

theorem digitChar_lt {a b : Nat} (h : a < b) (hb : b < 10) :
    Nat.digitChar a < Nat.digitChar b := by
  interval_cases b <;> interval_cases a <;> decide

theorem digits_lt {width n n' : Nat} (h : n < n') (hmax : n' < 10 ^ width) :
    digits width n < digits width n' := by
  induction width generalizing n n' with
  | zero =>
    rw [pow_zero] at hmax
    omega
  | succ width ih =>
    have hhigh : n' / 10 < 10 ^ width := Nat.div_lt_of_lt_mul (by rwa [← pow_succ'])
    refine append_lt_of_or (by rw [digits_length, digits_length]) ?_
    rcases divMod_lt (d := 10) h with hdiv | ⟨heq, hmod⟩
    · exact .inl (ih hdiv hhigh)
    · refine .inr ⟨by rw [heq], List.cons_lt_cons_iff.mpr (.inl ?_)⟩
      exact digitChar_lt hmod (Nat.mod_lt _ (by decide))

/-- Numbers of fixed widths, a mark behind each. -/
def render : List (Nat × Char) → List Nat → List Char
  | (width, mark) :: template, n :: ns => digits width n ++ mark :: render template ns
  | _, _ => []

/-- Each number has room. -/
def Fits (template : List (Nat × Char)) (ns : List Nat) : Prop :=
  List.Forall₂ (fun t n => n < 10 ^ t.1) template ns

theorem render_lt {template : List (Nat × Char)} {ns ns' : List Nat} (h : ns < ns')
    (hlength : ns.length = ns'.length) (hfits : Fits template ns') :
    render template ns < render template ns' := by
  induction hfits generalizing ns with
  | nil =>
    obtain rfl := List.length_eq_zero_iff.mp hlength
    exact absurd h (lt_irrefl _)
  | @cons t n' template ns' hn' _ ih =>
    cases ns with
    | nil => cases hlength
    | cons n ns =>
      refine append_lt_of_or (by rw [digits_length, digits_length]) ?_
      rcases List.cons_lt_cons_iff.mp h with hn | ⟨rfl, hns⟩
      · exact .inl (digits_lt hn hn')
      · exact .inr ⟨rfl, List.cons_lt_cons_iff.mpr
          (.inr ⟨rfl, ih hns (by simpa using hlength)⟩)⟩

/-- `%Y-%m-%dT%H:%M:%S.%fZ` -/
def isoTemplate : List (Nat × Char) :=
  [(4, '-'), (2, '-'), (2, 'T'), (2, ':'), (2, ':'), (2, '.'), (6, 'Z')]

def isoText (instant : Nat) : List Char := render isoTemplate (fields instant)

theorem isoText_length (instant : Nat) : (isoText instant).length = 27 := by
  simp [isoText, fields, dateFields, timeFields, isoTemplate, render, digits_length]

theorem fits_fields {instant : Nat} (h : instant < maxInstant) :
    Fits isoTemplate (fields instant) := by
  have hdays : instant / day < maxDays := Nat.div_lt_of_lt_mul (by rwa [Nat.mul_comm])
  have htime : instant % day < day := Nat.mod_lt _ (by decide)
  obtain ⟨hyear, hdayOfYear⟩ := yearOf_bounds hdays
  obtain ⟨hmonth, hday⟩ :
      (monthOf (isLeap (yearOf (instant / day)).1) (yearOf (instant / day)).2).1 ≤ 12 ∧
        (monthOf (isLeap (yearOf (instant / day)).1) (yearOf (instant / day)).2).2 < 33 :=
    monthOf_bounds hdayOfYear
  have hrest : instant % day < 24 * 3600000000 := htime
  simp only [fields, dateFields, timeFields, isoTemplate, Fits, List.cons_append, List.nil_append,
    List.forall₂_cons, List.Forall₂.nil, and_true, Nat.reducePow]
  generalize instant % day = rest at *
  exact ⟨by omega, by omega, by omega, by omega, by omega, by omega, by omega⟩

theorem isoText_lt {instant instant' : Nat} (h : instant < instant')
    (hmax : instant' < maxInstant) : isoText instant < isoText instant' :=
  render_lt (fields_lt h hmax) (by rw [fields_length, fields_length]) (fits_fields hmax)

/-! ### What `str` shows -/

/-- The times there are, in microseconds from the first one on. -/
abbrev Instant := Fin maxInstant

theorem fits_congr {template template' : List (Nat × Char)} {ns : List Nat}
    (h : template.map Prod.fst = template'.map Prod.fst) (hfits : Fits template ns) :
    Fits template' ns := by
  rw [Fits, ← List.forall₂_map_left_iff (R := fun width n => n < 10 ^ width)] at hfits ⊢
  rwa [← h]

theorem render_inj {template : List (Nat × Char)} {ns ns' : List Nat} (hfits : Fits template ns)
    (hfits' : Fits template ns') (h : render template ns = render template ns') : ns = ns' := by
  have hlength : ns.length = ns'.length := hfits.length_eq.symm.trans hfits'.length_eq
  rcases lt_trichotomy ns ns' with hlt | heq | hlt
  · exact absurd (render_lt hlt hlength hfits') (by rw [h]; exact lt_irrefl _)
  · exact heq
  · exact absurd (render_lt hlt hlength.symm hfits) (by rw [h]; exact lt_irrefl _)

theorem fields_inj {t t' : Instant} (h : fields t = fields t') : t = t' := by
  rcases lt_trichotomy t t' with hlt | heq | hlt
  · exact absurd (fields_lt hlt t'.isLt) (by rw [h]; exact lt_irrefl _)
  · exact heq
  · exact absurd (fields_lt hlt t.isLt) (by rw [h]; exact lt_irrefl _)

/-- Up to the seconds. -/
def secondFields (instant : Nat) : List Nat := (fields instant).take 6

theorem fields_eq (instant : Nat) :
    fields instant = secondFields instant ++ [instant % 1000000] := by
  have hrest : instant % day % 3600000000 % 60000000 % 1000000 = instant % 1000000 := by
    rw [day]
    omega
  rw [← hrest]
  rfl

def secondTemplate : List (Nat × Char) :=
  [(4, '-'), (2, '-'), (2, ' '), (2, ':'), (2, ':'), (2, '+')]

def fractionTemplate : List (Nat × Char) :=
  [(4, '-'), (2, '-'), (2, ' '), (2, ':'), (2, ':'), (2, '.'), (6, '+')]

theorem fits_fraction (t : Instant) : Fits fractionTemplate (fields t) :=
  fits_congr (by decide) (fits_fields t.isLt)

theorem fits_second (t : Instant) : Fits secondTemplate (secondFields t) :=
  fits_congr (by decide) (List.forall₂_take 6 (fits_fraction t))

/-- `str` of a time in UTC; a fraction of zero is not shown. -/
def strText (t : Instant) : List Char :=
  (if t.val % 1000000 = 0 then render secondTemplate (secondFields t)
    else render fractionTemplate (fields t)) ++ ['0', '0', ':', '0', '0']

theorem strText_injective : Function.Injective strText := by
  intro t t' h
  have hcut := List.append_cancel_right h
  have hlengths : ∀ t : Instant, (render secondTemplate (secondFields t)).length = 20 ∧
      (render fractionTemplate (fields t)).length = 27 := fun t => by
    simp [secondFields, fields, dateFields, timeFields, secondTemplate, fractionTemplate, render,
      digits_length]
  apply fields_inj
  split_ifs at hcut with hzero hzero' hzero'
  · rw [fields_eq, fields_eq, hzero, hzero',
      render_inj (fits_second t) (fits_second t') hcut]
  · have hlength := congrArg List.length hcut
    rw [(hlengths t).1, (hlengths t').2] at hlength
    cases hlength
  · have hlength := congrArg List.length hcut
    rw [(hlengths t).2, (hlengths t').1] at hlength
    cases hlength
  · exact render_inj (fits_fraction t) (fits_fraction t') hcut

/-- The last microsecond there is. -/
example : String.ofList (isoText (maxInstant - 1)) = "9999-12-31T23:59:59.999999Z" := by
  decide +kernel

end PiPlatform.Library.Calendar
