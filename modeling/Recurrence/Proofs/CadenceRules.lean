import Mathlib.Tactic.Ring
import Recurrence.Expression.Rule
import Recurrence.Proofs.CalendarSteps
import Recurrence.Proofs.SelectedValues
import Recurrence.Proofs.Windows

/-!
The minutes of a rule, one cadence after another.

A rule fixes some parts of a minute, and what it matches are the minutes that have these parts
in common with its anchor (`Expression.matchesAt_ofCadence_iff`). For days and weeks this means
that a whole number of them has passed (`Expression.mem_dueMinutes_daily_iff`,
`Expression.mem_dueMinutes_weekly_iff`), so each minute is followed by the one a day or a week
later, up to the end of the calendar (`getElem?_sort_of_dvd`). For months and years it leaves one
minute in each month or year that has the date of the anchor (`EveryMonth`, `EveryYear`). Such
minutes are ordered by month or by year, and where the date comes back soon, minutes in a row are
close (`OrderedBy.isChain_sort`).
-/

set_option autoImplicit false
set_option relaxedAutoImplicit false

namespace Recurrence

open Recurrence.Calendar Recurrence.Occurrences

/-! ### What a rule matches -/

/-- The fields that a rule takes from its anchor. -/
def Cadence.fixes : Cadence → List Field
  | daily => [.minute, .hour]
  | weekly => [.minute, .hour, .dayOfWeek]
  | monthly => [.minute, .hour, .dayOfMonth]
  | yearly => [.minute, .hour, .dayOfMonth, .month]

/-- A part of a minute is denoted by the number that stands for it, and no other part is. -/
theorem denotes_fixed_part (anchor : CalendarMinute) (field : Field) (bounds : Bounds)
    (value : Nat) :
    (Expression.fixed (anchor.part field)).Denotes bounds value ↔ value = anchor.part field := by
  have hbyte : anchor.part field < 256 :=
    Nat.lt_of_le_of_lt (anchor.admits_part field).2 field.bounds.greatest.toNat_lt
  rw [Expression.fixed, Pattern.Denotes, UInt8.toNat_ofNat_of_lt' hbyte]

namespace Expression

variable {cadence : Cadence} {anchor : DateTime} {moment : CalendarMinute}

theorem get_ofCadence (cadence : Cadence) (anchor : DateTime) (field : Field) :
    (ofCadence cadence anchor).get field =
      if field ∈ cadence.fixes then fixed (anchor.truncate.part field) else .wildcard := by
  cases cadence <;> cases field <;> rfl

/-- A rule matches the minutes that agree with its anchor in the fields that it fixes. -/
theorem matchesAt_ofCadence_iff :
    (ofCadence cadence anchor).matchesAt moment.start = true ↔
      ∀ field ∈ cadence.fixes, moment.part field = anchor.truncate.part field := by
  rw [matchesAt_iff_denotes]
  refine forall_congr' fun field ↦ ?_
  rw [get_ofCadence, DateTime.truncate_start]
  by_cases hfixes : field ∈ cadence.fixes
  · rw [if_pos hfixes, denotes_fixed_part]
    constructor
    · intro heq _
      exact heq
    · intro heq
      exact heq hfixes
  · rw [if_neg hfixes]
    exact iff_of_true trivial fun hmem ↦ absurd hmem hfixes

/-- The minutes that a rule matches from its anchor on. -/
noncomputable def dueMinutes (cadence : Cadence) (anchor : DateTime) : Finset CalendarMinute :=
  (ofCadence cadence anchor).selection anchor none

theorem mem_dueMinutes_iff :
    moment ∈ dueMinutes cadence anchor ↔ anchor.truncate ≤ moment ∧
      ∀ field ∈ cadence.fixes, moment.part field = anchor.truncate.part field := by
  rw [dueMinutes, mem_selection_none, matchesAt_ofCadence_iff]

/-- The minutes of a rule in order, from its anchor to the end of the calendar. -/
def ruleMinutes (cadence : Cadence) (anchor : DateTime) : List CalendarMinute :=
  ((ofCadence cadence anchor).occurrences anchor none).toList.result

theorem ruleMinutes_eq_sort (cadence : Cadence) (anchor : DateTime) :
    ruleMinutes cadence anchor = (dueMinutes cadence anchor).sort (· ≤ ·) :=
  result_toList_occurrences _ _ _

/-- A rule starts with its anchor. -/
theorem head?_ruleMinutes (cadence : Cadence) (anchor : DateTime) :
    (ruleMinutes cadence anchor).head? = some anchor.truncate := by
  rw [ruleMinutes_eq_sort, (isLeastOrNone_head? _).eq_some_iff]
  constructor
  · rw [Finset.mem_coe, mem_dueMinutes_iff]
    exact ⟨le_refl _, fun _ _ ↦ rfl⟩
  · intro moment hmem
    exact (mem_dueMinutes_iff.mp hmem).1

end Expression

/-! ### Days and weeks -/

section

variable {minutes : Finset CalendarMinute} {anchor : CalendarMinute} {days : Nat}

/-- Between minutes that lie whole numbers of steps after an anchor there is a whole step. -/
theorem number_add_le_of_dvd {step : Int} {earlier later : CalendarMinute} (hlt : earlier < later)
    (hearlier : step ∣ earlier.number - anchor.number)
    (hlater : step ∣ later.number - anchor.number) : earlier.number + step ≤ later.number := by
  rw [CalendarMinute.lt_def] at hlt
  have hdistance := Int.dvd_sub hlater hearlier
  have hle := Int.le_of_dvd (by omega) hdistance
  omega

/-- After a minute that lies a whole number of steps after an anchor comes the one a step later,
or the end of the calendar. -/
theorem isLeastOrNone_daysLater? (hpos : 0 < days)
    (h : ∀ moment, moment ∈ minutes ↔
      anchor ≤ moment ∧ (1440 * days : Int) ∣ moment.number - anchor.number)
    {count : Nat} {current : CalendarMinute}
    (hcurrent : anchor.daysLater? (days * count) = some current) :
    IsLeastOrNone {later | later ∈ minutes ∧ current < later}
      (anchor.daysLater? (days * (count + 1))) := by
  rw [CalendarMinute.daysLater?_eq_some_iff] at hcurrent
  have hdvd : (1440 * days : Int) ∣ current.number - anchor.number :=
    ⟨count, by rw [hcurrent]; push_cast; ring⟩
  have hstep {other : CalendarMinute} (hother : other ∈ minutes ∧ current < other) :
      current.number + 1440 * days ≤ other.number :=
    number_add_le_of_dvd hother.2 hdvd ((h other).mp hother.1).2
  have hsucc : (1440 * (days * (count + 1) : Nat) : Int) =
      1440 * (days * count : Nat) + 1440 * days := by
    push_cast
    ring
  rcases anchor.daysLater?_cases (days * (count + 1)) with ⟨later, hlater, hnumber⟩ | ⟨hnone, hlast⟩
  · rw [hlater]
    refine ⟨⟨(h later).mpr ⟨?_, count + 1, ?_⟩, ?_⟩, ?_⟩
    · rw [CalendarMinute.le_def]
      omega
    · rw [hnumber]
      push_cast
      ring
    · rw [CalendarMinute.lt_def]
      omega
    · intro other hother
      have hle := hstep hother
      rw [CalendarMinute.le_def]
      omega
  · rw [hnone]
    change {later | later ∈ minutes ∧ current < later} = ∅
    rw [Set.eq_empty_iff_forall_notMem]
    intro other hother
    have hle := hstep hother
    have hend := CalendarMinute.le_last other
    rw [CalendarMinute.le_def] at hend
    omega

/-- Minutes that lie whole numbers of steps after an anchor are listed one step after the other,
up to the end of the calendar. -/
theorem getElem?_sort_of_dvd (hpos : 0 < days)
    (h : ∀ moment, moment ∈ minutes ↔
      anchor ≤ moment ∧ (1440 * days : Int) ∣ moment.number - anchor.number) (count : Nat) :
    (minutes.sort (· ≤ ·))[count]? = anchor.daysLater? (days * count) := by
  induction count with
  | zero =>
    rw [← List.head?_eq_getElem?]
    change _ = some anchor
    rw [(isLeastOrNone_head? _).eq_some_iff]
    constructor
    · rw [Finset.mem_coe, h]
      exact ⟨le_refl _, 0, by ring⟩
    · intro moment hmem
      exact ((h moment).mp hmem).1
  | succ count ih =>
    cases hcurrent : (minutes.sort (· ≤ ·))[count]? with
    | none =>
      -- What has ended stays ended, in the list and in the calendar.
      rw [hcurrent, eq_comm, CalendarMinute.daysLater?_eq_none_iff] at ih
      have hlength := List.getElem?_eq_none_iff.mp hcurrent
      rw [List.getElem?_eq_none (by omega), eq_comm, CalendarMinute.daysLater?_eq_none_iff,
        Nat.mul_succ]
      omega
    | some current =>
      rw [hcurrent, eq_comm] at ih
      exact (isLeastOrNone_getElem?_succ hcurrent).unique (isLeastOrNone_daysLater? hpos h ih)

end

namespace Expression

variable {anchor : DateTime} {moment : CalendarMinute}

/-- The minutes of a daily rule lie whole days after its anchor. -/
theorem mem_dueMinutes_daily_iff :
    moment ∈ dueMinutes .daily anchor ↔ anchor.truncate ≤ moment ∧
      (1440 * (1 : Nat) : Int) ∣ moment.number - anchor.truncate.number := by
  have hhour := moment.hour_lt
  have hminute := moment.minute_lt
  have hanchorHour := anchor.truncate.hour_lt
  have hanchorMinute := anchor.truncate.minute_lt
  rw [mem_dueMinutes_iff]
  refine and_congr_right fun _ ↦ ?_
  simp only [Cadence.fixes, List.mem_cons, List.not_mem_nil, or_false, forall_eq_or_imp,
    forall_eq, CalendarMinute.part, CalendarMinute.number]
  omega

/-- The minutes of a weekly rule lie whole weeks after its anchor. -/
theorem mem_dueMinutes_weekly_iff :
    moment ∈ dueMinutes .weekly anchor ↔ anchor.truncate ≤ moment ∧
      (1440 * (7 : Nat) : Int) ∣ moment.number - anchor.truncate.number := by
  have hhour := moment.hour_lt
  have hminute := moment.minute_lt
  have hanchorHour := anchor.truncate.hour_lt
  have hanchorMinute := anchor.truncate.minute_lt
  rw [mem_dueMinutes_iff]
  refine and_congr_right fun _ ↦ ?_
  simp only [Cadence.fixes, List.mem_cons, List.not_mem_nil, or_false, forall_eq_or_imp,
    forall_eq, CalendarMinute.part, CalendarMinute.number, Date.weekday, weekdayOfNumber]
  omega

end Expression

/-! ### Months and years -/

/-- The minutes of a list repeat an anchor every month. -/
structure EveryMonth (anchor : CalendarMinute) (items : List CalendarMinute) : Prop where
  /-- In a month from that of the anchor on stands the one minute with the day and the time of
  the anchor, if the month has this day, and in any other month stands nothing. -/
  inMonth : ∀ year month,
    items.filter (fun item ↦ item.date.year = year ∧ item.date.month = month) =
      (if anchor.monthNumber ≤ monthNumber year month then
        CalendarMinute.ofParts? year month anchor.date.day anchor.hour anchor.minute
      else
        none).toList
  /-- Minutes in a row are one or two months apart. -/
  apart : items.IsChain fun earlier later ↦
    later.monthNumber = earlier.monthNumber + 1 ∨ later.monthNumber = earlier.monthNumber + 2
  /-- After the last minute the calendar has no month with the day of the anchor. -/
  ended : ∀ last ∈ items.getLast?, ∀ year month, 1 ≤ month ∧ month ≤ 12 →
    last.monthNumber < monthNumber year month → anchor.date.day ≤ daysInMonth year month →
      9999 < year

/-- The minutes of a list repeat an anchor every year. -/
structure EveryYear (anchor : CalendarMinute) (items : List CalendarMinute) : Prop where
  /-- In a year from that of the anchor on stands the one minute with the month, the day and the
  time of the anchor, if the year has this date, and in any other year stands nothing. -/
  inYear : ∀ year,
    items.filter (fun item ↦ item.date.year = year) =
      (if anchor.date.year ≤ year then
        CalendarMinute.ofParts? year anchor.date.month anchor.date.day anchor.hour anchor.minute
      else
        none).toList
  /-- Minutes in a row are one year apart, and on leap days eight years at most. -/
  apart : items.IsChain fun earlier later ↦
    earlier.date.year < later.date.year ∧ later.date.year ≤ earlier.date.year +
      if anchor.date.month = 2 ∧ anchor.date.day = 29 then 8 else 1
  /-- On a leap day the years are the leap years. -/
  leapYears : anchor.date.month = 2 ∧ anchor.date.day = 29 →
    ∀ year, anchor.date.year ≤ year ∧ year ≤ 9999 →
      ((∃ item ∈ items, item.date.year = year) ↔ IsLeapYear year)
  /-- After the last minute the calendar has no year with the date of the anchor. -/
  ended : ∀ last ∈ items.getLast?, ∀ year, last.date.year < year →
    anchor.date.day ≤ daysInMonth year anchor.date.month → 9999 < year

section

variable {minutes : Finset CalendarMinute}

/-- What is kept of a list is the one minute that belongs to it and is kept, if there is one. -/
theorem filter_sort_eq_toList {keep : CalendarMinute → Bool} {only : Option CalendarMinute}
    (h : ∀ moment, moment ∈ minutes ∧ keep moment = true ↔ only = some moment) :
    (minutes.sort (· ≤ ·)).filter keep = only.toList := by
  have hset : minutes.filter (keep · = true) = only.toFinset := by
    ext moment
    rw [Finset.mem_filter, h, Option.mem_toFinset, Option.mem_def]
  rw [filter_sort, hset]
  cases only with
  | none => exact Finset.sort_empty _
  | some moment => exact Finset.sort_singleton _ _

/-- A label grows with the minutes of a set. -/
def OrderedBy (label : CalendarMinute → Int) (minutes : Finset CalendarMinute) : Prop :=
  ∀ first ∈ minutes, ∀ second ∈ minutes, first ≤ second ↔ label first ≤ label second

variable {label : CalendarMinute → Int}

/-- If minutes are ordered by a label, and soon after each of them comes a label that a minute
has or none can have, then labels in a row grow and stay close. -/
theorem OrderedBy.isChain_sort (h : OrderedBy label minutes) (gap : Int) {greatest : Int}
    (hgreatest : ∀ moment, label moment ≤ greatest)
    (hnext : ∀ moment ∈ minutes, ∃ number, label moment < number ∧ number ≤ label moment + gap ∧
      (number ≤ greatest → ∃ next ∈ minutes, label next = number)) :
    (minutes.sort (· ≤ ·)).IsChain fun earlier later ↦
      label earlier < label later ∧ label later ≤ label earlier + gap := by
  refine (Recurrence.isChain_sort minutes).imp fun earlier later hleast ↦ ?_
  obtain ⟨hearlier, ⟨hlater, hlt⟩, hleast⟩ := hleast
  have hlt_iff {moment : CalendarMinute} (hmem : moment ∈ minutes) :
      earlier < moment ↔ label earlier < label moment := by
    rw [← not_le, h moment hmem earlier hearlier, Int.not_le]
  obtain ⟨number, hafter, hwithin, hmember⟩ := hnext earlier hearlier
  refine ⟨(hlt_iff hlater).mp hlt, le_trans ?_ hwithin⟩
  by_cases hlast : number ≤ greatest
  · obtain ⟨next, hmem, rfl⟩ := hmember hlast
    exact (h later hlater next hmem).mp (hleast ⟨hmem, (hlt_iff hmem).mpr hafter⟩)
  · exact (hgreatest later).trans (Int.not_le.mp hlast).le

/-- If minutes are ordered by a label, the last one has the greatest label. -/
theorem OrderedBy.label_le_getLast (h : OrderedBy label minutes) {last : CalendarMinute}
    (hlast : last ∈ (minutes.sort (· ≤ ·)).getLast?) : ∀ moment ∈ minutes,
      label moment ≤ label last := by
  intro moment hmem
  have hlast_mem : last ∈ minutes := (Finset.mem_sort _).mp (List.mem_of_getLast? hlast)
  rw [← h moment hmem last hlast_mem]
  exact le_getLast (Finset.sortedLT_sort _).pairwise hlast moment ((Finset.mem_sort _).mpr hmem)

end

namespace Expression

variable {anchor : DateTime} {moment : CalendarMinute} {year : Int} {month : Nat}

/-! ### Every month -/

/-- The minutes of a monthly rule lie on the day of its anchor, at the same time. -/
theorem mem_dueMinutes_monthly_iff :
    moment ∈ dueMinutes .monthly anchor ↔
      anchor.truncate.monthNumber ≤ moment.monthNumber ∧
        moment.date.day = anchor.truncate.date.day ∧ moment.hour = anchor.truncate.hour ∧
          moment.minute = anchor.truncate.minute := by
  rw [mem_dueMinutes_iff]
  simp only [Cadence.fixes, List.mem_cons, List.not_mem_nil, or_false, forall_eq_or_imp,
    forall_eq, CalendarMinute.part]
  constructor
  · intro hparts
    obtain ⟨hle, hminute, hhour, hday⟩ := hparts
    exact ⟨(CalendarMinute.le_iff_monthNumber_le hday hhour hminute).mp hle, hday, hhour, hminute⟩
  · intro hparts
    obtain ⟨hle, hday, hhour, hminute⟩ := hparts
    exact ⟨(CalendarMinute.le_iff_monthNumber_le hday hhour hminute).mpr hle, hminute, hhour, hday⟩

/-- The minutes of a monthly rule are ordered by month. -/
theorem orderedBy_dueMinutes_monthly :
    OrderedBy CalendarMinute.monthNumber (dueMinutes .monthly anchor) := by
  intro first hfirst second hsecond
  obtain ⟨-, hday, hhour, hminute⟩ := mem_dueMinutes_monthly_iff.mp hfirst
  obtain ⟨-, hday', hhour', hminute'⟩ := mem_dueMinutes_monthly_iff.mp hsecond
  exact CalendarMinute.le_iff_monthNumber_le (hday'.trans hday.symm) (hhour'.trans hhour.symm)
    (hminute'.trans hminute.symm)

/-- A monthly rule has a minute in every month from its anchor on that has the day. -/
theorem exists_mem_dueMinutes_monthly (hmonth : 1 ≤ month ∧ month ≤ 12)
    (hafter : anchor.truncate.monthNumber ≤ monthNumber year month)
    (hday : anchor.truncate.date.day ≤ daysInMonth year month)
    (hbefore : monthNumber year month ≤ monthNumber 9999 12) :
    ∃ moment ∈ dueMinutes .monthly anchor, moment.monthNumber = monthNumber year month := by
  have hfirst := anchor.truncate.date.year_bounds.1
  have hmonths := anchor.truncate.date.month_bounds
  have hyears : -9999 ≤ year ∧ year ≤ 9999 := by
    unfold CalendarMinute.monthNumber monthNumber at hafter
    unfold monthNumber at hbefore
    omega
  refine ⟨{ anchor.truncate with
    date := ⟨year, month, anchor.truncate.date.day, hyears, hmonth,
      anchor.truncate.date.day_bounds.1, hday⟩ }, ?_, rfl⟩
  rw [mem_dueMinutes_monthly_iff]
  exact ⟨hafter, rfl, rfl, rfl⟩

/-- A monthly rule repeats its anchor every month. -/
theorem everyMonth_ruleMinutes (anchor : DateTime) :
    EveryMonth anchor.truncate (ruleMinutes .monthly anchor) := by
  rw [ruleMinutes_eq_sort]
  refine ⟨fun year month ↦ filter_sort_eq_toList fun moment ↦ ?_, ?_, ?_⟩
  · rw [mem_dueMinutes_monthly_iff, decide_eq_true_iff, Option.ite_none_right_eq_some,
      CalendarMinute.ofParts?_eq_some_iff]
    constructor
    · rintro ⟨⟨hafter, hday, hhour, hminute⟩, rfl, rfl⟩
      exact ⟨hafter, rfl, rfl, hday, hhour, hminute⟩
    · rintro ⟨hafter, rfl, rfl, hday, hhour, hminute⟩
      exact ⟨⟨hafter, hday, hhour, hminute⟩, rfl, rfl⟩
  · refine (orderedBy_dueMinutes_monthly.isChain_sort 2 CalendarMinute.monthNumber_le
      fun moment hmem ↦ ?_).imp fun earlier later hclose ↦ ?_
    · -- The next month with 31 days has the day of the anchor, so it is not skipped.
      obtain ⟨year, month, hmonth, hafter, hwithin, hdays⟩ :=
        exists_month_of_31_days moment.monthNumber
      have hfrom := (mem_dueMinutes_monthly_iff.mp hmem).1
      have hday := anchor.truncate.date.day_bounds.2.trans (daysInMonth_le _ _)
      exact ⟨_, hafter, hwithin, exists_mem_dueMinutes_monthly hmonth (hfrom.trans hafter.le)
        (hday.trans hdays.ge)⟩
    · omega
  · intro last hlast year month hmonth hafter hday
    by_contra hyear
    have hmem : last ∈ dueMinutes .monthly anchor :=
      (Finset.mem_sort _).mp (List.mem_of_getLast? hlast)
    have hfrom := (mem_dueMinutes_monthly_iff.mp hmem).1
    have hbefore : monthNumber year month ≤ monthNumber 9999 12 := by
      unfold monthNumber
      omega
    obtain ⟨moment, hmoment, hnumber⟩ :=
      exists_mem_dueMinutes_monthly hmonth (hfrom.trans hafter.le) hday hbefore
    have hle := orderedBy_dueMinutes_monthly.label_le_getLast hlast moment hmoment
    omega

/-! ### Every year -/

/-- The minutes of a yearly rule lie on the month and the day of its anchor, at the same time. -/
theorem mem_dueMinutes_yearly_iff :
    moment ∈ dueMinutes .yearly anchor ↔
      anchor.truncate.date.year ≤ moment.date.year ∧
        moment.date.month = anchor.truncate.date.month ∧
          moment.date.day = anchor.truncate.date.day ∧ moment.hour = anchor.truncate.hour ∧
            moment.minute = anchor.truncate.minute := by
  rw [mem_dueMinutes_iff]
  simp only [Cadence.fixes, List.mem_cons, List.not_mem_nil, or_false, forall_eq_or_imp,
    forall_eq, CalendarMinute.part]
  constructor
  · intro hparts
    obtain ⟨hle, hminute, hhour, hday, hmonth⟩ := hparts
    exact ⟨(CalendarMinute.le_iff_year_le hmonth hday hhour hminute).mp hle, hmonth, hday, hhour,
      hminute⟩
  · intro hparts
    obtain ⟨hle, hmonth, hday, hhour, hminute⟩ := hparts
    exact ⟨(CalendarMinute.le_iff_year_le hmonth hday hhour hminute).mpr hle, hminute, hhour,
      hday, hmonth⟩

/-- The minutes of a yearly rule are ordered by year. -/
theorem orderedBy_dueMinutes_yearly :
    OrderedBy (fun moment ↦ moment.date.year) (dueMinutes .yearly anchor) := by
  intro first hfirst second hsecond
  obtain ⟨-, hmonth, hday, hhour, hminute⟩ := mem_dueMinutes_yearly_iff.mp hfirst
  obtain ⟨-, hmonth', hday', hhour', hminute'⟩ := mem_dueMinutes_yearly_iff.mp hsecond
  exact CalendarMinute.le_iff_year_le (hmonth'.trans hmonth.symm) (hday'.trans hday.symm)
    (hhour'.trans hhour.symm) (hminute'.trans hminute.symm)

/-- A yearly rule has a minute in every year from its anchor on that has the date. -/
theorem exists_mem_dueMinutes_yearly (hafter : anchor.truncate.date.year ≤ year)
    (hday : anchor.truncate.date.day ≤ daysInMonth year anchor.truncate.date.month)
    (hbefore : year ≤ 9999) :
    ∃ moment ∈ dueMinutes .yearly anchor, moment.date.year = year := by
  have hyears := anchor.truncate.date.year_bounds.1.trans hafter
  refine ⟨{ anchor.truncate with
    date := ⟨year, anchor.truncate.date.month, anchor.truncate.date.day, ⟨hyears, hbefore⟩,
      anchor.truncate.date.month_bounds, anchor.truncate.date.day_bounds.1, hday⟩ }, ?_, rfl⟩
  rw [mem_dueMinutes_yearly_iff]
  exact ⟨hafter, rfl, rfl, rfl, rfl⟩

/-- The date of a minute in a yearly rule comes back within a year, and a leap day within eight. -/
theorem exists_year_of_mem_dueMinutes_yearly (hmem : moment ∈ dueMinutes .yearly anchor) :
    ∃ year, moment.date.year < year ∧
      year ≤ moment.date.year +
        (if anchor.truncate.date.month = 2 ∧ anchor.truncate.date.day = 29 then 8 else 1) ∧
      anchor.truncate.date.day ≤ daysInMonth year anchor.truncate.date.month := by
  obtain ⟨-, hmonth, hday, -, -⟩ := mem_dueMinutes_yearly_iff.mp hmem
  have hexists := moment.date.day_bounds.2
  rw [hmonth, hday] at hexists
  by_cases hleap : anchor.truncate.date.month = 2 ∧ anchor.truncate.date.day = 29
  · rw [hleap.1, hleap.2, leapDay_le_daysInMonth_iff] at hexists
    obtain ⟨year, hafter, hwithin, hyear⟩ := exists_isLeapYear_le_add_eight hexists
    rw [if_pos hleap, hleap.1, hleap.2]
    exact ⟨year, hafter, hwithin, leapDay_le_daysInMonth_iff.mpr hyear⟩
  · rw [if_neg hleap]
    exact ⟨moment.date.year + 1, by omega, by omega,
      le_daysInMonth_of_not_leapDay hexists hleap _⟩

/-- A yearly rule repeats its anchor every year. -/
theorem everyYear_ruleMinutes (anchor : DateTime) :
    EveryYear anchor.truncate (ruleMinutes .yearly anchor) := by
  rw [ruleMinutes_eq_sort]
  refine ⟨fun year ↦ filter_sort_eq_toList fun moment ↦ ?_, ?_, ?_, ?_⟩
  · rw [mem_dueMinutes_yearly_iff, decide_eq_true_iff, Option.ite_none_right_eq_some,
      CalendarMinute.ofParts?_eq_some_iff]
    constructor
    · rintro ⟨⟨hafter, hmonth, hday, hhour, hminute⟩, rfl⟩
      exact ⟨hafter, rfl, hmonth, hday, hhour, hminute⟩
    · rintro ⟨hafter, rfl, hmonth, hday, hhour, hminute⟩
      exact ⟨⟨hafter, hmonth, hday, hhour, hminute⟩, rfl⟩
  · refine orderedBy_dueMinutes_yearly.isChain_sort _ (fun moment ↦ moment.date.year_bounds.2)
      fun moment hmem ↦ ?_
    obtain ⟨year, hafter, hwithin, hday⟩ := exists_year_of_mem_dueMinutes_yearly hmem
    have hfrom := (mem_dueMinutes_yearly_iff.mp hmem).1
    exact ⟨year, hafter, hwithin, exists_mem_dueMinutes_yearly (hfrom.trans hafter.le) hday⟩
  · intro hleap year hyears
    constructor
    · rintro ⟨item, hitem, rfl⟩
      obtain ⟨-, hmonth, hday, -, -⟩ :=
        mem_dueMinutes_yearly_iff.mp ((Finset.mem_sort _).mp hitem)
      have hexists := item.date.day_bounds.2
      rwa [hmonth, hday, hleap.1, hleap.2, leapDay_le_daysInMonth_iff] at hexists
    · intro hyear
      rw [← leapDay_le_daysInMonth_iff] at hyear
      obtain ⟨moment, hmem, hmoment⟩ :=
        exists_mem_dueMinutes_yearly hyears.1 (by rwa [hleap.1, hleap.2]) hyears.2
      exact ⟨moment, (Finset.mem_sort _).mpr hmem, hmoment⟩
  · intro last hlast year hafter hday
    by_contra hyear
    have hmem : last ∈ dueMinutes .yearly anchor :=
      (Finset.mem_sort _).mp (List.mem_of_getLast? hlast)
    have hfrom := (mem_dueMinutes_yearly_iff.mp hmem).1
    obtain ⟨moment, hmoment, hnumber⟩ :=
      exists_mem_dueMinutes_yearly (hfrom.trans hafter.le) hday (Int.not_lt.mp hyear)
    have hle := orderedBy_dueMinutes_yearly.label_le_getLast hlast moment hmoment
    omega

/-- Asking a rule for one match after another gives its minutes, and they start with its anchor.
Daily they lie one day apart and weekly seven, up to the end of the calendar; monthly and yearly
there is one in each month or year that has the date of the anchor. -/
theorem ruleMinutes_repeat (anchor : DateTime) :
    (∀ cadence count, ((ofCadence cadence anchor).occurrences anchor none).call count =
      (ruleMinutes cadence anchor)[count]?) ∧
    (∀ cadence, (ruleMinutes cadence anchor).head? = some anchor.truncate) ∧
    (∀ days, (ruleMinutes .daily anchor)[days]? = anchor.truncate.daysLater? days) ∧
    (∀ weeks, (ruleMinutes .weekly anchor)[weeks]? = anchor.truncate.daysLater? (7 * weeks)) ∧
    EveryMonth anchor.truncate (ruleMinutes .monthly anchor) ∧
    EveryYear anchor.truncate (ruleMinutes .yearly anchor) := by
  refine ⟨fun cadence count ↦ ?_, fun cadence ↦ head?_ruleMinutes cadence anchor, fun days ↦ ?_,
    fun weeks ↦ ?_, everyMonth_ruleMinutes anchor, everyYear_ruleMinutes anchor⟩
  · rw [call_eq_getElem? (withinDomains_occurrences _ _ _), ahead_occurrences,
      ruleMinutes_eq_sort, dueMinutes]
  · rw [ruleMinutes_eq_sort,
      getElem?_sort_of_dvd Nat.one_pos (fun _ ↦ mem_dueMinutes_daily_iff) days, Nat.one_mul]
  · rw [ruleMinutes_eq_sort,
      getElem?_sort_of_dvd (by decide) (fun _ ↦ mem_dueMinutes_weekly_iff) weeks]

end Expression

end Recurrence
