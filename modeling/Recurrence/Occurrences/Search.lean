import Recurrence.Event
import Recurrence.Occurrences.Matcher

/-!
The first matching minute at or after a minute. A search moves a cursor from coarse to
fine: a part that is not selected jumps to the next selected value and resets all finer
parts, and a part without a later selected value carries into the next coarser one.
Every move leaves less of the years to search (`remaining_lt_of_step`), so the search
ends.

The calendar repeats after 400 years, and a search looks no further than that. It stops
at a match, after its last year, at the end of the calendar, or at once where a field
selects nothing; these are the four kinds of `Outcome`, and only the horizon makes a
log entry.
-/

set_option autoImplicit false
set_option relaxedAutoImplicit false

namespace Recurrence.Occurrences

open Recurrence.Calendar

/-! ### Cursors -/

/-- Where a search stands. A part may be one past its greatest value until the next
move carries it. -/
structure Cursor where
  year : Int
  month : Nat
  day : Nat
  hour : Nat
  minute : Nat
deriving DecidableEq

namespace Cursor

/-- The cursor at a minute. -/
def ofMinute (moment : CalendarMinute) : Cursor :=
  ⟨moment.date.year, moment.date.month, moment.date.day, moment.hour, moment.minute⟩

/-- The first minute of the next year. -/
def nextYear (cursor : Cursor) : Cursor :=
  ⟨cursor.year + 1, 1, 1, 0, 0⟩

/-- The first minute of the next month. -/
def nextMonth (cursor : Cursor) : Cursor :=
  ⟨cursor.year, cursor.month + 1, 1, 0, 0⟩

/-- The first minute of the next day. -/
def nextDay (cursor : Cursor) : Cursor :=
  ⟨cursor.year, cursor.month, cursor.day + 1, 0, 0⟩

/-- The first minute of the next hour. -/
def nextHour (cursor : Cursor) : Cursor :=
  ⟨cursor.year, cursor.month, cursor.day, cursor.hour + 1, 0⟩

/-- The cursor itself if it stands in a month already, else the start of that month. -/
def toMonth (cursor : Cursor) (month : Nat) : Cursor :=
  if month = cursor.month then cursor else ⟨cursor.year, month, 1, 0, 0⟩

/-- The cursor itself if it stands on a day already, else the start of that day. -/
def toDay (cursor : Cursor) (day : Nat) : Cursor :=
  if day = cursor.day then cursor else ⟨cursor.year, cursor.month, day, 0, 0⟩

/-- The cursor itself if it stands in an hour already, else the start of that hour. -/
def toHour (cursor : Cursor) (hour : Nat) : Cursor :=
  if hour = cursor.hour then cursor else ⟨cursor.year, cursor.month, cursor.day, hour, 0⟩

/-- A bound on the moves that a cursor can still make up to the end of a year. -/
def remaining (lastYear : Int) (cursor : Cursor) : Nat :=
  (((lastYear + 1 - cursor.year).toNat * 65 + (64 - cursor.month)) * 65 + (64 - cursor.day)) *
    65 + (64 - cursor.hour)

@[simp]
theorem month_toMonth (cursor : Cursor) (month : Nat) : (cursor.toMonth month).month = month := by
  unfold toMonth
  split <;> simp_all

@[simp]
theorem day_toDay (cursor : Cursor) (day : Nat) : (cursor.toDay day).day = day := by
  unfold toDay
  split <;> simp_all

@[simp]
theorem hour_toHour (cursor : Cursor) (hour : Nat) : (cursor.toHour hour).hour = hour := by
  unfold toHour
  split <;> simp_all

@[simp]
theorem year_toMonth (cursor : Cursor) (month : Nat) :
    (cursor.toMonth month).year = cursor.year := by
  unfold toMonth
  split <;> rfl

@[simp]
theorem year_toDay (cursor : Cursor) (day : Nat) : (cursor.toDay day).year = cursor.year := by
  unfold toDay
  split <;> rfl

@[simp]
theorem month_toDay (cursor : Cursor) (day : Nat) : (cursor.toDay day).month = cursor.month := by
  unfold toDay
  split <;> rfl

@[simp]
theorem year_toHour (cursor : Cursor) (hour : Nat) : (cursor.toHour hour).year = cursor.year := by
  unfold toHour
  split <;> rfl

@[simp]
theorem month_toHour (cursor : Cursor) (hour : Nat) :
    (cursor.toHour hour).month = cursor.month := by
  unfold toHour
  split <;> rfl

@[simp]
theorem day_toHour (cursor : Cursor) (hour : Nat) : (cursor.toHour hour).day = cursor.day := by
  unfold toHour
  split <;> rfl

theorem remaining_toMonth_le (lastYear : Int) {cursor : Cursor} {month : Nat}
    (hle : cursor.month ≤ month) (hlt : month < 64) :
    (cursor.toMonth month).remaining lastYear ≤ cursor.remaining lastYear := by
  by_cases h : month = cursor.month
  · simp [toMonth, h]
  · simp only [toMonth, h, ↓reduceIte, remaining]
    omega

theorem remaining_toDay_le (lastYear : Int) {cursor : Cursor} {day : Nat}
    (hle : cursor.day ≤ day) (hlt : day < 64) :
    (cursor.toDay day).remaining lastYear ≤ cursor.remaining lastYear := by
  by_cases h : day = cursor.day
  · simp [toDay, h]
  · simp only [toDay, h, ↓reduceIte, remaining]
    omega

theorem remaining_toHour_le (lastYear : Int) {cursor : Cursor} {hour : Nat}
    (hle : cursor.hour ≤ hour) :
    (cursor.toHour hour).remaining lastYear ≤ cursor.remaining lastYear := by
  by_cases h : hour = cursor.hour
  · simp [toHour, h]
  · simp only [toHour, h, ↓reduceIte, remaining]
    omega

end Cursor

/-! ### Outcomes -/

/-- How a search ends. -/
inductive Outcome
  /-- At the first matching minute. -/
  | found (moment : CalendarMinute)
  /-- At once, because a field selects nothing. -/
  | nothingSelected
  /-- After the last year that was asked for. -/
  | pastLimit
  /-- After the last year within the horizon. -/
  | pastHorizon
  /-- At the end of the calendar. -/
  | pastCalendar
deriving DecidableEq

namespace Outcome

/-- The minute that was found. -/
def moment? : Outcome → Option CalendarMinute
  | found moment => some moment
  | _ => none

/-- The log entries of a search from a minute that ended so. -/
def events (start : CalendarMinute) : Outcome → List Event
  | pastHorizon => [.nothingWithinHorizon start]
  | _ => []

end Outcome

/-- What a search does next. -/
inductive Move
  | goTo (cursor : Cursor)
  | stop (outcome : Outcome)
deriving DecidableEq

/-- The years that a search covers: how far it may look at most, and where it ends. -/
structure Reach where
  horizon : Int
  lastYear : Int
deriving DecidableEq

namespace Reach

/-- The calendar repeats after so many years, so nothing that is missing from them is
ever found. -/
def horizonYears : Int := 400

/-- The reach of a search from a year, with a limit or without. -/
def ofYear (year : Int) (limit : Option Int) : Reach :=
  let horizon := year + horizonYears
  ⟨horizon, limit.elim horizon (min · horizon)⟩

end Reach

/-! ### One move -/

namespace Matcher

/-- The first selected day of a month from a day on whose weekday is selected too. The
selected days are tried one after another, up to the end of the month. -/
def firstDay? (matcher : Matcher) (first : Date) (start : Nat) : Option Nat :=
  match _ : matcher.days.nextFrom? start with
  | none => none
  | some day =>
    if first.monthLength < day then none
    else if matcher.weekdays.contains ((first.weekday + day - 1) % 7) then some day
    else matcher.firstDay? first (day + 1)
termination_by 64 - start
decreasing_by
  have := ValueSet.nextFrom?_bounds ‹_›
  omega

/-- The move of a search whose month and day are selected. -/
def stepTime (matcher : Matcher) (cursor : Cursor) : Move :=
  match matcher.hours.nextFrom? cursor.hour with
  | none => .goTo cursor.nextDay
  | some hour =>
    let atHour := cursor.toHour hour
    match matcher.minutes.nextFrom? atHour.minute with
    | none => .goTo atHour.nextHour
    | some minute =>
      match CalendarMinute.ofParts? atHour.year atHour.month atHour.day atHour.hour minute with
      | none => .stop .pastCalendar
      | some moment => .stop (.found moment)

/-- The move of a search whose month is selected. -/
def stepDay (matcher : Matcher) (cursor : Cursor) : Move :=
  match Date.ofParts? cursor.year cursor.month 1 with
  | none => .stop .pastCalendar
  | some first =>
    match matcher.firstDay? first cursor.day with
    | none => .goTo cursor.nextMonth
    | some day => matcher.stepTime (cursor.toDay day)

/-- The next move of a search. -/
def step (matcher : Matcher) (reach : Reach) (cursor : Cursor) : Move :=
  if reach.lastYear < cursor.year then
    .stop (if reach.lastYear = reach.horizon then .pastHorizon else .pastLimit)
  else
    match matcher.months.nextFrom? cursor.month with
    | none => .goTo cursor.nextYear
    | some month => matcher.stepDay (cursor.toMonth month)

/-! ### Progress -/

theorem firstDay?_bounds {matcher : Matcher} {first : Date} {start day : Nat}
    (h : matcher.firstDay? first start = some day) : start ≤ day ∧ day ≤ first.monthLength := by
  fun_induction firstDay? matcher first start with
  | case1 => cases h
  | case2 => cases h
  | case3 start found hfound hle _ =>
    cases h
    exact ⟨(ValueSet.nextFrom?_bounds hfound).1, Nat.le_of_not_lt hle⟩
  | case4 start found hfound _ _ ih =>
    have hbounds := ValueSet.nextFrom?_bounds hfound
    have hlater := ih h
    omega

theorem remaining_stepTime {matcher : Matcher} {cursor next : Cursor} {lastYear : Int}
    (hday : cursor.day < 64) (h : matcher.stepTime cursor = .goTo next) :
    next.remaining lastYear < cursor.remaining lastYear := by
  unfold stepTime at h
  split at h
  · cases h
    simp only [Cursor.remaining, Cursor.nextDay]
    omega
  · rename_i hour hhour
    have hbounds := ValueSet.nextFrom?_bounds hhour
    simp only at h
    split at h
    · cases h
      refine Nat.lt_of_lt_of_le ?_ (Cursor.remaining_toHour_le lastYear hbounds.1)
      simp only [Cursor.remaining, Cursor.nextHour, Cursor.hour_toHour]
      omega
    · split at h <;> cases h

theorem remaining_stepDay {matcher : Matcher} {cursor next : Cursor} {lastYear : Int}
    (hmonth : cursor.month < 64) (h : matcher.stepDay cursor = .goTo next) :
    next.remaining lastYear < cursor.remaining lastYear := by
  unfold stepDay at h
  split at h
  · cases h
  · rename_i first hfirst
    split at h
    · cases h
      simp only [Cursor.remaining, Cursor.nextMonth]
      omega
    · rename_i day hday
      have hbounds := firstDay?_bounds hday
      have hlength : first.monthLength ≤ 31 := daysInMonth_le first.year first.month
      have hday_lt : day < 64 := by omega
      exact Nat.lt_of_lt_of_le (remaining_stepTime (by simpa using hday_lt) h)
        (Cursor.remaining_toDay_le lastYear hbounds.1 hday_lt)

/-- Every move leaves less to search. -/
theorem remaining_lt_of_step {matcher : Matcher} {reach : Reach} {cursor next : Cursor}
    (h : matcher.step reach cursor = .goTo next) :
    next.remaining reach.lastYear < cursor.remaining reach.lastYear := by
  unfold step at h
  split at h
  · cases h
  · rename_i hyear
    split at h
    · cases h
      simp only [Cursor.remaining, Cursor.nextYear]
      omega
    · rename_i month hmonth
      have hbounds := ValueSet.nextFrom?_bounds hmonth
      exact Nat.lt_of_lt_of_le (remaining_stepDay (by simpa using hbounds.2) h)
        (Cursor.remaining_toMonth_le reach.lastYear hbounds.1 hbounds.2)

/-! ### The search -/

/-- How a search from a cursor ends. -/
def run (matcher : Matcher) (reach : Reach) (cursor : Cursor) : Outcome :=
  match _ : matcher.step reach cursor with
  | .stop outcome => outcome
  | .goTo next => run matcher reach next
termination_by cursor.remaining reach.lastYear
decreasing_by exact remaining_lt_of_step ‹_›

/-- How the search from a minute ends, in the years up to a limit if there is one. -/
def search (matcher : Matcher) (start : CalendarMinute) (limit : Option Int) : Outcome :=
  if matcher.hasEmptyField then
    .nothingSelected
  else
    matcher.run (Reach.ofYear start.date.year limit) (Cursor.ofMinute start)

/-- The first matching minute at or after a minute, in the years up to a limit if there
is one. -/
def firstAtOrAfter? (matcher : Matcher) (start : CalendarMinute) (limit : Option Int) :
    Option CalendarMinute :=
  (matcher.search start limit).moment?

end Matcher

end Recurrence.Occurrences
