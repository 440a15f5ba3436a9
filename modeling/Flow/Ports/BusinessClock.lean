import Mathlib.Order.Bounds.Basic
import Mathlib.Algebra.Order.Ring.Int

/-!
# The business clock of service agreements

An agreement in business hours counts the time from nine to five on the five
working days of its work week, in the zone of the team.  `businessDeadline`
walks day by day to the end of a number of minutes, and `businessMinutes`
counts those between two instants.  `worked` is the time that both of them
measure.  A duration is a signed 64-bit number of nanoseconds: the deadline of
more minutes than it holds lies in the past (`deadline_before_start`).
-/

namespace Flow.Ports.Sla

/-- `time.Minute`, in nanoseconds. -/
abbrev minute : Int := 60000000000

abbrev hour : Int := 3600000000000

/-- A day in a zone with a fixed offset. -/
abbrev day : Int := 86400000000000

/-- A sum or product of durations, which are signed 64-bit numbers. -/
def wrap (nanoseconds : Int) : Int := nanoseconds.bmod 18446744073709551616

/-- `time.Duration(minutes) * time.Minute` -/
def duration (minutes : Int) : Int := wrap (minutes * minute)

/-- The most minutes that a duration holds. -/
abbrev maxMinutes : Int := 153722867

/-- `slaWorkWeekMonFri` and `slaWorkWeekSunThu`. -/
inductive WorkWeek where
  | monFri
  | sunThu
deriving DecidableEq, Repr

/-- `Weekday` of a local time: zero is Sunday, and the epoch a Thursday. -/
def weekday (local' : Int) : Int := (local' / day + 4) % 7

def nonWorkingDay (weekday : Int) (week : WorkWeek) : Prop :=
  if week = .sunThu then weekday = 5 ∨ weekday = 6 else weekday = 6 ∨ weekday = 0

instance (weekday : Int) (week : WorkWeek) : Decidable (nonWorkingDay weekday week) := by
  unfold nonWorkingDay
  infer_instance

/-- Nine o'clock on the day of a local time. -/
def opening (current : Int) : Int := current / day * day + 9 * hour

/-- How many turns of the loop lead to an instant at which work goes on. -/
def idleTurns (week : WorkWeek) (current : Int) : Nat :=
  if opening current + 8 * hour ≤ current then 3
  else if nonWorkingDay (weekday current) week then
    if nonWorkingDay ((weekday current + 1) % 7) week then 2 else 1
  else 0

variable {week : WorkWeek} {current remaining stop : Int}

theorem opening_next : opening (opening current + day) = opening current + day := by
  simp only [opening, day, hour]
  omega

theorem weekday_next : weekday (opening current + day) = (weekday current + 1) % 7 := by
  simp only [weekday, opening, day, hour]
  omega

theorem idleTurns_next (h : nonWorkingDay (weekday current) week ∨
    opening current + 8 * hour ≤ current) :
    idleTurns week (opening current + day) < idleTurns week current := by
  have hopen : ¬ opening current + day + 8 * hour ≤ opening current + day := by
    simp only [hour]
    omega
  simp only [idleTurns, opening_next, weekday_next]
  cases week <;> simp only [nonWorkingDay, reduceCtorEq, if_true, if_false] at h ⊢ <;>
    split_ifs <;> omega

/-- The loop of `businessDeadline`, over local times. -/
def deadlineFrom (week : WorkWeek) (current remaining : Int) : Int :=
  let start := opening current
  let close := start + 8 * hour
  if _h : nonWorkingDay (weekday current) week ∨ close ≤ current then
    deadlineFrom week (start + day) remaining
  else
    let left := max current start
    let available := close - left
    if remaining ≤ available then left + remaining
    else deadlineFrom week (start + day) (remaining - available)
termination_by (remaining.toNat, idleTurns week current)
decreasing_by
  · exact .right _ (idleTurns_next _h)
  · refine .left _ _ ?_
    have hhour : hour = 3600000000000 := rfl
    omega

def businessDeadline (start minutes offset : Int) (week : WorkWeek) : Int :=
  if minutes ≤ 0 then start
  else deadlineFrom week (start + offset) (duration (max 0 minutes)) - offset

/-- The loop of `businessMinutes`, over local times. -/
def businessDuration (week : WorkWeek) (current stop : Int) : Int :=
  if current < stop then
    let start := opening current
    let left := max current start
    let right := min stop (start + 8 * hour)
    (if nonWorkingDay (weekday current) week then 0 else max 0 (right - left)) +
      businessDuration week (start + day) stop
  else 0
termination_by (stop - current).toNat
decreasing_by
  simp only [opening, day, hour]
  omega

/-- Sums that wrap at every turn of the loop are the sum that wraps at its end. -/
def businessMinutes (start stop offset : Int) (week : WorkWeek) : Int :=
  if stop < start then
    -((wrap (businessDuration week (stop + offset) (start + offset))).tdiv minute)
  else (wrap (businessDuration week (start + offset) (stop + offset))).tdiv minute

/-! ## The time that is worked -/

def weekDays (local' : Int) : WorkWeek → Int
  | .monFri => local' / day + 3
  | .sunThu => local' / day + 4

/-- The business time up to a local time, from a fixed one. -/
def worked (week : WorkWeek) (local' : Int) : Int :=
  (5 * (weekDays local' week / 7) + min (weekDays local' week % 7) 5) * (8 * hour) +
    if weekDays local' week % 7 < 5 then max 0 (min (local' % day - 9 * hour) (8 * hour)) else 0

theorem nonWorkingDay_iff :
    nonWorkingDay (weekday current) week ↔ 5 ≤ weekDays current week % 7 := by
  cases week <;> simp only [nonWorkingDay, weekday, weekDays, reduceCtorEq, if_true, if_false] <;>
    omega

theorem weekDays_sub (current stop : Int) (week : WorkWeek) :
    weekDays stop week - weekDays current week = stop / day - current / day := by
  cases week <;> simp only [weekDays] <;> omega

theorem worked_le (week : WorkWeek) (h : current ≤ stop) :
    worked week current ≤ worked week stop := by
  have hdays := weekDays_sub current stop week
  simp only [worked, day, hour] at *
  omega

/-- No more is worked than passes. -/
theorem worked_sub_le (week : WorkWeek) (h : current ≤ stop) :
    worked week stop - worked week current ≤ stop - current := by
  have hdays := weekDays_sub current stop week
  simp only [worked, day, hour] at *
  omega

/-- Until the opening of the next day, the time within the hours of a working
day is worked. -/
theorem worked_day (hleft : current ≤ stop) (hright : stop ≤ opening current + day) :
    worked week stop = worked week current +
      if nonWorkingDay (weekday current) week then 0
      else max 0 (min stop (opening current + 8 * hour) - max current (opening current)) := by
  have hdays := weekDays_sub current stop week
  simp only [nonWorkingDay_iff, worked, opening, day, hour] at *
  omega

theorem lt_opening_next : current < opening current + day := by
  simp only [opening, day, hour]
  omega

theorem businessDuration_eq (h : current ≤ stop) :
    businessDuration week current stop = worked week stop - worked week current := by
  fun_induction businessDuration week current stop with
  | case1 current hlt start left right ih =>
    have hnext : worked week (min stop (start + day)) = worked week current +
        if nonWorkingDay (weekday current) week then 0 else max 0 (right - left) := by
      rw [worked_day (le_min h lt_opening_next.le) (min_le_right _ _), min_assoc,
        min_eq_right (show start + 8 * hour ≤ start + day by simp only [day, hour]; omega)]
    rcases le_total (start + day) stop with hstop | hstop
    · rw [min_eq_right hstop] at hnext
      rw [ih hstop]
      omega
    · rw [min_eq_left hstop] at hnext
      rw [businessDuration]
      omega
  | case2 current hlt =>
    rw [le_antisymm h (not_lt.mp hlt), sub_self]

/-- Until the opening after a day off, or after the end of a day, nothing is worked. -/
theorem worked_skip (h : nonWorkingDay (weekday current) week ∨
    opening current + 8 * hour ≤ current) :
    worked week (opening current + day) = worked week current := by
  rw [worked_day lt_opening_next.le le_rfl]
  split_ifs with hoff
  · omega
  · have hclose := h.resolve_left hoff
    omega

/-- The walk ends at the earliest time with the rest worked. -/
theorem deadlineFrom_spec (week : WorkWeek) (current : Int) (h : 0 < remaining) :
    worked week (deadlineFrom week current remaining) = worked week current + remaining ∧
      ∀ t < deadlineFrom week current remaining,
        worked week t < worked week current + remaining := by
  fun_induction deadlineFrom week current remaining with
  | case1 current remaining start close hskip ih =>
    rw [← worked_skip hskip]
    exact ih h
  | case2 current remaining start close hskip left available hfits =>
    have hday := fun t hleft hright => @worked_day week current t hleft hright
    obtain ⟨hon, hclose⟩ := not_or.mp hskip
    simp only [if_neg hon, close, available, day, hour] at *
    refine ⟨by rw [hday _ (by omega) (by omega)]; omega, fun t ht => ?_⟩
    rcases le_total current t with hle | hle
    · rw [hday t hle (by omega)]
      omega
    · have hbefore := worked_le week hle
      omega
  | case3 current remaining start close hskip left available hfits ih =>
    obtain ⟨hon, hclose⟩ := not_or.mp hskip
    have hnext : worked week (start + day) = worked week current + available := by
      rw [worked_day lt_opening_next.le le_rfl, if_neg hon]
      simp only [close, available, day, hour] at *
      omega
    have hrest := ih (by omega)
    exact ⟨by omega, fun t ht => by have := hrest.2 t ht; omega⟩

/-- With nothing left to wait for, the walk ends where nothing more is worked. -/
theorem worked_deadlineFrom_le (week : WorkWeek) (current : Int) (h : remaining ≤ 0) :
    worked week (deadlineFrom week current remaining) ≤ worked week current := by
  fun_induction deadlineFrom week current remaining with
  | case1 current remaining start close hskip ih =>
    exact worked_skip hskip ▸ ih h
  | case2 current remaining start close hskip left available hfits =>
    have hstart : worked week left = worked week current := by
      rw [@worked_day week current left (le_max_left _ _)
        (max_le lt_opening_next.le (by simp only [start, day]; omega))]
      split_ifs
      · omega
      · omega
    exact hstart ▸ worked_le week (by omega)
  | case3 current remaining start close hskip left available hfits ih =>
    have hhour : hour = 3600000000000 := rfl
    omega

variable {start offset minutes other : Int}

theorem wrap_eq {nanoseconds : Int} (hleft : -9223372036854775808 ≤ nanoseconds)
    (hright : nanoseconds < 9223372036854775808) : wrap nanoseconds = nanoseconds :=
  Int.bmod_eq_of_le (by omega) (by omega)

theorem duration_eq (h : 0 < minutes) (hmax : minutes ≤ maxMinutes) :
    duration (max 0 minutes) = minutes * minute := by
  rw [max_eq_right h.le]
  simp only [maxMinutes] at hmax
  exact wrap_eq (by simp only [minute]; omega) (by simp only [minute]; omega)

theorem worked_deadline (start offset : Int) (week : WorkWeek) (h : 0 < minutes)
    (hmax : minutes ≤ maxMinutes) :
    worked week (businessDeadline start minutes offset week + offset) =
      worked week (start + offset) + minutes * minute ∧
    ∀ t < businessDeadline start minutes offset week,
      worked week (t + offset) < worked week (start + offset) + minutes * minute := by
  have hrest : 0 < minutes * minute := by
    simp only [minute]
    omega
  obtain ⟨hdue, hleast⟩ := deadlineFrom_spec week (start + offset) hrest
  rw [businessDeadline, if_neg (not_le.mpr h), duration_eq h hmax, sub_add_cancel]
  exact ⟨hdue, fun t ht => hleast _ (by omega)⟩

theorem worked_shift_le (offset : Int) (week : WorkWeek) (h : start ≤ other) :
    worked week (start + offset) ≤ worked week (other + offset) :=
  worked_le week (by omega)

/-- The business minutes that a duration can hold. -/
theorem businessMinutes_eq (hstart : start ≤ other)
    (hmax : worked week (other + offset) - worked week (start + offset) < 9223372036854775808) :
    businessMinutes start other offset week =
      (worked week (other + offset) - worked week (start + offset)) / minute := by
  have hle := worked_shift_le offset week hstart
  rw [businessMinutes, if_neg (not_lt.mpr hstart), businessDuration_eq (by omega),
    wrap_eq (by omega) hmax, Int.tdiv_eq_ediv_of_nonneg (by omega)]

/-- No other number of minutes comes out of a duration. -/
theorem businessMinutes_le : businessMinutes start other offset week ≤ maxMinutes := by
  have hrange (nanoseconds : Int) : -maxMinutes ≤ (wrap nanoseconds).tdiv minute ∧
      (wrap nanoseconds).tdiv minute ≤ maxMinutes := by
    have hle : -9223372036854775808 ≤ wrap nanoseconds := Int.le_bmod (by decide)
    have hlt : wrap nanoseconds < 9223372036854775808 := Int.bmod_lt (by decide)
    rw [Int.tdiv_eq_ediv]
    simp only [maxMinutes, minute, show Int.sign 60000000000 = 1 from rfl]
    split_ifs <;> omega
  unfold businessMinutes
  split
  · have := (hrange (businessDuration week (other + offset) (start + offset))).1
    omega
  · exact (hrange _).2

theorem businessMinutes_nonpos (hstart : other < start)
    (hmax : start - other < 9223372036854775808) :
    businessMinutes start other offset week ≤ 0 := by
  have hle := worked_shift_le offset week hstart.le
  have hworked := worked_sub_le week (show other + offset ≤ start + offset by omega)
  rw [businessMinutes, if_pos hstart, businessDuration_eq (by omega),
    wrap_eq (by omega) (by omega), Int.tdiv_eq_ediv_of_nonneg (by omega)]
  simp only [minute]
  omega

theorem start_le_deadline (h : 0 < minutes) (hmax : minutes ≤ maxMinutes) :
    start ≤ businessDeadline start minutes offset week := by
  by_contra hlt
  have hdue := (worked_deadline start offset week h hmax).1
  have := worked_shift_le offset week (not_le.mp hlt).le
  simp only [minute] at *
  omega

/-- Deadlines keep the order of the starts and of the minutes. -/
theorem businessDeadline_le {minutes' : Int} (hstart : start ≤ other) (hminutes : 0 < minutes)
    (hle : minutes ≤ minutes') (hmax : minutes' ≤ maxMinutes) :
    businessDeadline start minutes offset week ≤ businessDeadline other minutes' offset week := by
  by_contra hlt
  have hbefore := (worked_deadline start offset week hminutes (hle.trans hmax)).2 _ (not_le.mp hlt)
  have hdue := (worked_deadline other offset week (hminutes.trans_le hle) hmax).1
  have := worked_shift_le offset week hstart
  simp only [minute] at *
  omega

/-- The minutes after a deadline end where all of them end, if a duration can hold them. -/
theorem businessDeadline_add_iff {more : Int} (hminutes : 0 < minutes)
    (hmax : minutes ≤ maxMinutes) (hmore : 0 < more) (hmax' : more ≤ maxMinutes) :
    businessDeadline (businessDeadline start minutes offset week) more offset week =
      businessDeadline start (minutes + more) offset week ↔ minutes + more ≤ maxMinutes := by
  obtain ⟨hfirst, -⟩ := worked_deadline start offset week hminutes hmax
  obtain ⟨hdue, hbefore⟩ :=
    worked_deadline (businessDeadline start minutes offset week) offset week hmore hmax'
  rw [hfirst, add_assoc, ← add_mul] at hdue hbefore
  constructor
  · intro heq
    by_contra hover
    -- the sum wraps to a negative duration
    have hnegative : duration (max 0 (minutes + more)) ≤ 0 := by
      simp only [maxMinutes] at *
      rw [max_eq_right (by omega), duration, wrap, Int.bmod_def, minute,
        Int.emod_eq_of_lt (by omega) (by omega)]
      omega
    have hle := worked_deadlineFrom_le week (start + offset) hnegative
    rw [heq, businessDeadline, if_neg (by omega), sub_add_cancel] at hdue
    simp only [minute] at hdue
    omega
  · intro hmax
    obtain ⟨hsum, hleast⟩ := worked_deadline start offset week (add_pos hminutes hmore) hmax
    refine le_antisymm (not_lt.mp fun hlt => ?_) (not_lt.mp fun hlt => ?_)
    · exact (hbefore _ hlt).ne hsum
    · exact (hleast _ hlt).ne hdue

/-- **A deadline is exact as long as a duration can hold its minutes**: exactly then it has its
business minutes elapsed, and it is the earliest instant with them, of those at most 292 years
before the start; the deadline from a deadline is that of the sum; a later start or more minutes
give no earlier one. -/
theorem businessDeadline_exact (start offset a b : Int) (week : WorkWeek) (ha : 0 < a)
    (hb : 0 < b) :
    (businessMinutes start (businessDeadline start a offset week) offset week = a ∧
      IsLeast {t | start - 9223372036854775808 < t ∧ a ≤ businessMinutes start t offset week}
        (businessDeadline start a offset week) ↔ a ≤ maxMinutes) ∧
    (a ≤ maxMinutes → b ≤ maxMinutes →
      (businessDeadline (businessDeadline start a offset week) b offset week =
        businessDeadline start (a + b) offset week ↔ a + b ≤ maxMinutes)) ∧
    ∀ start' a', start ≤ start' → a ≤ a' → a' ≤ maxMinutes →
      businessDeadline start a offset week ≤ businessDeadline start' a' offset week := by
  refine ⟨⟨fun h => h.1 ▸ businessMinutes_le, fun hmax => ?_⟩,
    fun hmax hmax' => businessDeadline_add_iff ha hmax hb hmax',
    fun _ _ hstart hle hmax => businessDeadline_le hstart ha hle hmax⟩
  obtain ⟨hdue, hbefore⟩ := worked_deadline start offset week ha hmax
  have hstart : start ≤ businessDeadline start a offset week := start_le_deadline ha hmax
  have hminutes : businessMinutes start (businessDeadline start a offset week) offset week = a := by
    rw [businessMinutes_eq hstart (by simp only [minute, maxMinutes] at *; omega)]
    simp only [minute] at *
    omega
  refine ⟨hminutes, ⟨by omega, hminutes.ge⟩, fun t ⟨hnear, ht⟩ => not_lt.mp fun hlt => ?_⟩
  rcases lt_or_ge t start with hlt' | hle
  · have := @businessMinutes_nonpos week start offset t hlt' (by omega)
    omega
  · have hworked := hbefore t hlt
    rw [businessMinutes_eq hle (by simp only [minute, maxMinutes] at *; omega)] at ht
    simp only [minute] at *
    omega

theorem businessDeadline_exact_week :
    businessMinutes 0 (businessDeadline 0 2400 0 .monFri) 0 .monFri = 2400 ∧
      businessDeadline (businessDeadline 0 2400 0 .monFri) 153720467 0 .monFri =
        businessDeadline 0 (2400 + 153720467) 0 .monFri := by
  obtain ⟨hexact, hadd, -⟩ :=
    businessDeadline_exact 0 0 2400 153720467 .monFri (by decide) (by decide)
  exact ⟨(hexact.mpr (by decide)).1, (hadd (by decide) (by decide)).mpr (by decide)⟩

/-- From 1970 on, the deadline of one minute too many lies in 1677. -/
theorem deadline_before_start :
    businessDeadline 0 (maxMinutes + 1) 0 .monFri = -9223339593709551616 := by
  rw [businessDeadline, deadlineFrom]
  decide

end Flow.Ports.Sla
