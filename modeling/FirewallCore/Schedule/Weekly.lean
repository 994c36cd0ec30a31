import Mathlib.Algebra.Order.Group.Unbundled.Abs
import Mathlib.Algebra.Order.Ring.Nat

/-!
Weekly schedules and the time zones that they are placed in
(`schedule/schedule.go`).

Times and durations are in nanoseconds, times from the start of 1970. Dates are
counted in days from then; `time.Date` and `Time.Date` are inverse to each other
on them.
-/

namespace FirewallCore.Schedule

/-! ### Time zones -/

/-- What `Location.lookup` gives: an offset, in seconds, and from when to when it is in force. -/
structure Period where
  offset : Int
  start : Option Int
  stop : Option Int
  deriving DecidableEq

/-- The second is in the period. -/
def Period.Covers (p : Period) (sec : Int) : Prop :=
  (∀ start ∈ p.start, start ≤ sec) ∧ ∀ stop ∈ p.stop, sec < stop

/-- `time.Location`: its name, and its periods by the seconds in them. -/
structure Location where
  name : String
  lookup : Int → Period
  covers_lookup : ∀ sec, (lookup sec).Covers sec
  lookup_eq : ∀ sec other, (lookup sec).Covers other → lookup other = lookup sec
  /-- Offsets are numbers of 32 bits. -/
  abs_offset_lt : ∀ sec, |(lookup sec).offset| < 2 ^ 31

def second : Int := 1000000000
def minute : Int := 60 * second
def day : Int := 1440 * minute

namespace Location

/-- `time.UTC`. -/
def utc : Location where
  name := "UTC"
  lookup := fun _ => ⟨0, none, none⟩
  covers_lookup := fun _ => ⟨by simp, by simp⟩
  lookup_eq := fun _ _ _ => rfl
  abs_offset_lt := fun _ => by simp

variable (loc : Location) (t : Int)

/-- The offset of a time. -/
def offsetAt : Int := (loc.lookup (t / second)).offset

/-- What the clocks show. -/
def wallClock : Int := t + loc.offsetAt t * second

/-- The date, as `Time.Date` gives it. -/
def dateOf : Int := loc.wallClock t / day

/-- `Time.Weekday`; 1970 began on a Thursday. -/
def weekday : Fin 7 := Fin.ofNat 7 ((loc.dateOf t + 4) % 7).toNat

def timeOfDay : Int := loc.wallClock t % day

/-- The offset that `time.Date` finds for a time that the clocks show, in seconds. -/
def dateOffset (unix : Int) : Int :=
  let period := loc.lookup unix
  if period.offset = 0 then 0
  else
    let utc := unix - period.offset
    if (∃ start ∈ period.start, utc < start) ∨ ∃ stop ∈ period.stop, stop ≤ utc then
      (loc.lookup utc).offset
    else period.offset

/-- `time.Date` for the start of a day. -/
def date (d : Int) : Int := (d * 86400 - loc.dateOffset (d * 86400)) * second

end Location

/-- `Time.Sub`. -/
def sub (t u : Int) : Int := max (-2 ^ 63) (min (2 ^ 63 - 1) (t - u))

/-! ### Day ranges -/

/-- `dayRange`. -/
structure DayRange where
  start : Int
  stop : Int
  deriving DecidableEq

/-- `maxDayRange`. -/
def maxDayRange : Int := day

/-- The errors of a day range. -/
inductive RangeErr where
  | startNegative (start : Int)
  | endNegative (stop : Int)
  | startNotBeforeEnd (start stop : Int)
  | startTooLate (start : Int)
  | endTooLate (stop : Int)
  | startNotRounded (start : Int)
  | endNotRounded (stop : Int)
  deriving DecidableEq

/-- The text of an error, with `Duration.String`. -/
def RangeErr.text (string : Int → String) : RangeErr → String
  | startNegative start => "bad day range: start " ++ string start ++ " is negative"
  | endNegative stop => "bad day range: end " ++ string stop ++ " is negative"
  | startNotBeforeEnd start stop =>
    "bad day range: start " ++ string start ++ " is greater or equal to end " ++ string stop
  | startTooLate start => "bad day range: start " ++ string start ++ " is greater or equal to " ++ string maxDayRange
  | endTooLate stop => "bad day range: end " ++ string stop ++ " is greater than " ++ string maxDayRange
  | startNotRounded start => "bad day range: start " ++ string start ++ " isn't rounded to minutes"
  | endNotRounded stop => "bad day range: end " ++ string stop ++ " isn't rounded to minutes"

/-- `Duration.Truncate`. -/
def truncate (d m : Int) : Int := d - d.tmod m

namespace DayRange

/-- `dayRange.validate`. -/
def validate (r : DayRange) : Option RangeErr :=
  if r = ⟨0, 0⟩ then none
  else if r.start < 0 then some (.startNegative r.start)
  else if r.stop < 0 then some (.endNegative r.stop)
  else if r.stop ≤ r.start then some (.startNotBeforeEnd r.start r.stop)
  else if maxDayRange ≤ r.start then some (.startTooLate r.start)
  else if maxDayRange < r.stop then some (.endTooLate r.stop)
  else none

/-- `dayRange.contains`. -/
def contains (r : DayRange) (offset : Int) : Bool := r.start ≤ offset && offset < r.stop

end DayRange

/-- `Weekly.validate`. -/
def validate (r : DayRange) : Option RangeErr :=
  match r.validate with
  | some err => some err
  | none =>
    if truncate r.start minute ≠ r.start then some (.startNotRounded r.start)
    else if truncate r.stop minute ≠ r.stop then some (.endNotRounded r.stop)
    else none

/-! ### Schedules -/

/-- `Weekly`. The zero value has no location. -/
structure Weekly where
  location : Option Location
  days : Fin 7 → DayRange

/-- `FullWeekly`, with the location for `time.Local`. -/
def fullWeekly (loc : Location) : Weekly := ⟨some loc, fun _ => ⟨0, maxDayRange⟩⟩

/-- The time since the start of the day, which `Contains` computes. -/
def Location.sinceMidnight (loc : Location) (t : Int) : Int := sub t (loc.date (loc.dateOf t))

/-- `Weekly.Contains`. It crashes without a location. -/
def Weekly.contains (w : Weekly) (t : Int) : Option Bool :=
  w.location.map fun loc => (w.days (loc.weekday t)).contains (loc.sinceMidnight t)

end FirewallCore.Schedule

/-!
Day ranges and what the clocks show.

A day range is a time since the start of the day. This is the time that the
clocks show, unless the offset of the time zone has changed since the day began:
then the two differ by the change.
-/

namespace FirewallCore.Schedule

namespace Location

variable (loc : Location) (t : Int)

/-- The offset with which the start of the day of a time is computed. -/
def midnightOffset : Int := loc.dateOffset (loc.dateOf t * 86400)

theorem timeOfDay_bounds : 0 ≤ loc.timeOfDay t ∧ loc.timeOfDay t < maxDayRange := by
  have positive : 0 < day := by decide
  exact ⟨Int.emod_nonneg _ (Int.ne_of_gt positive), Int.emod_lt_of_pos _ positive⟩

theorem abs_dateOffset_lt (unix : Int) : |loc.dateOffset unix| < 2 ^ 31 := by
  unfold dateOffset
  dsimp only
  split
  · decide
  · split
    · exact loc.abs_offset_lt _
    · exact loc.abs_offset_lt _

theorem sub_eq_of_fits {t u : Int} (fits : |t - u| < 2 ^ 63) : sub t u = t - u := by
  rw [abs_lt] at fits
  unfold sub
  omega

/-- The time since the start of the day is what the clocks show, and the change of the offset since
then. -/
theorem sinceMidnight_eq :
    loc.sinceMidnight t = loc.timeOfDay t + (loc.midnightOffset t - loc.offsetAt t) * second := by
  have difference : t - loc.date (loc.dateOf t) =
      loc.timeOfDay t + (loc.midnightOffset t - loc.offsetAt t) * second := by
    have split : day * loc.dateOf t + loc.timeOfDay t = t + loc.offsetAt t * second :=
      Int.mul_ediv_add_emod (loc.wallClock t) day
    change t - (loc.dateOf t * 86400 - loc.midnightOffset t) * second = _
    simp only [day, minute, second] at split ⊢
    omega
  have bounds := loc.timeOfDay_bounds t
  have now := abs_lt.mp (loc.abs_offset_lt (t / second))
  have midnight := abs_lt.mp (loc.abs_dateOffset_lt (loc.dateOf t * 86400))
  have fits : |t - loc.date (loc.dateOf t)| < 2 ^ 63 := by
    rw [difference, abs_lt]
    simp only [midnightOffset, offsetAt, maxDayRange, day, minute, second] at bounds now midnight ⊢
    omega
  exact (sub_eq_of_fits fits).trans difference

/-- They are the same as long as the offset has not changed. -/
theorem sinceMidnight_eq_timeOfDay_iff :
    loc.sinceMidnight t = loc.timeOfDay t ↔ loc.offsetAt t = loc.midnightOffset t := by
  rw [sinceMidnight_eq]
  simp only [second]
  omega

end Location

section Contains

/-- A range of one nanosecond tells apart two times. -/
theorem contains_singleton {a b : Int} : (DayRange.mk a (a + 1)).contains b = true ↔ b = a := by
  unfold DayRange.contains
  rw [Bool.and_eq_true, decide_eq_true_iff, decide_eq_true_iff]
  dsimp only
  omega

variable (loc : Location) (t : Int)

/-- Whether a schedule contains a time depends on the day of the week and on the time since the
start of the day. This is the time that the clocks show, for every schedule, if and only if the
offset is still the one with which the day began. Then the full schedule contains the time. -/
theorem contains_by_clock :
    (∀ days, (Weekly.mk (some loc) days).contains t =
        some ((days (loc.weekday t)).contains (loc.sinceMidnight t))) ∧
      ((∀ days, (Weekly.mk (some loc) days).contains t =
        some ((days (loc.weekday t)).contains (loc.timeOfDay t))) ↔
        loc.offsetAt t = loc.midnightOffset t) ∧
      (loc.offsetAt t = loc.midnightOffset t → (fullWeekly loc).contains t = some true) := by
  have byElapsed (days : Fin 7 → DayRange) : (Weekly.mk (some loc) days).contains t =
      some ((days (loc.weekday t)).contains (loc.sinceMidnight t)) := rfl
  refine ⟨byElapsed, ⟨?_, ?_⟩, ?_⟩
  · intro byClock
    have both := byClock fun _ => ⟨loc.timeOfDay t, loc.timeOfDay t + 1⟩
    rw [byElapsed, Option.some_inj, contains_singleton.mpr rfl] at both
    exact (loc.sinceMidnight_eq_timeOfDay_iff t).mp (contains_singleton.mp both)
  · intro same days
    rw [byElapsed, (loc.sinceMidnight_eq_timeOfDay_iff t).mpr same]
  · intro same
    have bounds := loc.timeOfDay_bounds t
    rw [fullWeekly, byElapsed, (loc.sinceMidnight_eq_timeOfDay_iff t).mpr same]
    simp [DayRange.contains, bounds]

end Contains

/-! ### A day of 25 hours -/

/-- A zone whose offset changes once. -/
def changeOnce (name : String) (before after : Int) (when : Int) (beforeFits : |before| < 2 ^ 31)
    (afterFits : |after| < 2 ^ 31) : Location where
  name := name
  lookup := fun sec => if sec < when then ⟨before, none, some when⟩ else ⟨after, some when, none⟩
  covers_lookup := by
    intro sec
    split
    · rename_i early
      exact ⟨by simp, by simpa using early⟩
    · rename_i late
      exact ⟨by simpa using late, by simp⟩
  lookup_eq := by
    intro sec other covered
    split at covered
    · rename_i early
      have before : other < when := by simpa using covered.2
      rw [if_pos early, if_pos before]
    · rename_i late
      have after : when ≤ other := by simpa using covered.1
      rw [if_neg late, if_neg (not_lt.mpr after)]
  abs_offset_lt := by
    intro sec
    split
    · exact beforeFits
    · exact afterFits

/-- Summer time ends on Sunday, 31 October 2021, at three o'clock. -/
def autumn : Location := changeOnce "Europe/Berlin" 7200 3600 1635642000 (by decide) (by decide)

/-- Half past eleven in the evening of that day, and of the Sunday after it. -/
def lateSunday : Int := 1635719400 * second
def nextSunday : Int := lateSunday + 7 * day

/-- The full schedule does not contain the last hour of a day of 25 hours. A week later it contains
the same time of the same day of the week. -/
theorem full_week_has_hole :
    (fullWeekly autumn).contains lateSunday = some false ∧
      (fullWeekly autumn).contains nextSunday = some true ∧
      autumn.weekday lateSunday = autumn.weekday nextSunday ∧
      autumn.timeOfDay lateSunday = autumn.timeOfDay nextSunday := by
  decide +kernel

end FirewallCore.Schedule
