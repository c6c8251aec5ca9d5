import MatchBench.Lib.Form

/-!
# Timestamps

`format_fix_timestamp` of the bot fleet counts years and months off the days since 1970.  The
other way is independent of it: a date has a day number in closed form (`DateTime.days`), and the
bytes are read digit by digit (`parse`).  `parse_formatFixTimestamp` says that what is written is a
valid date of the proleptic Gregorian calendar, and the right one, for every 64-bit number of
nanoseconds.
-/

namespace MatchBench.Bot

open List

/-- The test that stands twice in `format_fix_timestamp`. -/
def isLeap (year : Nat) : Bool := (year % 4 == 0 && year % 100 != 0) || year % 400 == 0

def daysInYear (year : Nat) : Nat := if isLeap year then 366 else 365

/-- The loop over the years. -/
def yearLoop (year daysLeft : Nat) : Nat × Nat :=
  if daysLeft < daysInYear year then (year, daysLeft)
  else yearLoop (year + 1) (daysLeft - daysInYear year)
termination_by daysLeft
decreasing_by
  rename_i h
  have : 0 < daysInYear year := by unfold daysInYear; split <;> decide
  omega

def monthDays (leap : Bool) : List Nat :=
  if leap then [31, 29, 31, 30, 31, 30, 31, 31, 30, 31, 30, 31]
  else [31, 28, 31, 30, 31, 30, 31, 31, 30, 31, 30, 31]

/-- The loop over the months. -/
def monthLoop : List Nat → Nat → Nat → Nat × Nat
  | [], month, daysLeft => (month, daysLeft)
  | days :: rest, month, daysLeft =>
      if daysLeft < days then (month, daysLeft) else monthLoop rest (month + 1) (daysLeft - days)

/-- `b'0' + n as u8`. -/
def digitByte (n : Nat) : UInt8 := 48 + UInt8.ofNat n

def formatFixTimestamp (nanos : UInt64) : List UInt8 :=
  let millis := nanos.toNat / 1000000
  let totalSecs := millis / 1000
  let ms := millis % 1000
  let totalMins := totalSecs / 60
  let sec := totalSecs % 60
  let totalHours := totalMins / 60
  let min := totalMins % 60
  let totalDays := totalHours / 24
  let hour := totalHours % 24
  let (year, daysLeft) := yearLoop 1970 totalDays
  let (month, daysLeft) := monthLoop (monthDays (isLeap year)) 1 daysLeft
  let day := daysLeft + 1
  [digitByte (year / 1000), digitByte (year / 100 % 10), digitByte (year / 10 % 10),
    digitByte (year % 10), digitByte (month / 10), digitByte (month % 10), digitByte (day / 10),
    digitByte (day % 10), 45, digitByte (hour / 10), digitByte (hour % 10), 58,
    digitByte (min / 10), digitByte (min % 10), 58, digitByte (sec / 10), digitByte (sec % 10), 46,
    digitByte (ms / 100), digitByte (ms / 10 % 10), digitByte (ms % 10)]

/-! ### Dates -/

structure DateTime where
  year : Nat
  month : Nat
  day : Nat
  hour : Nat
  minute : Nat
  second : Nat
  milli : Nat
  deriving DecidableEq, Repr

namespace DateTime

def daysInMonth (year month : Nat) : Nat :=
  match month with
  | 2 => if year % 4 = 0 ∧ (year % 100 ≠ 0 ∨ year % 400 = 0) then 29 else 28
  | 4 | 6 | 9 | 11 => 30
  | _ => 31

/-- A date of the proleptic Gregorian calendar, and a time of day. -/
structure Valid (d : DateTime) : Prop where
  year : 1 ≤ d.year
  month : 1 ≤ d.month ∧ d.month ≤ 12
  day : 1 ≤ d.day ∧ d.day ≤ daysInMonth d.year d.month
  hour : d.hour < 24
  minute : d.minute < 60
  second : d.second < 60
  milli : d.milli < 1000

/-- The days before a year, from the year 1 on. -/
def daysBeforeYear (year : Nat) : Nat :=
  365 * (year - 1) + (year - 1) / 4 + (year - 1) / 400 - (year - 1) / 100

def daysBeforeMonth (year month : Nat) : Nat :=
  ((List.range (month - 1)).map fun m => daysInMonth year (m + 1)).sum

/-- The days since 1970-01-01. -/
def days (d : DateTime) : Int :=
  (daysBeforeYear d.year + daysBeforeMonth d.year d.month + (d.day - 1) : Nat) -
    (daysBeforeYear 1970 : Nat)

/-- The milliseconds since 1970-01-01 UTC. -/
def unixMillis (d : DateTime) : Int :=
  (((d.days * 24 + d.hour) * 60 + d.minute) * 60 + d.second) * 1000 + d.milli

/-- A number that is written with digits only. -/
def number (b : List UInt8) : Option Nat :=
  if ∀ x ∈ b, 48 ≤ x ∧ x ≤ 57 then some (b.foldl (fun n x => n * 10 + (x.toNat - 48)) 0) else none

/-- Read `YYYYMMDD-HH:MM:SS.mmm`. -/
def parse (b : List UInt8) : Option DateTime :=
  if b.length = 21 ∧ b[8]? = some 45 ∧ b[11]? = some 58 ∧ b[14]? = some 58 ∧ b[17]? = some 46 then do
    let year ← number (b.take 4)
    let month ← number ((b.drop 4).take 2)
    let day ← number ((b.drop 6).take 2)
    let hour ← number ((b.drop 9).take 2)
    let minute ← number ((b.drop 12).take 2)
    let second ← number ((b.drop 15).take 2)
    let milli ← number ((b.drop 18).take 3)
    return ⟨year, month, day, hour, minute, second, milli⟩
  else none

end DateTime

open DateTime

/-! ### The loops -/

variable {year n : Nat}

theorem isLeap_iff : isLeap year = true ↔ year % 4 = 0 ∧ (year % 100 ≠ 0 ∨ year % 400 = 0) := by
  simp only [isLeap, Bool.or_eq_true, Bool.and_eq_true, beq_iff_eq, bne_iff_ne]
  omega

theorem daysBeforeYear_succ (h : 1 ≤ year) :
    daysBeforeYear (year + 1) = daysBeforeYear year + daysInYear year := by
  obtain ⟨y, rfl⟩ := Nat.exists_eq_add_of_le' h
  have hle : y / 100 ≤ y / 4 := Nat.div_le_div_left (by decide) (by decide)
  have hcentury : 400 ∣ y + 1 → 100 ∣ y + 1 := Dvd.dvd.trans (by decide)
  have hfour : 100 ∣ y + 1 → 4 ∣ y + 1 := Dvd.dvd.trans (by decide)
  simp only [daysBeforeYear, daysInYear, isLeap_iff, Nat.add_sub_cancel, Nat.succ_div, ne_eq,
    ← Nat.dvd_iff_mod_eq_zero]
  generalize y / 4 = a, y / 100 = b at *
  by_cases h₄ : 4 ∣ y + 1 <;> by_cases h₁₀₀ : 100 ∣ y + 1 <;> by_cases h₄₀₀ : 400 ∣ y + 1 <;>
    simp_all <;> omega

/-- The days that are counted off are those of the years. -/
theorem yearLoop_spec (year daysLeft : Nat) (h : 1 ≤ year) :
    year ≤ (yearLoop year daysLeft).1 ∧
      daysBeforeYear (yearLoop year daysLeft).1 + (yearLoop year daysLeft).2 =
        daysBeforeYear year + daysLeft ∧
      (yearLoop year daysLeft).2 < daysInYear (yearLoop year daysLeft).1 := by
  fun_induction yearLoop year daysLeft with
  | case1 year daysLeft hlt => exact ⟨le_rfl, rfl, hlt⟩
  | case2 year daysLeft hlt ih =>
    obtain ⟨hle, hsum, hlast⟩ := ih (by omega)
    rw [daysBeforeYear_succ h] at hsum
    exact ⟨by omega, by omega, hlast⟩

theorem monthLoop_spec (ls : List Nat) (month daysLeft : Nat) (h : daysLeft < ls.sum) :
    ∃ k, ∃ hk : k < ls.length, ∃ left < ls[k],
      monthLoop ls month daysLeft = (month + k, left) ∧ (ls.take k).sum + left = daysLeft := by
  induction ls generalizing month daysLeft with
  | nil => simp at h
  | cons days rest ih =>
    rw [monthLoop]
    split
    next hlt =>
      exact ⟨0, by simp, daysLeft, hlt, rfl, by simp⟩
    rename_i hge
    obtain ⟨k, hk, left, hleft, hloop, hsum⟩ := ih (month + 1) (daysLeft - days) (by
      rw [sum_cons] at h
      omega)
    refine ⟨k + 1, by simpa using hk, left, by simpa using hleft, ?_, ?_⟩
    · rw [hloop, add_assoc, add_comm 1]
    · rw [take_succ_cons, sum_cons]
      omega

theorem monthDays_eq (year : Nat) :
    monthDays (isLeap year) = (List.range 12).map fun m => daysInMonth year (m + 1) := by
  by_cases h : isLeap year = true
  · simp [monthDays, h, List.range, List.range.loop, daysInMonth, isLeap_iff.mp h]
  · have h' := h
    rw [isLeap_iff] at h'
    simp [monthDays, h, List.range, List.range.loop, daysInMonth, h']

theorem sum_monthDays (year : Nat) : (monthDays (isLeap year)).sum = daysInYear year := by
  rw [daysInYear]
  cases isLeap year <;> rfl

/-- The month and the day that the loop ends with. -/
theorem monthLoop_date (year daysLeft : Nat) (h : daysLeft < daysInYear year) :
    ∃ month left, monthLoop (monthDays (isLeap year)) 1 daysLeft = (month, left) ∧
      (1 ≤ month ∧ month ≤ 12) ∧ left < daysInMonth year month ∧
      daysBeforeMonth year month + left = daysLeft := by
  obtain ⟨k, hk, left, hleft, hloop, hsum⟩ :=
    monthLoop_spec (monthDays (isLeap year)) 1 daysLeft (by rwa [sum_monthDays])
  simp only [monthDays_eq, length_map, length_range] at hk hleft hloop hsum
  rw [monthDays_eq]
  refine ⟨1 + k, left, hloop, by omega, by simpa [Nat.add_comm] using hleft, ?_⟩
  rw [← hsum, daysBeforeMonth, Nat.add_sub_cancel_left, ← map_take, take_range,
    Nat.min_eq_left hk.le]

/-! ### The bytes -/

theorem toNat_digitByte (h : n < 10) : (digitByte n).toNat = 48 + n := by
  interval_cases n <;> rfl

theorem number_digits (ds : List Nat) (h : ∀ d ∈ ds, d < 10)
    (hn : ds.foldl (fun n d => n * 10 + d) 0 = n) : number (ds.map digitByte) = some n := by
  have hdigit : ∀ d ∈ ds, (digitByte d).toNat = 48 + d := fun d hd => toNat_digitByte (h d hd)
  rw [number, if_pos, foldl_map, ← hn]
  · congr 1
    refine foldl_ext _ _ _ fun n d hd => ?_
    rw [hdigit d hd, Nat.add_sub_cancel_left]
  simp only [forall_mem_map, UInt8.le_iff_toNat_le]
  intro d hd
  rw [hdigit d hd]
  have := h d hd
  simp only [UInt8.reduceToNat]
  omega

theorem number_two (h : n < 100) : number [digitByte (n / 10), digitByte (n % 10)] = some n :=
  number_digits [n / 10, n % 10] (by simp; omega) (by simp; omega)

theorem number_three (h : n < 1000) :
    number [digitByte (n / 100), digitByte (n / 10 % 10), digitByte (n % 10)] = some n :=
  number_digits [n / 100, n / 10 % 10, n % 10] (by simp; omega) (by simp; omega)

theorem number_four (h : n < 10000) : number [digitByte (n / 1000),
    digitByte (n / 100 % 10), digitByte (n / 10 % 10), digitByte (n % 10)] = some n :=
  number_digits [n / 1000, n / 100 % 10, n / 10 % 10, n % 10] (by simp; omega) (by simp; omega)

theorem parse_digits {year month day hour minute second milli : Nat} (hy : year < 10000)
    (hmo : month < 100) (hd : day < 100) (hh : hour < 100) (hmi : minute < 100) (hs : second < 100)
    (hms : milli < 1000) :
    parse [digitByte (year / 1000), digitByte (year / 100 % 10), digitByte (year / 10 % 10),
      digitByte (year % 10), digitByte (month / 10), digitByte (month % 10), digitByte (day / 10),
      digitByte (day % 10), 45, digitByte (hour / 10), digitByte (hour % 10), 58,
      digitByte (minute / 10), digitByte (minute % 10), 58, digitByte (second / 10),
      digitByte (second % 10), 46, digitByte (milli / 100), digitByte (milli / 10 % 10),
      digitByte (milli % 10)] = some ⟨year, month, day, hour, minute, second, milli⟩ := by
  simp [parse, number_four hy, number_two hmo, number_two hd, number_two hh, number_two hmi,
    number_two hs, number_three hms]

/-- **What is written is the time.** -/
theorem parse_formatFixTimestamp (nanos : UInt64) :
    ∃ d, parse (formatFixTimestamp nanos) = some d ∧ d.Valid ∧
      d.unixMillis = (nanos.toNat / 10 ^ 6 : Nat) := by
  have hlt := nanos.toNat_lt
  rw [formatFixTimestamp]
  obtain ⟨hle, hdays, hleft⟩ := yearLoop_spec 1970
    (nanos.toNat / 1000000 / 1000 / 60 / 60 / 24) (by omega)
  generalize yearLoop 1970 (nanos.toNat / 1000000 / 1000 / 60 / 60 / 24) = r at hle hdays hleft
  obtain ⟨year, daysLeft⟩ := r
  obtain ⟨month, left, hmonth, hrange, hday, hsum⟩ := monthLoop_date year daysLeft hleft
  simp only [hmonth]
  have hyear : year < 10000 := by
    simp only [daysBeforeYear] at hdays
    omega
  have hmax : daysInMonth year month ≤ 31 := by
    unfold daysInMonth
    split <;> (try split) <;> omega
  refine ⟨_, parse_digits hyear (by omega) (by omega) (by omega) (by omega) (by omega) (by omega),
    ?_, ?_⟩
  · constructor <;> dsimp only <;> omega
  · simp only [unixMillis, days, Nat.add_sub_cancel]
    rw [add_assoc, hsum, hdays]
    omega

end MatchBench.Bot
