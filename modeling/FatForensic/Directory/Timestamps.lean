import FatForensic.Core.Time
import FatForensic.Lib.Calendar

/-!
# Timestamps and the calendar

`days_from_civil` counts the days of the proleptic Gregorian calendar from the Unix epoch.
`decode` clamps the fields of a packed date and time, except that a day past the end of its
month and a two-second count past 29 are let through: these move the moment on.
-/

namespace FatForensic

open Calendar (Date monthLength IsLeap monthLength_mem)

/-! ## Counting days -/

/-- The divisions of the source truncate, but its terms are arranged so that this rounds
down. -/
lemma daysFromCivil_eq {y m d : ℤ} (hm : 1 ≤ m) : daysFromCivil y m d =
    (let y' := if m ≤ 2 then y - 1 else y
    y' * 365 + y' / 4 - y' / 100 + y' / 400
      + (153 * (if 2 < m then m - 3 else m + 9) + 2) / 5 + d - 719469) := by
  unfold daysFromCivil
  have hdoy : (153 * (if 2 < m then m - 3 else m + 9) + 2).tdiv 5
      = (153 * (if 2 < m then m - 3 else m + 9) + 2) / 5 := by
    apply Int.tdiv_eq_ediv_of_nonneg
    split_ifs <;> omega
  generalize (if m ≤ 2 then y - 1 else y) = y'
  have hera : (if 0 ≤ y' then y' else y' - 399).tdiv 400 = y' / 400 := by
    split
    next h => rw [Int.tdiv_eq_ediv_of_nonneg h]
    next h =>
      rw [Int.tdiv_eq_ediv, show Int.sign 400 = 1 by rfl]
      split <;> omega
  simp only [hera, hdoy]
  rw [Int.tdiv_eq_ediv_of_nonneg (by omega), Int.tdiv_eq_ediv_of_nonneg (by omega)]
  omega

/-- The days of a month are numbered in a row. -/
lemma daysFromCivil_add (y m d k : ℤ) :
    daysFromCivil y m (d + k) = daysFromCivil y m d + k := by
  unfold daysFromCivil
  ring

/-- The first of a month follows the last day of the month before it. -/
lemma daysFromCivil_month {y m : ℤ} (hm : m ∈ Set.Icc 1 11) :
    daysFromCivil y (m + 1) 1 = daysFromCivil y m (monthLength y m) + 1 := by
  obtain ⟨h1, h11⟩ := hm
  rw [daysFromCivil_eq h1, daysFromCivil_eq (by omega), monthLength]
  obtain rfl | hfeb := eq_or_ne m 2
  · -- the 29th of February is there exactly in the leap years
    unfold IsLeap
    norm_num
    split_ifs <;> omega
  · rw [if_neg hfeb]
    interval_cases m <;> first | exact absurd rfl hfeb | (norm_num; ring)

/-- The first of January follows the last of December. -/
lemma daysFromCivil_year (y : ℤ) :
    daysFromCivil (y + 1) 1 1 = daysFromCivil y 12 (monthLength y 12) + 1 := by
  rw [daysFromCivil_eq le_rfl, daysFromCivil_eq (by norm_num), monthLength]
  norm_num
  ring

lemma daysFromCivil_next (d : Date) :
    daysFromCivil d.next.year d.next.month d.next.day
      = daysFromCivil d.year d.month d.day + 1 := by
  obtain ⟨hy, hm, hd⟩ | ⟨hlast, hlt, hy, hm, hd⟩ | ⟨hlast, h12, hy, hm, hd⟩ := d.next_cases
  · rw [hy, hm, hd, daysFromCivil_add]
  · rw [hy, hm, hd, hlast, daysFromCivil_month ⟨d.month_mem.1, by omega⟩]
  · rw [hy, hm, hd, hlast, h12, daysFromCivil_year]

lemma daysFromCivil_epoch : daysFromCivil 1970 1 1 = 0 := by decide

lemma daysFromCivil_eq_daysSince (d : Date) :
    daysFromCivil d.year d.month d.day = Date.daysSince Date.epoch d :=
  Date.eq_daysSince (f := fun d => daysFromCivil d.year d.month d.day) daysFromCivil_next
    daysFromCivil_epoch d

/-- `days_from_civil` is the number of civil days since the epoch. -/
theorem daysFromCivil_counts_days :
    (∀ d : Date, daysFromCivil d.next.year d.next.month d.next.day
      = daysFromCivil d.year d.month d.day + 1) ∧
    daysFromCivil 1970 1 1 = 0 ∧
    (∀ d : Date, daysFromCivil d.year d.month d.day = Date.daysSince Date.epoch d) ∧
    StrictMono fun d : Date => daysFromCivil d.year d.month d.day :=
  ⟨daysFromCivil_next, daysFromCivil_epoch, daysFromCivil_eq_daysSince,
    Date.strictMono_of_next daysFromCivil_next⟩

/-! ## Packed fields -/

/-- The day field of a packed date. -/
def dayField (date : UInt16) : ℤ := (date &&& 0x1F).toNat

/-- The month field of a packed date. -/
def monthField (date : UInt16) : ℤ := ((date >>> 5) &&& 0x0F).toNat

/-- The year of a packed date. -/
def yearField (date : UInt16) : ℤ := 1980 + ((date >>> 9) &&& 0x7F).toNat

/-- The two-second count of a packed time. -/
def twoSecField (time : UInt16) : ℤ := (time &&& 0x1F).toNat

/-- The minute field of a packed time. -/
def minuteField (time : UInt16) : ℤ := ((time >>> 5) &&& 0x3F).toNat

/-- The hour field of a packed time. -/
def hourField (time : UInt16) : ℤ := ((time >>> 11) &&& 0x1F).toNat

lemma dayField_mem (date : UInt16) : dayField date ∈ Set.Icc 0 31 := by
  have hle : (date &&& 0x1F).toNat ≤ 31 := by
    rw [UInt16.toNat_and]
    exact Nat.and_le_right
  unfold dayField
  constructor <;> omega

lemma twoSecField_mem (time : UInt16) : twoSecField time ∈ Set.Icc 0 31 := dayField_mem time

lemma minuteField_nonneg (time : UInt16) : 0 ≤ minuteField time := Int.natCast_nonneg _

lemma hourField_nonneg (time : UInt16) : 0 ≤ hourField time := Int.natCast_nonneg _

/-- A clamped value lies between the bounds. -/
lemma clamp_mem {lo hi : ℤ} (h : lo ≤ hi) (x : ℤ) : clamp lo hi x ∈ Set.Icc lo hi := by
  unfold clamp
  constructor <;> omega

/-- The civil day of a packed date, with its month and its day clamped into the calendar. -/
def civilDay (date : UInt16) : Date where
  year := yearField date
  month := clamp 1 12 (monthField date)
  day := clamp 1 (monthLength (yearField date) (clamp 1 12 (monthField date))) (dayField date)
  month_mem := clamp_mem (by norm_num) _
  day_mem := clamp_mem (by
    have := (monthLength_mem (yearField date) (clamp 1 12 (monthField date))).1
    omega) _

/-- The second of the day of a packed time, with its fields clamped. -/
def clampedSecond (time : UInt16) : ℤ :=
  min (hourField time) 23 * 3600 + min (minuteField time) 59 * 60 + min (twoSecField time) 29 * 2

/-- The moment of a timestamp, in nanoseconds since the epoch. -/
def FatTimestamp.nanos (t : FatTimestamp) : ℤ := t.unixSeconds * 10 ^ 9 + t.subsecNanos

/-- The first moment of a civil day, in nanoseconds since the epoch. -/
noncomputable def dayStart (d : Date) : ℤ := Date.daysSince Date.epoch d * 86400 * 10 ^ 9

/-- The triple decodes to a moment inside the civil day of its date, at the time of day of its
clamped fields. -/
def DecodesClamped (date time : UInt16) (tenths : UInt8) : Prop :=
  ∃ t, decodeTime date time tenths = some t ∧
    t.nanos ∈ Set.Ico (dayStart (civilDay date)) (dayStart (civilDay date).next) ∧
    t.nanos = dayStart (civilDay date) + clampedSecond time * 10 ^ 9 + tenths.toNat * 10 ^ 7

variable {date time : UInt16} {tenths : UInt8}

lemma decodeTime_of_ne_zero (hdate : date ≠ 0) (time : UInt16) (tenths : UInt8) :
    decodeTime date time tenths = some {
      unixSeconds := daysFromCivil (yearField date) (clamp 1 12 (monthField date))
          (clamp 1 31 (dayField date)) * 86400
        + min (hourField time) 23 * 3600 + min (minuteField time) 59 * 60
        + twoSecField time * 2 + (tenths.toNat / 100 : ℕ)
      subsecNanos := (tenths.toNat % 100) * 10000000 } := by
  rw [decodeTime, if_neg hdate]
  rfl

lemma dayStart_next (d : Date) : dayStart d.next = dayStart d + 86400 * 10 ^ 9 := by
  rw [dayStart, dayStart, ← daysFromCivil_eq_daysSince, ← daysFromCivil_eq_daysSince,
    daysFromCivil_next]
  ring

/-- The days past the end of the month, which the decoder counts on into the next one. -/
def overrun (date : UInt16) : ℤ := clamp 1 31 (dayField date) - (civilDay date).day

lemma overrun_nonneg (date : UInt16) : 0 ≤ overrun date := by
  have hlength := monthLength_mem (yearField date) (clamp 1 12 (monthField date))
  rw [Set.mem_Icc] at hlength
  simp only [overrun, civilDay, clamp] at hlength ⊢
  omega

lemma overrun_eq_zero_iff : overrun date = 0 ↔
    dayField date ≤ monthLength (yearField date) (clamp 1 12 (monthField date)) := by
  have hlength := monthLength_mem (yearField date) (clamp 1 12 (monthField date))
  have hday := dayField_mem date
  rw [Set.mem_Icc] at hlength hday
  simp only [overrun, civilDay]
  generalize monthLength _ _ = length at hlength ⊢
  unfold clamp
  omega

/-- Where a decoded moment lies, relative to the clamped one. -/
lemma nanos_decodeTime {t : FatTimestamp} (hdate : date ≠ 0)
    (h : decodeTime date time tenths = some t) :
    t.nanos = dayStart (civilDay date) + clampedSecond time * 10 ^ 9 + tenths.toNat * 10 ^ 7
      + (overrun date * 86400 + (twoSecField time - min (twoSecField time) 29) * 2) * 10 ^ 9 := by
  have hday : daysFromCivil (yearField date) (clamp 1 12 (monthField date))
      (clamp 1 31 (dayField date))
        = Date.daysSince Date.epoch (civilDay date) + overrun date := by
    rw [← daysFromCivil_eq_daysSince, ← daysFromCivil_add, overrun, add_sub_cancel]
    rfl
  rw [decodeTime_of_ne_zero hdate, Option.some.injEq] at h
  rw [← h, FatTimestamp.nanos, dayStart, clampedSecond, hday]
  have hcarry : ((tenths.toNat / 100 : ℕ) : ℤ) * 100 + (tenths.toNat % 100 : ℕ)
      = tenths.toNat := by omega
  push_cast at hcarry ⊢
  linear_combination 10 ^ 7 * hcarry

lemma clampedSecond_mem (time : UInt16) : clampedSecond time ∈ Set.Ico 0 86399 := by
  have hsec := (twoSecField_mem time).1
  have hmin := minuteField_nonneg time
  have hhour := hourField_nonneg time
  unfold clampedSecond
  constructor <;> omega

/-- A decoded moment leaves its civil day only by a day past the end of the month, or by a
two-second count past 29 in the last minute of the day. -/
theorem nanos_mem_day_iff {t : FatTimestamp} (hdate : date ≠ 0) (htenths : tenths ≤ 199)
    (h : decodeTime date time tenths = some t) :
    t.nanos ∈ Set.Ico (dayStart (civilDay date)) (dayStart (civilDay date).next) ↔
      dayField date ≤ monthLength (yearField date) (clamp 1 12 (monthField date)) ∧
        ¬ (23 ≤ hourField time ∧ 59 ≤ minuteField time ∧ 30 ≤ twoSecField time) := by
  have hover := overrun_nonneg date
  have hsec := twoSecField_mem time
  have hmin := minuteField_nonneg time
  have hhour := hourField_nonneg time
  have htenths : tenths.toNat ≤ 199 := UInt8.le_iff_toNat_le.mp htenths
  rw [Set.mem_Icc] at hsec
  rw [← overrun_eq_zero_iff, nanos_decodeTime hdate h, dayStart_next, Set.mem_Ico, clampedSecond]
  omega

/-- The decoder clamps to the calendar day exactly where the day is not past the end of its
month and the two-second count is in range. -/
theorem decodesClamped_iff (hdate : date ≠ 0) (htenths : tenths ≤ 199) :
    DecodesClamped date time tenths ↔
      dayField date ≤ monthLength (yearField date) (clamp 1 12 (monthField date)) ∧
        twoSecField time ≤ 29 := by
  have hover := overrun_nonneg date
  have hsec := clampedSecond_mem time
  have htenths : tenths.toNat ≤ 199 := UInt8.le_iff_toNat_le.mp htenths
  rw [Set.mem_Ico] at hsec
  rw [← overrun_eq_zero_iff]
  constructor
  · rintro ⟨t, ht, -, hmoment⟩
    have hnanos := nanos_decodeTime hdate ht
    omega
  · rintro ⟨hzero, hcount⟩
    refine ⟨_, decodeTime_of_ne_zero hdate time tenths, ?_⟩
    rw [nanos_decodeTime hdate (decodeTime_of_ne_zero hdate time tenths), hzero,
      min_eq_left hcount, dayStart_next, Set.mem_Ico]
    refine ⟨⟨?_, ?_⟩, ?_⟩ <;> omega

/-- 2021-06-15, 13:37:20. -/
theorem decodesClamped_june : DecodesClamped 0x52CF 0x6CAA 150 :=
  (decodesClamped_iff (by decide) (by decide)).mpr (by decide +kernel)

/-- The 31st of February 2021 is decoded as the 3rd of March. -/
theorem not_decodesClamped_february : ¬ ∀ (date time : UInt16) (tenths : UInt8),
    date ≠ 0 → tenths ≤ 199 → DecodesClamped date time tenths := by
  intro h
  obtain ⟨t, ht, -, hmoment⟩ := h 0x525F 0 0 (by decide) (by decide)
  have hnanos := nanos_decodeTime (by decide) ht
  have hover : overrun 0x525F = 3 := by decide +kernel
  have hcount : twoSecField 0 = 0 := by decide +kernel
  rw [hover, hcount] at hnanos
  omega

end FatForensic
