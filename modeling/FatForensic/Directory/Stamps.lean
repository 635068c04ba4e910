import FatForensic.Core.Vfs
import FatForensic.Directory.Timestamps

/-!
# Stamps and moments

A stamp whose fields are those of a date and a time of day is decoded to the moment that it
stands for, and the adapter gives this moment.  The stamps are the multiples of ten milliseconds
from 1980 to 2107, in the order of their packed numbers.
-/

namespace FatForensic

open Calendar (Date monthLength monthLength_mem)

/-- A stored triple whose fields are in range. -/
structure Stamp where
  date : UInt16
  time : UInt16
  tenths : UInt8
  month_mem : monthField date ∈ Set.Icc 1 12
  day_mem : dayField date ∈ Set.Icc 1 (monthLength (yearField date) (monthField date))
  hour_le : hourField time ≤ 23
  minute_le : minuteField time ≤ 59
  twoSec_le : twoSecField time ≤ 29
  tenths_le : tenths.toNat ≤ 199

/-! ## Fields and numbers -/

/-- A packed date has the digits day, month and year. -/
lemma date_fields (date : UInt16) : (date.toNat : ℤ)
    = (yearField date - 1980) * 512 + monthField date * 32 + dayField date ∧
      dayField date ∈ Set.Icc 0 31 ∧ monthField date ∈ Set.Icc 0 15 ∧
      yearField date ∈ Set.Icc 1980 2107 := by
  have hlt := date.toNat_lt
  have hday : (date &&& 0x1F).toNat = date.toNat % 32 := by
    rw [UInt16.toNat_and]
    exact Nat.and_two_pow_sub_one_eq_mod _ 5
  have hmonth : ((date >>> 5) &&& 0x0F).toNat = date.toNat / 32 % 16 := by
    rw [UInt16.toNat_and, UInt16.toNat_shiftRight, Nat.shiftRight_eq_div_pow]
    exact Nat.and_two_pow_sub_one_eq_mod _ 4
  have hyear : ((date >>> 9) &&& 0x7F).toNat = date.toNat / 512 % 128 := by
    rw [UInt16.toNat_and, UInt16.toNat_shiftRight, Nat.shiftRight_eq_div_pow]
    exact Nat.and_two_pow_sub_one_eq_mod _ 7
  rw [dayField, monthField, yearField, hday, hmonth, hyear, Set.mem_Icc, Set.mem_Icc, Set.mem_Icc]
  omega

/-- A packed time has the digits of the two-second count, the minute and the hour. -/
lemma time_fields (time : UInt16) : (time.toNat : ℤ)
    = hourField time * 2048 + minuteField time * 32 + twoSecField time ∧
      twoSecField time ∈ Set.Icc 0 31 ∧ minuteField time ∈ Set.Icc 0 63 ∧ 0 ≤ hourField time := by
  have hlt := time.toNat_lt
  have hsec : (time &&& 0x1F).toNat = time.toNat % 32 := by
    rw [UInt16.toNat_and]
    exact Nat.and_two_pow_sub_one_eq_mod _ 5
  have hmin : ((time >>> 5) &&& 0x3F).toNat = time.toNat / 32 % 64 := by
    rw [UInt16.toNat_and, UInt16.toNat_shiftRight, Nat.shiftRight_eq_div_pow]
    exact Nat.and_two_pow_sub_one_eq_mod _ 6
  have hhour : ((time >>> 11) &&& 0x1F).toNat = time.toNat / 2048 % 32 := by
    rw [UInt16.toNat_and, UInt16.toNat_shiftRight, Nat.shiftRight_eq_div_pow]
    exact Nat.and_two_pow_sub_one_eq_mod _ 5
  rw [twoSecField, minuteField, hourField, hsec, hmin, hhour, Set.mem_Icc, Set.mem_Icc]
  omega

namespace Stamp

variable (s s' : Stamp)

/-- The civil day of a stamp. -/
def day : Date where
  year := yearField s.date
  month := monthField s.date
  day := dayField s.date
  month_mem := s.month_mem
  day_mem := s.day_mem

/-- The nanosecond of the day. -/
def nanoOfDay : ℤ :=
  (hourField s.time * 3600 + minuteField s.time * 60 + twoSecField s.time * 2) * 10 ^ 9
    + s.tenths.toNat * 10 ^ 7

/-- The number that a stamp is stored as. -/
def packed : ℕ := (s.date.toNat * 2 ^ 16 + s.time.toNat) * 2 ^ 8 + s.tenths.toNat

/-- The moment that the adapter gives for a stamp. -/
def unixNanos : ℤ :=
  (decodeTime s.date s.time s.tenths).elim 0 fun t => (Vfs.toTs t .seconds).unixNanos

lemma nanoOfDay_mem : s.nanoOfDay ∈ Set.Ico 0 (86400 * 10 ^ 9) := by
  obtain ⟨-, hsec, hmin, hhour⟩ := time_fields s.time
  have h1 := s.hour_le
  have h2 := s.minute_le
  have h3 := s.twoSec_le
  have h4 := s.tenths_le
  rw [Set.mem_Icc] at hsec hmin
  unfold nanoOfDay
  constructor <;> omega

lemma date_ne_zero : s.date ≠ 0 := by
  intro h
  have hday := s.day_mem.1
  rw [h] at hday
  exact absurd hday (by decide +kernel)

/-- **A stamp is decoded to the moment that it stands for.** -/
lemma unixNanos_eq : s.unixNanos = dayStart s.day + s.nanoOfDay := by
  obtain ⟨hm1, hm2⟩ := s.month_mem
  obtain ⟨hd1, hd2⟩ := s.day_mem
  have hlength := (monthLength_mem (yearField s.date) (monthField s.date)).2
  have hclampMonth : clamp 1 12 (monthField s.date) = monthField s.date := by
    unfold clamp
    omega
  have hclampDay : clamp 1 31 (dayField s.date) = dayField s.date := by
    unfold clamp
    omega
  have hday : daysFromCivil (yearField s.date) (monthField s.date) (dayField s.date)
      = Date.daysSince Date.epoch s.day := daysFromCivil_eq_daysSince s.day
  rw [unixNanos, decodeTime_of_ne_zero s.date_ne_zero, hclampMonth, hclampDay, hday,
    min_eq_left s.hour_le, min_eq_left s.minute_le, dayStart, nanoOfDay]
  have hcarry : ((s.tenths.toNat / 100 : ℕ) : ℤ) * 100 + (s.tenths.toNat % 100 : ℕ)
      = s.tenths.toNat := by omega
  simp only [Option.elim_some, Vfs.toTs]
  push_cast at hcarry ⊢
  linear_combination 10 ^ 7 * hcarry

lemma dayStart_add_le {d e : Date} (h : d < e) : dayStart d + 86400 * 10 ^ 9 ≤ dayStart e := by
  have hlt := Date.strictMono_of_next (f := fun d => daysFromCivil d.year d.month d.day)
    daysFromCivil_next h
  simp only [daysFromCivil_eq_daysSince] at hlt
  rw [dayStart, dayStart]
  omega

lemma dayStart_mono {d e : Date} (h : d ≤ e) : dayStart d ≤ dayStart e := by
  obtain rfl | hlt := h.eq_or_lt
  · exact le_rfl
  · have := dayStart_add_le hlt
    omega

/-- The days are in the order of the packed dates. -/
lemma day_lt_day_iff : s.day < s'.day ↔ s.date.toNat < s'.date.toNat := by
  obtain ⟨hdate, hd, hm, -⟩ := date_fields s.date
  obtain ⟨hdate', hd', hm', -⟩ := date_fields s'.date
  rw [Set.mem_Icc] at hd hm hd' hm'
  rw [Date.lt_iff]
  simp only [day]
  omega

/-- The times of day are in the order of the packed times, with the tenths. -/
lemma nanoOfDay_lt_nanoOfDay_iff : s.nanoOfDay < s'.nanoOfDay ↔
    s.time.toNat * 2 ^ 8 + s.tenths.toNat < s'.time.toNat * 2 ^ 8 + s'.tenths.toNat := by
  obtain ⟨htime, hsec, hmin, hhour⟩ := time_fields s.time
  obtain ⟨htime', hsec', hmin', hhour'⟩ := time_fields s'.time
  rw [Set.mem_Icc] at hsec hmin hsec' hmin'
  have h2 := s.minute_le
  have h2' := s'.minute_le
  have h3 := s.twoSec_le
  have h3' := s'.twoSec_le
  have h4 := s.tenths_le
  have h4' := s'.tenths_le
  unfold nanoOfDay
  omega

/-- The moments are in the order of the packed numbers. -/
lemma unixNanos_lt_iff : s.unixNanos < s'.unixNanos ↔ s.packed < s'.packed := by
  obtain ⟨h0, h1⟩ := s.nanoOfDay_mem
  obtain ⟨h0', h1'⟩ := s'.nanoOfDay_mem
  have hday := day_lt_day_iff s s'
  have hday' := day_lt_day_iff s' s
  have htime := s.time.toNat_lt
  have htime' := s'.time.toNat_lt
  have htenths := s.tenths_le
  have htenths' := s'.tenths_le
  rw [unixNanos_eq, unixNanos_eq, packed, packed]
  rcases lt_trichotomy s.day s'.day with hlt | heq | hgt
  · have hstart := dayStart_add_le hlt
    have hdate := hday.mp hlt
    omega
  · have htod := nanoOfDay_lt_nanoOfDay_iff s s'
    rw [heq, lt_self_iff_false, false_iff] at hday hday'
    rw [heq]
    omega
  · have hstart := dayStart_add_le hgt
    have hdate := hday'.mp hgt
    omega

/-! ## Every moment has a stamp -/

lemma january_mem : (1 : ℤ) ∈ Set.Icc 1 12 := by
  decide

lemma first_mem_january : (1 : ℤ) ∈ Set.Icc 1 (monthLength 1980 1) := by
  decide

/-- The first day that can be stored. -/
def firstDay : Date where
  year := 1980
  month := 1
  day := 1
  month_mem := january_mem
  day_mem := first_mem_january

lemma december_mem : (12 : ℤ) ∈ Set.Icc 1 12 := by
  decide

lemma last_mem_december : (31 : ℤ) ∈ Set.Icc 1 (monthLength 2107 12) := by
  decide

/-- The last day that can be stored. -/
def lastDay : Date where
  year := 2107
  month := 12
  day := 31
  month_mem := december_mem
  day_mem := last_mem_december

lemma mem_Icc_day {d : Date} : d ∈ Set.Icc firstDay lastDay ↔ d.year ∈ Set.Icc 1980 2107 := by
  have hm := d.month_mem
  have hd := d.day_mem
  have hlength := (monthLength_mem d.year d.month).2
  rw [Set.mem_Icc] at hm hd
  rw [Set.mem_Icc, Set.mem_Icc, ← not_lt, ← not_lt, Date.lt_iff, Date.lt_iff]
  simp only [firstDay, lastDay]
  omega

/-- The stamp of a time of day, in units of ten milliseconds. -/
lemma exists_stamp {d : Date} (hyear : d.year ∈ Set.Icc 1980 2107) {r : ℕ} (hr : r < 8640000) :
    ∃ s : Stamp, s.day = d ∧ s.nanoOfDay = r * 10 ^ 7 := by
  obtain ⟨hm1, hm2⟩ := d.month_mem
  have hday := d.day_mem
  have hlength := (monthLength_mem d.year d.month).2
  rw [Set.mem_Icc] at hyear hday
  obtain ⟨date, hdate⟩ : ∃ date : UInt16,
      date.toNat = ((d.year - 1980) * 512 + d.month * 32 + d.day).toNat :=
    ⟨UInt16.ofNat _, UInt16.toNat_ofNat_of_lt (by rw [UInt16.size]; omega)⟩
  obtain ⟨time, htime⟩ : ∃ time : UInt16, time.toNat
      = r / 360000 * 2048 + r / 6000 % 60 * 32 + r / 200 % 30 :=
    ⟨UInt16.ofNat _, UInt16.toNat_ofNat_of_lt (by rw [UInt16.size]; omega)⟩
  obtain ⟨tenths, htenths⟩ : ∃ tenths : UInt8, tenths.toNat = r % 200 :=
    ⟨UInt8.ofNat _, UInt8.toNat_ofNat_of_lt (by rw [UInt8.size]; omega)⟩
  obtain ⟨hdate', hd, hm, hy⟩ := date_fields date
  obtain ⟨htime', hsec, hmin, hhour⟩ := time_fields time
  rw [Set.mem_Icc] at hd hm hsec hmin hy
  have hyear' : yearField date = d.year := by omega
  have hmonth' : monthField date = d.month := by omega
  have hday' : dayField date = d.day := by omega
  refine ⟨⟨date, time, tenths, by rw [hmonth']; exact d.month_mem,
    by rw [hday', hyear', hmonth']; exact d.day_mem, by omega, by omega, by omega, by omega⟩,
    Date.ext hyear' hmonth' hday', ?_⟩
  change (hourField time * 3600 + minuteField time * 60 + twoSecField time * 2) * 10 ^ 9
    + tenths.toNat * 10 ^ 7 = _
  omega

/-- Every day from the first one on is some days after it. -/
lemma exists_day {n : ℤ} (hn : Date.daysSince Date.epoch firstDay ≤ n) :
    ∃ d, firstDay ≤ d ∧ Date.daysSince Date.epoch d = n := by
  have hnext : ∀ d, Date.daysSince Date.epoch (Order.succ d)
      = Date.daysSince Date.epoch d + 1 := by
    intro d
    rw [Date.succ_eq_next, ← daysFromCivil_eq_daysSince, ← daysFromCivil_eq_daysSince,
      daysFromCivil_next]
  refine ⟨Order.succ^[(n - Date.daysSince Date.epoch firstDay).toNat] firstDay,
    Order.le_succ_iterate _ _, ?_⟩
  rw [Calendar.apply_succ_iterate hnext]
  omega

/-- **Stamps and moments.**  The moments that the adapter gives are in the order of the packed
numbers, and they are the multiples of ten milliseconds from the first to the last day. -/
theorem unixNanos_stamps :
    (∀ s s' : Stamp, s.unixNanos < s'.unixNanos ↔ s.packed < s'.packed) ∧
      Set.range unixNanos
        = {n : ℤ | 10 ^ 7 ∣ n ∧ n ∈ Set.Ico (dayStart firstDay) (dayStart lastDay.next)} := by
  refine ⟨unixNanos_lt_iff, Set.ext fun n => ⟨?_, ?_⟩⟩
  · rintro ⟨s, rfl⟩
    obtain ⟨h0, h1⟩ := s.nanoOfDay_mem
    obtain ⟨hfirst, hlast⟩ : s.day ∈ Set.Icc firstDay lastDay :=
      mem_Icc_day.mpr (date_fields s.date).2.2.2
    have hlo := dayStart_mono hfirst
    have hhi := dayStart_mono hlast
    rw [unixNanos_eq]
    refine ⟨dvd_add ⟨Date.daysSince Date.epoch s.day * 8640000, ?_⟩
      ⟨(hourField s.time * 3600 + minuteField s.time * 60 + twoSecField s.time * 2) * 100
        + s.tenths.toNat, ?_⟩, ?_, ?_⟩
    · rw [dayStart]
      ring
    · rw [nanoOfDay]
      ring
    · omega
    · rw [dayStart_next]
      omega
  · rintro ⟨⟨m, rfl⟩, hlo, hhi⟩
    -- the day, and then the time of day
    rw [dayStart_next, dayStart] at hhi
    rw [dayStart] at hlo
    obtain ⟨d, hfirst, hd⟩ := exists_day (n := m / 8640000) (by omega)
    have hlast : d ≤ lastDay := by
      by_contra hlt
      have hnext := dayStart_add_le (not_le.mp hlt)
      rw [dayStart, dayStart] at hnext
      omega
    obtain ⟨s, hday, htod⟩ := exists_stamp (mem_Icc_day.mp ⟨hfirst, hlast⟩)
      (r := (m % 8640000).toNat) (by omega)
    refine ⟨s, ?_⟩
    rw [unixNanos_eq, hday, htod, dayStart, hd]
    omega

end Stamp
end FatForensic
