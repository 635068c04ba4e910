import Mathlib.Tactic

/-!
# FAT packed date and time

`time.rs`: wall-clock local time, with no zone.
-/

namespace FatForensic

/-- A decoded timestamp: seconds since the Unix epoch plus a sub-second remainder. -/
structure FatTimestamp where
  unixSeconds : ℤ
  subsecNanos : ℕ
deriving DecidableEq, Repr

/-- Days since 1970-01-01 for a proleptic-Gregorian date; `i64` division truncates. -/
def daysFromCivil (y m d : ℤ) : ℤ :=
  let y := if m ≤ 2 then y - 1 else y
  let era := (if 0 ≤ y then y else y - 399).tdiv 400
  let yoe := y - era * 400
  let doy := (153 * (if 2 < m then m - 3 else m + 9) + 2).tdiv 5 + d - 1
  let doe := yoe * 365 + yoe.tdiv 4 - yoe.tdiv 100 + doy
  era * 146097 + doe - 719468

/-- `i64::clamp`. -/
def clamp (lo hi x : ℤ) : ℤ := max lo (min hi x)

/-- Decode a packed `(date, time, tenths)` triple; `none` for an unset entry. -/
def decodeTime (date time : UInt16) (tenths : UInt8) : Option FatTimestamp :=
  if date = 0 then none
  else
    let day : ℤ := (date &&& 0x1F).toNat
    let month : ℤ := ((date >>> 5) &&& 0x0F).toNat
    let year : ℤ := 1980 + ((date >>> 9) &&& 0x7F).toNat
    let twoSec : ℤ := (time &&& 0x1F).toNat
    let minute : ℤ := ((time >>> 5) &&& 0x3F).toNat
    let hour : ℤ := ((time >>> 11) &&& 0x1F).toNat
    let days := daysFromCivil year (clamp 1 12 month) (clamp 1 31 day)
    let base := days * 86400 + min hour 23 * 3600 + min minute 59 * 60 + twoSec * 2
    some {
      unixSeconds := base + (tenths.toNat / 100 : ℕ)
      subsecNanos := (tenths.toNat % 100) * 10000000 }

-- 2021-06-15T13:37:20, and a carry of one and a half seconds from the tenths
example : decodeTime 0x52CF 0x6CAA 150 = some ⟨1623764241, 500000000⟩ := by decide +kernel

end FatForensic
