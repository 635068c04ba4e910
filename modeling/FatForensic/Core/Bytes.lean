import FatForensic.Lib.LittleEndian
import FatForensic.Lib.Slice

/-!
# Bounds-checked little-endian readers

The readers of `bytes.rs` over untrusted image bytes.  Each yields `0` when its window falls
outside the data.
-/

namespace FatForensic

open Window

/-- One byte at `off`, or `0` if out of range. -/
def u8At (data : List UInt8) (off : ℕ) : UInt8 := data[off]?.getD 0

/-- The `n`-byte window at `off`, or `none` if out of range. -/
def window (n : ℕ) (data : List UInt8) (off : ℕ) : Option (List UInt8) :=
  if off + n ≤ data.length then some (slice data off n) else none

/-- Little-endian `u16` at `off`, or `0` if the 2-byte window is out of range. -/
def leU16 (data : List UInt8) (off : ℕ) : UInt16 :=
  (window 2 data off).elim 0 fun w => UInt16.ofNat (LittleEndian.ofBytes w)

/-- Little-endian `u32` at `off`, or `0` if the 4-byte window is out of range. -/
def leU32 (data : List UInt8) (off : ℕ) : UInt32 :=
  (window 4 data off).elim 0 fun w => UInt32.ofNat (LittleEndian.ofBytes w)

/-- Little-endian `u64` at `off`, or `0` if the 8-byte window is out of range. -/
def leU64 (data : List UInt8) (off : ℕ) : UInt64 :=
  (window 8 data off).elim 0 fun w => UInt64.ofNat (LittleEndian.ofBytes w)

/-! ## Fields of a record

A record is the concatenation of its fields; the field after the first `k` ones lies at the
offset that these take up. -/

lemma slice_flatten {fields : List (List UInt8)} {k off : ℕ} {w : List UInt8}
    (hk : fields[k]? = some w) (hoff : (fields.take k).flatten.length = off) :
    slice fields.flatten off w.length = w := by
  obtain ⟨hlt, hw⟩ := List.getElem?_eq_some_iff.mp hk
  have hsplit : fields.flatten
      = (fields.take k).flatten ++ (w ++ (fields.drop (k + 1)).flatten) := by
    rw [← List.flatten_cons, ← List.flatten_append, ← hw, ← List.drop_eq_getElem_cons hlt,
      List.take_append_drop]
  rw [hsplit, slice_append_right _ _ hoff.le, hoff, Nat.sub_self, slice, List.drop_zero,
    List.take_left]

lemma window_flatten {fields : List (List UInt8)} {k off : ℕ} {w : List UInt8}
    (hk : fields[k]? = some w) (hoff : (fields.take k).flatten.length = off) :
    window w.length fields.flatten off = some w := by
  have hslice := slice_flatten hk hoff
  have hlen := congrArg List.length hslice
  rw [length_slice] at hlen
  rw [window]
  by_cases hw : off + w.length ≤ fields.flatten.length
  · rw [if_pos hw, hslice]
  · have hoffle : off ≤ fields.flatten.length := by
      rw [← hoff]
      exact ((List.take_sublist k fields).flatten).length_le
    omega

/-- Reading back a `u16` field. -/
lemma leU16_flatten {fields : List (List UInt8)} {k off : ℕ} {v : UInt16}
    (hk : fields[k]? = some (LittleEndian.toBytes 2 v.toNat))
    (hoff : (fields.take k).flatten.length = off) : leU16 fields.flatten off = v := by
  have hwindow := window_flatten hk hoff
  rw [LittleEndian.length_toBytes] at hwindow
  rw [leU16, hwindow, Option.elim,
    LittleEndian.ofBytes_toBytes_of_lt v.toNat_lt, UInt16.ofNat_toNat]

/-- Reading back a `u32` field. -/
lemma leU32_flatten {fields : List (List UInt8)} {k off : ℕ} {v : UInt32}
    (hk : fields[k]? = some (LittleEndian.toBytes 4 v.toNat))
    (hoff : (fields.take k).flatten.length = off) : leU32 fields.flatten off = v := by
  have hwindow := window_flatten hk hoff
  rw [LittleEndian.length_toBytes] at hwindow
  rw [leU32, hwindow, Option.elim,
    LittleEndian.ofBytes_toBytes_of_lt v.toNat_lt, UInt32.ofNat_toNat]

/-- Reading back a `u64` field. -/
lemma leU64_flatten {fields : List (List UInt8)} {k off : ℕ} {v : UInt64}
    (hk : fields[k]? = some (LittleEndian.toBytes 8 v.toNat))
    (hoff : (fields.take k).flatten.length = off) : leU64 fields.flatten off = v := by
  have hwindow := window_flatten hk hoff
  rw [LittleEndian.length_toBytes] at hwindow
  rw [leU64, hwindow, Option.elim,
    LittleEndian.ofBytes_toBytes_of_lt v.toNat_lt, UInt64.ofNat_toNat]

/-- Reading back a byte field. -/
lemma u8At_flatten {fields : List (List UInt8)} {k off : ℕ} {b : UInt8}
    (hk : fields[k]? = some [b]) (hoff : (fields.take k).flatten.length = off) :
    u8At fields.flatten off = b := by
  have hslice : slice fields.flatten off 1 = [b] := slice_flatten hk hoff
  have hget : (slice fields.flatten off 1)[0]? = fields.flatten[off + 0]? :=
    getElem?_slice_of_lt Nat.zero_lt_one
  rw [hslice, Nat.add_zero] at hget
  rw [u8At, ← hget]
  rfl

/-! ## Fields of a changed byte string -/

/-- A changed byte outside of a window leaves the window alone. -/
lemma window_set {i n off : ℕ} (h : i < off ∨ off + n ≤ i) (data : List UInt8) (b : UInt8) :
    window n (data.set i b) off = window n data off := by
  rw [window, window, List.length_set, slice_set h]

lemma leU16_set {i off : ℕ} (h : i < off ∨ off + 2 ≤ i) (data : List UInt8) (b : UInt8) :
    leU16 (data.set i b) off = leU16 data off := by
  rw [leU16, leU16, window_set h]

lemma leU32_set {i off : ℕ} (h : i < off ∨ off + 4 ≤ i) (data : List UInt8) (b : UInt8) :
    leU32 (data.set i b) off = leU32 data off := by
  rw [leU32, leU32, window_set h]

lemma leU64_set {i off : ℕ} (h : i < off ∨ off + 8 ≤ i) (data : List UInt8) (b : UInt8) :
    leU64 (data.set i b) off = leU64 data off := by
  rw [leU64, leU64, window_set h]

lemma u8At_set {i off : ℕ} (h : i ≠ off) (data : List UInt8) (b : UInt8) :
    u8At (data.set i b) off = u8At data off := by
  rw [u8At, u8At, List.getElem?_set_ne h]

/-- A field inside of a prefix is read from the prefix. -/
lemma leU32_take {off n : ℕ} {data : List UInt8} (h : off + 4 ≤ n) (hn : n ≤ data.length) :
    leU32 (data.take n) off = leU32 data off := by
  rw [leU32, leU32, window, window, List.length_take, slice_take _ h, if_pos (by omega),
    if_pos (by omega)]

lemma leU16_take {off n : ℕ} {data : List UInt8} (h : off + 2 ≤ n) (hn : n ≤ data.length) :
    leU16 (data.take n) off = leU16 data off := by
  rw [leU16, leU16, window, window, List.length_take, slice_take _ h, if_pos (by omega),
    if_pos (by omega)]

/-! ## Fields as digits -/

/-- A window stands for the digits of the whole byte string at its place. -/
lemma ofBytes_slice (data : List UInt8) (off n : ℕ) :
    LittleEndian.ofBytes (slice data off n)
      = LittleEndian.ofBytes data / 256 ^ off % 256 ^ n := by
  rw [slice, LittleEndian.ofBytes_take, LittleEndian.ofBytes_drop]

lemma toNat_leU16 {data : List UInt8} {off : ℕ} (h : off + 2 ≤ data.length) :
    (leU16 data off).toNat = LittleEndian.ofBytes data / 256 ^ off % 2 ^ 16 := by
  rw [leU16, window, if_pos h, Option.elim, ofBytes_slice, UInt16.toNat_ofNat']
  exact Nat.mod_mod _ _

lemma toNat_leU32 {data : List UInt8} {off : ℕ} (h : off + 4 ≤ data.length) :
    (leU32 data off).toNat = LittleEndian.ofBytes data / 256 ^ off % 2 ^ 32 := by
  rw [leU32, window, if_pos h, Option.elim, ofBytes_slice, UInt32.toNat_ofNat']
  exact Nat.mod_mod _ _

/-- A field tells its bytes. -/
lemma slice_eq_of_leU16_eq {data data' : List UInt8} {off : ℕ} (hin : off + 2 ≤ data.length)
    (hin' : off + 2 ≤ data'.length) (h : leU16 data' off = leU16 data off) :
    slice data' off 2 = slice data off 2 := by
  have hnat := congrArg UInt16.toNat h
  rw [toNat_leU16 hin', toNat_leU16 hin] at hnat
  refine LittleEndian.ofBytes_inj ?_ ?_
  · rw [length_slice, length_slice]
    omega
  · rw [ofBytes_slice, ofBytes_slice]
    exact hnat

/-! ## Reads past the end -/

/-- A 4-byte window past the end of the data reads as `0`. -/
lemma leU32_eq_zero {data : List UInt8} {off : ℕ} (h : data.length < off + 4) :
    leU32 data off = 0 := by
  rw [leU32, window, if_neg (by omega)]
  rfl

/-- A 2-byte window past the end of the data reads as `0`. -/
lemma leU16_eq_zero {data : List UInt8} {off : ℕ} (h : data.length < off + 2) :
    leU16 data off = 0 := by
  rw [leU16, window, if_neg (by omega)]
  rfl

end FatForensic
