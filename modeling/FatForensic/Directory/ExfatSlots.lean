import FatForensic.Core.Exfat

/-!
# The slots of an exFAT directory, encoded

The encoders of the tests (`file_entry`, `stream_ext`, `file_name`), with all the fields that
the parser reads, and any bytes in the fields that it does not read.  Each slot of an entry set
reads back as what it was encoded from.
-/

namespace FatForensic
namespace Exfat

open Window LittleEndian

/-- A file record: what its entry set stores. -/
structure FileRecord where
  deleted : Bool
  attributes : UInt16
  created : UInt32
  modified : UInt32
  accessed : UInt32
  createdTenths : UInt8
  modifiedTenths : UInt8
  firstCluster : UInt32
  size : UInt64
  noFatChain : Bool
  units : List UInt16
  length_le : units.length ≤ 255
  -- the fields that the parser does not read
  setChecksum : UInt16 := 0
  fileReserved : UInt16 := 0
  utcOffsets : Vector UInt8 3 := .replicate 3 0
  fileRest : Vector UInt8 7 := .replicate 7 0
  /-- The flags of the Stream Extension entry, but for NoFatChain. -/
  flags : UInt8 := 0x01
  streamReserved : UInt8 := 0
  nameHash : UInt16 := 0
  streamGap : UInt16 := 0
  validDataLength : UInt64 := 0
  streamRest : UInt32 := 0
  /-- The flags of the File Name entries. -/
  nameFlags : UInt8 := 0

lemma length_letter_le (letter : UInt16) : [letter].length ≤ 255 := by simp

/-- The type byte of a slot: the in-use bit is clear in a deleted set. -/
def typeByte (deleted : Bool) (type : UInt8) : UInt8 := if deleted then type else type ||| 0x80

/-- The 15 units of a File Name slot: its part of the name, then zeros. -/
def padded (chars : List UInt16) : List UInt16 := (chars ++ List.replicate 15 0).take 15

namespace FileRecord

variable (r : FileRecord)

/-- The number of File Name slots. -/
def nameCount : ℕ := divCeil r.units.length 15

/-- The fields of the File entry. -/
def fileFields : List (List UInt8) :=
  [[typeByte r.deleted TYPE_FILE], [UInt8.ofNat (1 + r.nameCount)], toBytes 2 r.setChecksum.toNat,
    toBytes 2 r.attributes.toNat, toBytes 2 r.fileReserved.toNat, toBytes 4 r.created.toNat,
    toBytes 4 r.modified.toNat, toBytes 4 r.accessed.toNat, [r.createdTenths], [r.modifiedTenths],
    r.utcOffsets.toList, r.fileRest.toList]

/-- The flags of the Stream Extension entry. -/
def streamFlags : UInt8 := (r.flags &&& 0xFD) ||| if r.noFatChain then 0x02 else 0x00

/-- The fields of the Stream Extension entry. -/
def streamFields : List (List UInt8) :=
  [[typeByte r.deleted TYPE_STREAM_EXT], [r.streamFlags], [r.streamReserved],
    [UInt8.ofNat r.units.length], toBytes 2 r.nameHash.toNat, toBytes 2 r.streamGap.toNat,
    toBytes 8 r.validDataLength.toNat, toBytes 4 r.streamRest.toNat, toBytes 4 r.firstCluster.toNat,
    toBytes 8 r.size.toNat]

/-- The fields of the `k`-th File Name entry. -/
def nameFields (k : ℕ) : List (List UInt8) :=
  [typeByte r.deleted TYPE_FILE_NAME] :: [r.nameFlags] ::
    (padded (slice r.units (15 * k) 15)).map fun u => toBytes 2 u.toNat

/-- The slots of the entry set. -/
def slots : List (List UInt8) :=
  r.fileFields.flatten :: r.streamFields.flatten ::
    (List.range r.nameCount).map fun k => (r.nameFields k).flatten

/-- The moment of a timestamp: its high word is the date, its low word the time of day. -/
def moment (stamp : UInt32) (tenths : UInt8) : Option FatTimestamp :=
  decodeTime (UInt16.ofNat (stamp.toNat / 2 ^ 16)) (UInt16.ofNat (stamp.toNat % 2 ^ 16)) tenths

/-- The entry that a set at slot `i` stands for. -/
def entry (i : ℕ) : ExfatDirEntry where
  name := Utf16.fromUtf16Lossy r.units
  attributes := r.attributes
  isDir := r.attributes &&& ATTR_DIRECTORY ≠ 0
  deleted := r.deleted
  firstCluster := r.firstCluster
  size := r.size
  contiguous := r.noFatChain
  index := UInt16.ofNat i
  created := moment r.created r.createdTenths
  modified := moment r.modified r.modifiedTenths
  accessed := moment r.accessed 0

variable {r}

lemma nameCount_le : r.nameCount ≤ 17 := by
  have := r.length_le
  rw [nameCount, divCeil_le_iff (by norm_num)]
  omega

lemma length_slots : r.slots.length = 2 + r.nameCount := by
  simp [slots]
  omega

/-! ## The type bytes -/

lemma typeByte_and (deleted : Bool) : typeByte deleted TYPE_FILE &&& 0x7F = TYPE_FILE ∧
    typeByte deleted TYPE_STREAM_EXT &&& 0x7F = TYPE_STREAM_EXT ∧
    typeByte deleted TYPE_FILE_NAME &&& 0x7F = TYPE_FILE_NAME ∧
    typeByte deleted TYPE_FILE ≠ 0x00 ∧
    decide (typeByte deleted TYPE_FILE &&& 0x80 = 0) = deleted := by
  cases deleted <;> decide

/-! ## The secondary entries -/

/-- The other flags leave the NoFatChain bit alone. -/
lemma noFatChain_bit (flags bit : UInt8) : ((flags &&& 0xFD) ||| bit) &&& 0x02 = bit &&& 0x02 := by
  have hzero : (0xFD : UInt8) &&& 0x02 = 0 := by decide
  have hsplit : ((flags &&& 0xFD) ||| bit) &&& 0x02
      = (flags &&& 0xFD &&& 0x02) ||| (bit &&& 0x02) :=
    UInt8.toBitVec_inj.mp BitVec.and_or_distrib_right
  rw [hsplit, UInt8.and_assoc, hzero, UInt8.and_zero, UInt8.zero_or]

/-- The Stream Extension entry fills in the extent and the length of the name. -/
lemma step_stream (st : SetState) : st.step r.streamFields.flatten =
    { st with
      contiguous := r.noFatChain, nameLen := r.units.length
      firstCluster := r.firstCluster, size := r.size } := by
  have htype : u8At r.streamFields.flatten 0 = typeByte r.deleted TYPE_STREAM_EXT := rfl
  have hflags : u8At r.streamFields.flatten 1 = r.streamFlags := rfl
  have hlen : u8At r.streamFields.flatten 3 = UInt8.ofNat r.units.length :=
    u8At_flatten (k := 3) rfl (by simp [streamFields])
  have hfirst : leU32 r.streamFields.flatten 20 = r.firstCluster :=
    leU32_flatten (k := 8) rfl (by simp [streamFields])
  have hsize : leU64 r.streamFields.flatten 24 = r.size :=
    leU64_flatten (k := 9) rfl (by simp [streamFields])
  have hchain : decide (r.streamFlags &&& 0x02 ≠ 0) = r.noFatChain := by
    rw [streamFlags, noFatChain_bit]
    cases r.noFatChain <;> decide
  have hnat : (UInt8.ofNat r.units.length).toNat = r.units.length := by
    have := r.length_le
    rw [UInt8.toNat_ofNat', Nat.mod_eq_of_lt (by omega)]
  simp only [SetState.step, htype, (typeByte_and r.deleted).2.1, if_true, hflags, hlen, hfirst,
    hsize, hchain, hnat]

lemma length_padded (chars : List UInt16) : (padded chars).length = 15 := by
  simp [padded]

lemma nameUnits_fields (first flags : UInt8) {units : List UInt16} (h : units.length = 15) :
    nameUnits ([first] :: [flags] :: units.map fun u => toBytes 2 u.toNat).flatten = units := by
  apply List.ext_getElem (by simp [nameUnits, h])
  intro k hk hk'
  simp only [nameUnits, List.getElem_map, List.getElem_range]
  refine leU16_flatten (k := k + 2) ?_ ?_
  · simp [List.getElem?_eq_getElem hk']
  · rw [List.take_succ_cons, List.take_succ_cons, List.flatten_cons, List.flatten_cons,
      List.length_append, List.length_append, ← List.map_take, length_flatten_map_toBytes,
      List.length_take,
      Nat.min_eq_left hk'.le]
    simp only [List.length_singleton]
    omega

/-- A File Name entry adds its units. -/
lemma step_name (st : SetState) (k : ℕ) : st.step (r.nameFields k).flatten =
    { st with units := st.units ++ padded (slice r.units (15 * k) 15) } := by
  have htype : u8At (r.nameFields k).flatten 0 = typeByte r.deleted TYPE_FILE_NAME := rfl
  have hne : ¬ TYPE_FILE_NAME = TYPE_STREAM_EXT := by decide
  have hunits : nameUnits (r.nameFields k).flatten = padded (slice r.units (15 * k) 15) :=
    nameUnits_fields _ _ (length_padded _)
  simp only [SetState.step, htype, (typeByte_and r.deleted).2.2.1, hne, if_false, if_true, hunits]

lemma foldl_step_names (st : SetState) (ks : List ℕ) :
    (ks.map fun k => (r.nameFields k).flatten).foldl SetState.step st =
      { st with units := st.units ++ ks.flatMap fun k => padded (slice r.units (15 * k) 15) } := by
  induction ks generalizing st with
  | nil => simp
  | cons k ks ih =>
    rw [List.map_cons, List.foldl_cons, step_name, ih]
    simp

/-- The name is cut out of the units of its slots. -/
lemma take_padded : ((List.range r.nameCount).flatMap fun k =>
    padded (slice r.units (15 * k) 15)).take r.units.length = r.units := by
  have hcover : r.units.length ≤ 15 * r.nameCount := by
    rw [Nat.mul_comm]
    exact (divCeil_le_iff (by norm_num)).mp le_rfl
  -- the padded parts are the blocks of the name with zeros behind it
  have hblock : ∀ k ∈ List.range r.nameCount, padded (slice r.units (15 * k) 15)
      = slice (r.units ++ List.replicate (15 * r.nameCount - r.units.length) 0) (15 * k) 15 := by
    intro k hk
    have hk := List.mem_range.mp hk
    apply List.ext_getElem?
    intro j
    simp only [padded, List.getElem?_take, getElem?_slice, List.getElem?_append, length_slice,
      List.getElem?_replicate]
    by_cases hj : j < 15
    · simp only [if_pos hj]
      by_cases hin : 15 * k + j < r.units.length
      · rw [if_pos (by omega), if_pos hin]
      · rw [if_neg (by omega), if_neg hin, if_pos (by omega), if_pos (by omega)]
    · simp only [if_neg hj]
  rw [List.flatMap_congr hblock, flatMap_slice_range, List.take_take, Nat.min_eq_left hcover,
    List.take_left]

/-! ## The timestamps -/

/-- The words of a timestamp are the numbers above and below its 16th bit. -/
lemma tsDecode_eq (stamp : UInt32) (tenths : UInt8) :
    tsDecode stamp tenths = moment stamp tenths := by
  have hhigh : (stamp >>> 16).toUInt16 = UInt16.ofNat (stamp.toNat / 2 ^ 16) := by
    apply UInt16.toNat_inj.mp
    rw [UInt32.toNat_toUInt16, UInt32.toNat_shiftRight, UInt16.toNat_ofNat',
      Nat.shiftRight_eq_div_pow]
    rfl
  have hlow : (stamp &&& 0xFFFF).toUInt16 = UInt16.ofNat (stamp.toNat % 2 ^ 16) := by
    apply UInt16.toNat_inj.mp
    rw [UInt32.toNat_toUInt16, UInt32.toNat_and, UInt16.toNat_ofNat',
      show (0xFFFF : UInt32).toNat = 2 ^ 16 - 1 by rfl, Nat.and_two_pow_sub_one_eq_mod]
  rw [tsDecode, moment, hhigh, hlow]

/-! ## The whole set -/

/-- **An entry set reads back.** -/
lemma decodeSet_slots {pre rest : List (List UInt8)} (h : pre.length < 2 ^ 16) :
    decodeSet (pre ++ (r.slots ++ rest)) pre.length (1 + r.nameCount) r.fileFields.flatten
      = r.entry pre.length := by
  have hdrop : (pre ++ (r.slots ++ rest)).drop (pre.length + 1)
      = (r.streamFields.flatten ::
          (List.range r.nameCount).map fun k => (r.nameFields k).flatten) ++ rest := by
    rw [← List.drop_drop, List.drop_left]
    rfl
  have htake : ((pre ++ (r.slots ++ rest)).drop (pre.length + 1)).take (1 + r.nameCount)
      = r.streamFields.flatten ::
          (List.range r.nameCount).map fun k => (r.nameFields k).flatten := by
    rw [hdrop, List.take_left']
    simp [Nat.add_comm]
  have hattr : leU16 r.fileFields.flatten 4 = r.attributes :=
    leU16_flatten (k := 3) rfl (by simp [fileFields])
  have htype : u8At r.fileFields.flatten 0 = typeByte r.deleted TYPE_FILE := rfl
  have hcreated : leU32 r.fileFields.flatten 8 = r.created :=
    leU32_flatten (k := 5) rfl (by simp [fileFields])
  have hmodified : leU32 r.fileFields.flatten 12 = r.modified :=
    leU32_flatten (k := 6) rfl (by simp [fileFields])
  have haccessed : leU32 r.fileFields.flatten 16 = r.accessed :=
    leU32_flatten (k := 7) rfl (by simp [fileFields])
  have hctenths : u8At r.fileFields.flatten 20 = r.createdTenths :=
    u8At_flatten (k := 8) rfl (by simp [fileFields])
  have hmtenths : u8At r.fileFields.flatten 21 = r.modifiedTenths :=
    u8At_flatten (k := 9) rfl (by simp [fileFields])
  have hindex : u16OrMax pre.length = UInt16.ofNat pre.length := by rw [u16OrMax, if_pos h]
  have hdeleted := (typeByte_and r.deleted).2.2.2.2
  simp only [decodeSet, htake, List.foldl_cons, step_stream, foldl_step_names, List.nil_append,
    take_padded, hattr, htype, hdeleted, hcreated, hmodified, haccessed, hctenths, hmtenths,
    hindex, entry, tsDecode_eq]

end FileRecord
end Exfat
end FatForensic
