import FatForensic.Core.Dirent

/-!
# The slots of a FAT directory, encoded

The encoders of the tests (`short_entry`, `lfn_entry`), with all the fields that the parser
reads: short entries, and long names in their slots.  Each slot reads back as what it was
encoded from.  The text of a short name and its checksum are those of the format, in terms of
bytes and numbers.
-/

namespace FatForensic
namespace Dirent

open Window LittleEndian

/-! ## Short names -/

/-- A field of a short name without the spaces at its end. -/
def unpad : List UInt8 → List UInt8
  | [] => []
  | b :: bs => if b = 0x20 ∧ unpad bs = [] then [] else b :: unpad bs

/-- The small letter of a capital one. -/
def small (b : UInt8) : UInt8 := if 0x41 ≤ b ∧ b ≤ 0x5A then b + 0x20 else b

/-- The text that bytes are in Latin-1. -/
def latin1 (bytes : List UInt8) : String := String.ofList (bytes.map fun b => Char.ofNat b.toNat)

/-- The checksum of a short name: the sum is rotated to the right by one bit, and a byte added. -/
def nameSum (name : List UInt8) : ℕ :=
  name.foldl (fun sum b => (sum % 2 * 128 + sum / 2 + b.toNat) % 256) 0

/-- Spaces are dropped from the end. -/
lemma unpad_eq (bytes : List UInt8) : unpad bytes = bytes.rdropWhile (· = 0x20) := by
  induction bytes with
  | nil => rfl
  | cons b bs ih =>
    have hcons : (b :: bs).rdropWhile (· = 0x20)
        = if bs.rdropWhile (· = 0x20) = [] then [b].rdropWhile (· = 0x20)
          else b :: bs.rdropWhile (· = 0x20) := by
      simp only [List.rdropWhile, List.reverse_cons, List.dropWhile_append, List.isEmpty_iff,
        List.reverse_eq_nil_iff]
      split <;> simp
    rw [unpad, ih, hcons]
    by_cases hbs : bs.rdropWhile (· = 0x20) = []
    · -- nothing but spaces behind the byte
      by_cases hb : b = 0x20 <;> simp [hb, List.rdropWhile]
    · rw [if_neg hbs, if_neg fun h => hbs h.2]

lemma toLower_latin1 (b : UInt8) : (Char.ofNat b.toNat).toLower = Char.ofNat (small b).toNat := by
  have h : ∀ n < 256, (Char.ofNat (UInt8.ofNat n).toNat).toLower
      = Char.ofNat (small (UInt8.ofNat n)).toNat := by
    decide +kernel
  simpa using h b.toNat b.toNat_lt

lemma toNat_checksumStep (sum b : UInt8) :
    (checksumStep sum b).toNat = (sum.toNat % 2 * 128 + sum.toNat / 2 + b.toNat) % 256 := by
  have hlow : ((sum &&& 1) <<< 7).toNat = sum.toNat % 2 * 128 := by
    rw [UInt8.toNat_shiftLeft, UInt8.toNat_and, show (7 : UInt8).toNat % 8 = 7 by rfl,
      show (1 : UInt8).toNat = 1 by rfl, Nat.and_one_is_mod, Nat.shiftLeft_eq]
    omega
  have hhigh : (sum >>> 1).toNat = sum.toNat / 2 := by
    rw [UInt8.toNat_shiftRight, show (1 : UInt8).toNat % 8 = 1 by rfl,
      Nat.shiftRight_eq_div_pow, pow_one]
  rw [checksumStep, UInt8.toNat_add, UInt8.toNat_add, hlow, hhigh]
  omega

/-- The sum of the code is the one in the numbers below 256. -/
lemma toNat_shortChecksum {name : List UInt8} (h : name.length = 11) :
    (shortChecksum name).toNat = nameSum name := by
  have hfold : ∀ (bytes : List UInt8) (sum : UInt8), (bytes.foldl checksumStep sum).toNat
      = bytes.foldl (fun sum b => (sum % 2 * 128 + sum / 2 + b.toNat) % 256) sum.toNat := by
    intro bytes
    induction bytes with
    | nil => exact fun _ => rfl
    | cons b bs ih =>
      intro sum
      rw [List.foldl_cons, List.foldl_cons, ih, toNat_checksumStep]
  rw [shortChecksum, List.take_of_length_le h.le, hfold]
  rfl

/-! ## Short entries -/

/-- The fields of a short entry. -/
structure ShortFields where
  name : List UInt8
  length_name : name.length = 11
  attr : UInt8
  attr_ne : attr ≠ ATTR_LFN
  ntFlags : UInt8
  tenths : UInt8
  createdTime : UInt16
  createdDate : UInt16
  accessedDate : UInt16
  modifiedTime : UInt16
  modifiedDate : UInt16
  firstCluster : UInt32
  size : UInt32

/-- A file's attributes are not those of a long-name slot. -/
lemma archive_ne : (0x20 : UInt8) ≠ ATTR_LFN := by decide

namespace ShortFields

variable (f : ShortFields)

/-- The fields in the order in which a slot stores them. -/
def fields : List (List UInt8) :=
  [f.name, [f.attr], [f.ntFlags], [f.tenths], toBytes 2 f.createdTime.toNat,
    toBytes 2 f.createdDate.toNat, toBytes 2 f.accessedDate.toNat,
    toBytes 2 (f.firstCluster >>> 16).toUInt16.toNat, toBytes 2 f.modifiedTime.toNat,
    toBytes 2 f.modifiedDate.toNat, toBytes 2 f.firstCluster.toUInt16.toNat,
    toBytes 2 f.size.toUInt16.toNat, toBytes 2 (f.size >>> 16).toUInt16.toNat]

/-- The 32-byte slot of a short entry. -/
def slot : List UInt8 := f.fields.flatten

/-- The bytes of the name as they are shown: `0xE5` is stored as `0x05`, and the first byte of a
deleted name is unknown. -/
def shown (deleted : Bool) : List UInt8 :=
  (if deleted then 0x3F else if u8At f.name 0 = 0x05 then 0xE5 else u8At f.name 0) :: f.name.drop 1

/-- The 8.3 name: a base of eight bytes and an extension of three, each in the case that its flag
says.  A volume label is one field of eleven bytes. -/
def text (deleted : Bool) : String :=
  let base := unpad ((f.shown deleted).take 8)
  let ext := unpad ((f.shown deleted).drop 8)
  let base := if f.ntFlags &&& 0x08 ≠ 0 then base.map small else base
  let ext := if f.ntFlags &&& 0x10 ≠ 0 then ext.map small else ext
  if f.attr &&& ATTR_VOLUME_ID ≠ 0 then latin1 (unpad (f.shown deleted))
  else if ext = [] then latin1 base
  else latin1 (base ++ 0x2E :: ext)

/-- The checksum that binds a long name to the entry. -/
def checksum : UInt8 := UInt8.ofNat (nameSum f.name)

/-- The entry that a short entry at slot `idx` stands for. -/
def entry (idx : ℕ) (longName : Option String) (deleted : Bool) : DirEntry :=
  let isVolumeLabel : Bool := f.attr &&& ATTR_VOLUME_ID ≠ 0
  { name := longName.getD (f.text deleted)
    shortName := f.text deleted
    attributes := f.attr
    isDir := f.attr &&& ATTR_DIRECTORY ≠ 0 ∧ ¬ isVolumeLabel
    isVolumeLabel
    deleted
    firstCluster := f.firstCluster
    size := f.size
    index := UInt16.ofNat idx
    created := (f.createdDate, f.createdTime, f.tenths)
    modified := (f.modifiedDate, f.modifiedTime)
    accessed := f.accessedDate }

variable {f}

/-- The 8.3 name as the code renders it. -/
lemma decodeShortName_eq (deleted : Bool) :
    decodeShortName f.name f.ntFlags (f.attr &&& ATTR_VOLUME_ID ≠ 0) deleted = f.text deleted := by
  have hlen := f.length_name
  have hbytes : renderedBytes f.name deleted = f.shown deleted := by
    have hdrop : slice f.name 1 10 = f.name.drop 1 := by
      rw [slice, List.take_of_length_le (by rw [List.length_drop]; omega)]
    rw [renderedBytes, shown, hdrop]
  have hext : slice (f.shown deleted) 8 3 = (f.shown deleted).drop 8 := by
    rw [slice, List.take_of_length_le (by simp [shown]; omega)]
  have hlower : ∀ (lower : Prop) [Decidable lower] (bytes : List UInt8),
      (if lower then (trim bytes).map Char.toLower else trim bytes)
        = (if lower then (unpad bytes).map small else unpad bytes).map
            fun b => Char.ofNat b.toNat := by
    intro lower _ bytes
    rw [trim, unpad_eq]
    split
    · rw [List.map_map, List.map_map]
      exact List.map_congr_left fun b _ => toLower_latin1 b
    · rfl
  have hbase : slice (f.shown deleted) 0 8 = (f.shown deleted).take 8 := rfl
  rw [decodeShortName, hbytes]
  dsimp only [text]
  by_cases hlabel : f.attr &&& ATTR_VOLUME_ID ≠ 0
  · rw [if_pos (decide_eq_true hlabel), if_pos hlabel, latin1, trim, unpad_eq]
  · rw [if_neg (by simpa using hlabel), if_neg hlabel, hlower, hlower, hbase, hext]
    generalize (if f.ntFlags &&& 0x10 ≠ 0 then (unpad ((f.shown deleted).drop 8)).map small
      else unpad ((f.shown deleted).drop 8)) = ext
    by_cases hnil : ext = []
    · rw [if_pos hnil, if_pos (by simp [hnil]), latin1]
    · rw [if_neg hnil, if_neg (by simpa using hnil), latin1, List.map_append]
      rfl

lemma checksum_eq : f.checksum = shortChecksum f.name := by
  rw [checksum, ← toNat_shortChecksum f.length_name, UInt8.ofNat_toNat]

lemma length_slot : f.slot.length = 32 := by
  simp [slot, fields, f.length_name]

lemma u8At_slot_zero : u8At f.slot 0 = u8At f.name 0 := by
  have hlen := f.length_name
  have hlt : 0 < f.name.length := by omega
  rw [u8At, u8At, slot, fields, List.flatten_cons, List.getElem?_append_left hlt]

lemma u8At_slot_attr : u8At f.slot 11 = f.attr :=
  u8At_flatten (k := 1) rfl (by simp [fields, f.length_name])

/-- A short entry is no long-name slot. -/
lemma u8At_slot_attr_ne : u8At f.slot 11 ≠ ATTR_LFN := by
  rw [u8At_slot_attr]
  exact f.attr_ne

lemma slice_slot_name : slice f.slot 0 11 = f.name := by
  rw [← f.length_name]
  exact slice_flatten (k := 0) rfl rfl

/-- **A short entry reads back.** -/
lemma decodeShort_slot {idx : ℕ} (h : idx < 2 ^ 16) (longName : Option String) (deleted : Bool) :
    decodeShort f.slot idx longName deleted = f.entry idx longName deleted := by
  have hname := f.length_name
  have hattr : u8At f.slot 11 = f.attr := u8At_slot_attr
  have hnt : u8At f.slot 12 = f.ntFlags :=
    u8At_flatten (k := 2) rfl (by simp [fields, hname])
  have htenths : u8At f.slot 13 = f.tenths :=
    u8At_flatten (k := 3) rfl (by simp [fields, hname])
  have hctime : leU16 f.slot 14 = f.createdTime :=
    leU16_flatten (k := 4) rfl (by simp [fields, hname])
  have hcdate : leU16 f.slot 16 = f.createdDate :=
    leU16_flatten (k := 5) rfl (by simp [fields, hname])
  have hadate : leU16 f.slot 18 = f.accessedDate :=
    leU16_flatten (k := 6) rfl (by simp [fields, hname])
  have hhigh : leU16 f.slot 20 = (f.firstCluster >>> 16).toUInt16 :=
    leU16_flatten (k := 7) rfl (by simp [fields, hname])
  have hmtime : leU16 f.slot 22 = f.modifiedTime :=
    leU16_flatten (k := 8) rfl (by simp [fields, hname])
  have hmdate : leU16 f.slot 24 = f.modifiedDate :=
    leU16_flatten (k := 9) rfl (by simp [fields, hname])
  have hlow : leU16 f.slot 26 = f.firstCluster.toUInt16 :=
    leU16_flatten (k := 10) rfl (by simp [fields, hname])
  have hslow : leU16 f.slot 28 = f.size.toUInt16 :=
    leU16_flatten (k := 11) rfl (by simp [fields, hname])
  have hshigh : leU16 f.slot 30 = (f.size >>> 16).toUInt16 :=
    leU16_flatten (k := 12) rfl (by simp [fields, hname])
  have hidx : u16OrMax idx = UInt16.ofNat idx := by rw [u16OrMax, if_pos h]
  have hlabel : (decide (f.attr &&& ATTR_VOLUME_ID ≠ 0 ∧ f.attr ≠ ATTR_LFN))
      = decide (f.attr &&& ATTR_VOLUME_ID ≠ 0) := by
    simp [f.attr_ne]
  have hcluster : ((f.firstCluster >>> 16).toUInt16.toUInt32 <<< 16)
      ||| f.firstCluster.toUInt16.toUInt32 = f.firstCluster := by
    rw [UInt32.or_comm, or_halves]
  simp only [decodeShort, entry, slice_slot_name, hattr, hnt, htenths, hctime, hcdate, hadate,
    hhigh, hmtime, hmdate, hlow, hslow, hshigh, hidx, hlabel, hcluster, or_halves,
    decodeShortName_eq]

end ShortFields

/-! ## Long-name slots -/

/-- The 13 units of a slot: its part of the name, then `0x0000`, then `0xFFFF`. -/
def padded (chars : List UInt16) : List UInt16 :=
  (chars ++ 0x0000 :: List.replicate 13 0xFFFF).take 13

/-- The fields of a long-name slot in the order in which it stores them. -/
def lfnFields (first checksum : UInt8) (units : List UInt16) : List (List UInt8) :=
  [first] :: (units.take 5).map (fun u => toBytes 2 u.toNat)
    ++ [[ATTR_LFN], [0], [checksum]] ++ ((units.drop 5).take 6).map (fun u => toBytes 2 u.toNat)
    ++ [[0, 0]] ++ (units.drop 11).map (fun u => toBytes 2 u.toNat)

/-- One long-name slot carrying up to 13 units (`lfn_entry` of the tests). -/
def lfnEntry (seq : UInt8) (last : Bool) (checksum : UInt8) (chars : List UInt16) :
    List UInt8 :=
  (lfnFields (if last then seq ||| 0x40 else seq) checksum (padded chars)).flatten

/-- The slot of 13 units spelt out. -/
lemma exists_units {units : List UInt16} (h : units.length = 13) :
    ∃ a b c d e f g h i j k l m, units = [a, b, c, d, e, f, g, h, i, j, k, l, m] := by
  match units, h with
  | [a, b, c, d, e, f, g, h, i, j, k, l, m], _ => exact ⟨a, b, c, d, e, f, g, h, i, j, k, l, m, rfl⟩

/-- **A long-name slot reads back.** -/
lemma lfnFields_flatten (first checksum : UInt8) {units : List UInt16} (h : units.length = 13) :
    (lfnFields first checksum units).flatten.length = 32 ∧
      u8At (lfnFields first checksum units).flatten 0 = first ∧
      u8At (lfnFields first checksum units).flatten 11 = ATTR_LFN ∧
      u8At (lfnFields first checksum units).flatten 13 = checksum ∧
      lfnChars (lfnFields first checksum units).flatten = units := by
  obtain ⟨a, b, c, d, e, f, g, h, i, j, k, l, m, rfl⟩ := exists_units h
  refine ⟨by simp [lfnFields], rfl, u8At_flatten (k := 6) rfl (by simp [lfnFields]),
    u8At_flatten (k := 8) rfl (by simp [lfnFields]), ?_⟩
  simp only [lfnChars, OFFSETS, List.map_cons, List.map_nil, List.cons.injEq, and_true]
  exact ⟨leU16_flatten (k := 1) rfl (by simp [lfnFields]),
    leU16_flatten (k := 2) rfl (by simp [lfnFields]),
    leU16_flatten (k := 3) rfl (by simp [lfnFields]),
    leU16_flatten (k := 4) rfl (by simp [lfnFields]),
    leU16_flatten (k := 5) rfl (by simp [lfnFields]),
    leU16_flatten (k := 9) rfl (by simp [lfnFields]),
    leU16_flatten (k := 10) rfl (by simp [lfnFields]),
    leU16_flatten (k := 11) rfl (by simp [lfnFields]),
    leU16_flatten (k := 12) rfl (by simp [lfnFields]),
    leU16_flatten (k := 13) rfl (by simp [lfnFields]),
    leU16_flatten (k := 14) rfl (by simp [lfnFields]),
    leU16_flatten (k := 16) rfl (by simp [lfnFields]),
    leU16_flatten (k := 17) rfl (by simp [lfnFields])⟩

lemma length_padded (chars : List UInt16) : (padded chars).length = 13 := by
  simp [padded]

/-- A part without `0x0000` and `0xFFFF` is read out of its padded form. -/
lemma partUnits_padded {chars : List UInt16} (hlen : chars.length ≤ 13)
    (hne : ∀ u ∈ chars, u ≠ 0x0000 ∧ u ≠ 0xFFFF) : partUnits (padded chars) = chars := by
  have htake : (padded chars).takeWhile (· ≠ 0x0000) = chars := by
    by_cases h13 : chars.length = 13
    · have hpad : padded chars = chars := List.take_left' h13
      rw [hpad, List.takeWhile_eq_self_iff]
      exact fun u hu => by simpa using (hne u hu).1
    · obtain ⟨n, hn⟩ : ∃ n, 13 - chars.length = n + 1 := ⟨12 - chars.length, by omega⟩
      have hpad : padded chars = chars ++ 0x0000 :: (List.replicate 13 0xFFFF).take n := by
        rw [padded, List.take_append, List.take_of_length_le hlen, hn, List.take_succ_cons]
      rw [hpad, List.takeWhile_append_of_pos fun u hu => by simpa using (hne u hu).1,
        List.takeWhile_cons_of_neg (by simp), List.append_nil]
  rw [partUnits, htake, List.filter_eq_self]
  exact fun u hu => by simpa using (hne u hu).2

end Dirent
end FatForensic
