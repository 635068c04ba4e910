import FatForensic.Core.Fat

/-!
# Where an entry lies in the FAT

A FAT is an array of entries of 12, 16 or 32 bits, packed without gaps: entry `c` takes up the
bits `w * c .. w * c + w - 1` of the little-endian number that its bytes stand for.
-/

namespace FatForensic

open LittleEndian Window

/-- The bits that an entry takes up. -/
def entryBits : FatVariant → ℕ
  | .fat12 => 12
  | .fat16 => 16
  | .fat32 | .exFat => 32

/-- The low bits of an entry that `fat_entry` decodes. -/
def decodedBits : FatVariant → ℕ
  | .fat12 => 12
  | .fat16 => 16
  | .fat32 | .exFat => 28

/-- The byte at which `fat_entry` starts to read for a cluster. -/
def entryOffset : FatVariant → UInt32 → ℕ
  | .fat12, c => c.toNat * 3 / 2
  | .fat16, c => c.toNat * 2
  | .fat32, c | .exFat, c => c.toNat * 4

/-- The number of bytes that `fat_entry` reads. -/
def entryLength : FatVariant → ℕ
  | .fat12 | .fat16 => 2
  | .fat32 | .exFat => 4

variable {fat : List UInt8} {variant : FatVariant} {c : UInt32}

/-- The bytes that are read for an entry are those that it has bits in. -/
lemma entryOffset_add_le_iff (n : ℕ) :
    entryOffset variant c + entryLength variant ≤ n ↔
      entryBits variant * (c.toNat + 1) ≤ 8 * n := by
  cases variant <;> simp only [entryOffset, entryLength, entryBits] <;> omega

lemma and_one_eq_one_iff (c : UInt32) : c &&& 1 = 1 ↔ c.toNat % 2 = 1 := by
  rw [← UInt32.toNat_inj, UInt32.toNat_and]
  exact Eq.congr_left (Nat.and_one_is_mod c.toNat)

/-- An entry that lies beyond the FAT is read as free. -/
lemma fatEntry_eq_zero (h : ¬ entryOffset variant c + entryLength variant ≤ fat.length) :
    fatEntry fat variant c = 0 := by
  cases variant <;> simp only [entryOffset, entryLength, not_le] at h
  · rw [fatEntry, leU16_eq_zero h]
    simp
  · rw [fatEntry, leU16_eq_zero h]
    rfl
  · rw [fatEntry, leU32_eq_zero h]
    rfl
  · rw [fatEntry, leU32_eq_zero h]
    rfl

/-- **Decoding an entry.**  An entry inside of the FAT is decoded to the low bits of its place. -/
lemma toNat_fatEntry (h : entryOffset variant c + entryLength variant ≤ fat.length) :
    (fatEntry fat variant c).toNat
      = ofBytes fat / 2 ^ (entryBits variant * c.toNat) % 2 ^ decodedBits variant := by
  have hpow : ∀ k, 256 ^ k = 2 ^ (8 * k) := fun k => by rw [pow_mul]; norm_num
  have hmask : ∀ k, (leU32 fat k &&& 0x0FFFFFFF).toNat = (leU32 fat k).toNat % 2 ^ 28 :=
    fun k => (UInt32.toNat_and _ _).trans (Nat.and_two_pow_sub_one_eq_mod _ 28)
  cases variant <;> simp only [entryOffset, entryLength] at h
  · have hoff : 8 * (c.toNat * 3 / 2) = 12 * c.toNat - 4 * (c.toNat % 2) := by omega
    rw [fatEntry]
    by_cases hodd : c.toNat % 2 = 1
    · -- the twelve high bits of the two bytes
      rw [if_pos ((and_one_eq_one_iff c).mpr hodd), UInt32.toNat_shiftRight, UInt16.toNat_toUInt32,
        toNat_leU16 h, hpow, hoff, hodd]
      simp only [entryBits, decodedBits, UInt32.reduceToNat, Nat.reduceMod,
        Nat.shiftRight_eq_div_pow]
      rw [show 2 ^ 16 = 2 ^ 4 * 2 ^ 12 by norm_num, Nat.mod_mul_right_div_self,
        Nat.div_div_eq_div_mul, ← pow_add]
      congr 3
      omega
    · -- the twelve low bits of the two bytes
      rw [if_neg (mt (and_one_eq_one_iff c).mp hodd), UInt32.toNat_and, UInt16.toNat_toUInt32,
        toNat_leU16 h, hpow, hoff, show c.toNat % 2 = 0 by omega]
      simp only [entryBits, decodedBits, UInt32.reduceToNat, Nat.mul_zero, Nat.sub_zero]
      rw [Nat.and_two_pow_sub_one_eq_mod _ 12, Nat.mod_mod_of_dvd _ (by norm_num)]
  · rw [fatEntry, UInt16.toNat_toUInt32, toNat_leU16 h, hpow]
    simp only [entryBits, decodedBits]
    congr 3
    omega
  all_goals
    rw [fatEntry, hmask, toNat_leU32 h, hpow, Nat.mod_mod_of_dvd _ (by norm_num)]
    simp only [entryBits, decodedBits]
    congr 3
    omega

/-- A cluster with a pointer has its entry in the FAT. -/
lemma entryBits_mul_le_of_fatEntry_ne_zero (h : fatEntry fat variant c ≠ 0) :
    entryBits variant * (c.toNat + 1) ≤ 8 * fat.length :=
  (entryOffset_add_le_iff _).mp (not_imp_comm.mp fatEntry_eq_zero h)

end FatForensic
