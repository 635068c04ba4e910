import FatForensic.Core.Arith
import FatForensic.Volume.FatEntry
import Mathlib.Data.List.GetD

/-!
# The FAT as a bit stream

Decoding an entry is indexing into the bits of the FAT: what is packed into a FAT is read back
from it, and an entry depends on no bits but its own.
-/

namespace FatForensic

open LittleEndian

variable {variant : FatVariant}

/-- Pack entries without gaps, the first one in the lowest bits, into whole bytes. -/
def packFat (variant : FatVariant) (entries : List (BitVec (entryBits variant))) : List UInt8 :=
  toBytes (divCeil (entryBits variant * entries.length) 8)
    (Nat.ofDigits (2 ^ entryBits variant) (entries.map BitVec.toNat))

/-- The decoded entries of the clusters below `n`. -/
def decodeFat (fat : List UInt8) (variant : FatVariant) (n : ℕ) : List ℕ :=
  (List.range n).map fun c => (fatEntry fat variant (UInt32.ofNat c)).toNat

/-- Two FATs of one length that differ at most in the bits of entry `i`. -/
def AgreeExcept (variant : FatVariant) (i : ℕ) (fat fat' : List UInt8) : Prop :=
  fat.length = fat'.length ∧
    ∀ k, k ∉ Set.Ico (entryBits variant * i) (entryBits variant * i + entryBits variant) →
      (ofBytes fat).testBit k = (ofBytes fat').testBit k

lemma entryBits_pos (variant : FatVariant) : 0 < entryBits variant := by
  cases variant <;> decide

lemma decodedBits_le (variant : FatVariant) : decodedBits variant ≤ entryBits variant := by
  cases variant <;> decide

/-- The entry of a cluster, in terms of the number that the FAT stands for. -/
lemma toNat_fatEntry_eq (fat : List UInt8) (variant : FatVariant) (c : UInt32) :
    (fatEntry fat variant c).toNat =
      if entryBits variant * c.toNat + entryBits variant ≤ 8 * fat.length then
        ofBytes fat >>> (entryBits variant * c.toNat) % 2 ^ decodedBits variant
      else 0 := by
  rw [← Nat.mul_succ]
  split
  next h => rw [toNat_fatEntry ((entryOffset_add_le_iff _).mpr h), Nat.shiftRight_eq_div_pow]
  next h =>
    rw [fatEntry_eq_zero (mt (entryOffset_add_le_iff _).mp h)]
    rfl

/-! ## Packing and decoding -/

lemma length_packFat (entries : List (BitVec (entryBits variant))) :
    8 * (packFat variant entries).length < entryBits variant * entries.length + 8 ∧
      entryBits variant * entries.length ≤ 8 * (packFat variant entries).length := by
  have hle := divCeil_le_iff (a := entryBits variant * entries.length) (b := 8)
    (n := divCeil (entryBits variant * entries.length) 8) (by norm_num)
  have hlt := lt_divCeil_iff (a := entryBits variant * entries.length) (b := 8)
    (n := divCeil (entryBits variant * entries.length) 8 - 1) (by norm_num)
  rw [packFat, length_toBytes]
  omega

/-- What is packed for a cluster is decoded for it, and nothing is decoded behind the end. -/
lemma toNat_fatEntry_packFat (entries : List (BitVec (entryBits variant))) (c : UInt32) :
    (fatEntry (packFat variant entries) variant c).toNat
      = (entries.map BitVec.toNat).getD c.toNat 0 % 2 ^ decodedBits variant := by
  have hbits := entryBits_pos variant
  have hlt : ∀ x ∈ entries.map BitVec.toNat, x < 2 ^ entryBits variant := by
    intro x hx
    obtain ⟨v, -, rfl⟩ := List.mem_map.mp hx
    exact v.isLt
  obtain ⟨hlength, hroom⟩ := length_packFat entries
  rw [toNat_fatEntry_eq]
  split
  next =>
    have hnumber : ofBytes (packFat variant entries)
        = Nat.ofDigits (2 ^ entryBits variant) (entries.map BitVec.toNat) := by
      apply ofBytes_toBytes_ofDigits hbits hlt
      rw [List.length_map]
      rwa [packFat, length_toBytes] at hroom
    rw [hnumber, Nat.shiftRight_eq_div_pow, pow_mul,
      ← ofDigits_div_pow_mod (Nat.one_lt_two_pow hbits.ne') hlt c.toNat,
      Nat.mod_mod_of_dvd _ (Nat.pow_dvd_pow 2 (decodedBits_le variant))]
  next h =>
    -- the bits that fill up the last byte are fewer than those of an entry
    have hend : entries.length ≤ c.toNat := by
      by_contra hc
      apply h
      calc entryBits variant * c.toNat + entryBits variant
          = entryBits variant * (c.toNat + 1) := (Nat.mul_succ _ _).symm
        _ ≤ entryBits variant * entries.length := Nat.mul_le_mul_left _ (by omega)
        _ ≤ _ := hroom
    rw [List.getD_eq_default _ _ (by rwa [List.length_map]), Nat.zero_mod]

lemma decodeFat_packFat {entries : List (BitVec (entryBits variant))}
    (h : entries.length ≤ 2 ^ 32) :
    decodeFat (packFat variant entries) variant entries.length
      = entries.map fun v => v.toNat % 2 ^ decodedBits variant := by
  apply List.ext_getElem
  · rw [decodeFat, List.length_map, List.length_range, List.length_map]
  · intro i hi hi'
    rw [List.length_map] at hi'
    have htoNat : (UInt32.ofNat i).toNat = i := by
      rw [UInt32.toNat_ofNat', Nat.mod_eq_of_lt (by omega)]
    simp only [decodeFat, List.getElem_map, List.getElem_range, toNat_fatEntry_packFat, htoNat]
    rw [List.getD_eq_getElem _ _ (by rwa [List.length_map]), List.getElem_map]

/-! ## Independence of the entries -/

lemma fatEntry_congr {fat fat' : List UInt8} {i : ℕ} {c : UInt32}
    (h : AgreeExcept variant i fat fat') (hc : c.toNat ≠ i) :
    fatEntry fat variant c = fatEntry fat' variant c := by
  obtain ⟨hlength, hagree⟩ := h
  have hle := decodedBits_le variant
  rw [← UInt32.toNat_inj, toNat_fatEntry_eq, toNat_fatEntry_eq, hlength]
  congr 1
  apply Nat.eq_of_testBit_eq
  intro j
  rw [Nat.testBit_mod_two_pow, Nat.testBit_mod_two_pow, Nat.testBit_shiftRight,
    Nat.testBit_shiftRight]
  by_cases hj : j < decodedBits variant
  · rw [hagree]
    rw [Set.mem_Ico]
    -- the bits of two entries do not meet
    rintro ⟨hlo, hhi⟩
    obtain hlt | hgt := Nat.lt_or_gt_of_ne hc
    · have := Nat.mul_le_mul_left (entryBits variant) hlt
      rw [Nat.mul_succ] at this
      omega
    · have := Nat.mul_le_mul_left (entryBits variant) hgt
      rw [Nat.mul_succ] at this
      omega
  · rw [decide_eq_false hj, Bool.false_and, Bool.false_and]

/-- **Decoding an entry is indexing into a bit stream.** -/
theorem fatEntry_bitStream (variant : FatVariant) :
    (∀ fat c, (fatEntry fat variant c).toNat =
      if entryBits variant * c.toNat + entryBits variant ≤ 8 * fat.length then
        ofBytes fat >>> (entryBits variant * c.toNat) % 2 ^ decodedBits variant
      else 0) ∧
    (∀ entries : List (BitVec (entryBits variant)), entries.length ≤ 2 ^ 32 →
      decodeFat (packFat variant entries) variant entries.length
        = entries.map fun v => v.toNat % 2 ^ decodedBits variant) ∧
    ∀ fat fat' i, AgreeExcept variant i fat fat' →
      ∀ c : UInt32, c.toNat ≠ i → fatEntry fat variant c = fatEntry fat' variant c :=
  ⟨fun fat c => toNat_fatEntry_eq fat variant c, fun _ h => decodeFat_packFat h,
    fun _ _ _ h _ hc => fatEntry_congr h hc⟩

/-- Two 12-bit entries share three bytes, and changing the second one leaves the first one
alone. -/
theorem fatEntry_bitStream_shared :
    decodeFat (packFat .fat12 [0x123, 0xABC]) .fat12 2 = [0x123, 0xABC] ∧
      fatEntry [0x23, 0xC1, 0xAB] .fat12 0 = fatEntry [0x23, 0xD1, 0xAB] .fat12 0 := by
  obtain ⟨-, hpack, hagree⟩ := fatEntry_bitStream .fat12
  refine ⟨hpack [0x123, 0xABC] (by norm_num),
    hagree [0x23, 0xC1, 0xAB] [0x23, 0xD1, 0xAB] 1 ⟨rfl, ?_⟩ 0 (by decide)⟩
  have hfirst : (ofBytes [0x23, 0xD1, 0xAB]) = ofBytes [0x23, 0xC1, 0xAB] ^^^ 2 ^ 12 := by decide
  intro k hk
  rw [hfirst, Nat.testBit_xor, Nat.testBit_two_pow_of_ne, Bool.xor_false]
  rintro rfl
  exact hk (by decide)

end FatForensic
