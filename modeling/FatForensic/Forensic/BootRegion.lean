import FatForensic.Forensic.Walk
import FatForensic.Lib.Fold
import FatForensic.Volume.Geometry
import FatForensic.Volume.Synth

/-!
# Tampering with the exFAT boot region

Every step of the boot checksum is injective in the running sum, and tells two values of
the same byte apart unless the byte is one of the three left out.  One changed byte of the
boot region is therefore reported, or is one of the three and is not.
-/

namespace FatForensic

open Window Fold

namespace Exfat

/-! ## The checksum step -/

lemma rotateRight1_injective : Function.Injective rotateRight1 := by
  intro x y h
  have hbits : x.toBitVec.rotateRight 1 = y.toBitVec.rotateRight 1 := by
    have := congrArg UInt32.toBitVec h
    simpa [rotateRight1, BitVec.rotateRight_def] using this
  apply UInt32.toBitVec_inj.mp
  apply BitVec.eq_of_getLsbD_eq
  intro i hi
  cases i with
  | zero =>
    -- the lowest bit is rotated to the top
    have hbit := congrArg (·.getLsbD 31) hbits
    simpa [BitVec.getLsbD_rotateRight] using hbit
  | succ i =>
    have hbit := congrArg (·.getLsbD i) hbits
    simpa [BitVec.getLsbD_rotateRight, Nat.add_comm 1, show i < 31 by omega] using hbit

lemma checksumStep_injective (p : UInt8 × ℕ) : Function.Injective (checksumStep · p) := by
  intro x y h
  simp only [checksumStep] at h
  split at h
  · exact h
  · exact rotateRight1_injective (by simpa using h)

lemma toUInt32_injective : Function.Injective UInt8.toUInt32 := by
  intro a b h
  have := congrArg UInt32.toNat h
  rwa [UInt8.toNat_toUInt32, UInt8.toNat_toUInt32, UInt8.toNat_inj] at this

/-- A byte that is not left out tells its values apart. -/
lemma separates_checksumStep {i : ℕ} (hi : isExcluded i = false) {a b : UInt8} (hab : b ≠ a) :
    Separates checksumStep (a, i) (b, i) := by
  intro s h
  simp only [checksumStep, hi, Bool.false_eq_true, if_false] at h
  exact hab (toUInt32_injective (by simpa using h)).symm

/-! ## The checksum of a changed region -/

lemma zipIdx_set (xs : List UInt8) (i : ℕ) (b : UInt8) :
    (xs.set i b).zipIdx = xs.zipIdx.set i (b, i) := by
  apply List.ext_getElem?
  intro j
  by_cases hj : j = i
  · subst hj
    by_cases hlt : j < xs.length <;> simp [hlt]
  · rw [List.getElem?_set_ne (Ne.symm hj), List.getElem?_zipIdx, List.getElem?_zipIdx,
      List.getElem?_set_ne (Ne.symm hj)]

/-- Over whole sectors the checksum is the fold over all of them. -/
lemma bootChecksum_eq {xs : List UInt8} {bps : ℕ} (h : xs.length = bps * 11) :
    bootChecksum xs bps = xs.zipIdx.foldl checksumStep 0 := by
  rw [bootChecksum, h, Nat.min_self, ← h, List.take_length]

lemma bootChecksum_set_ne {xs : List UInt8} {bps i : ℕ} {a b : UInt8} (h : xs.length = bps * 11)
    (ha : xs[i]? = some a) (hab : b ≠ a) (hi : isExcluded i = false) :
    bootChecksum (xs.set i b) bps ≠ bootChecksum xs bps := by
  rw [bootChecksum_eq h, bootChecksum_eq (by rw [List.length_set, h]), zipIdx_set]
  have haz : xs.zipIdx[i]? = some (a, i) := by simp [ha]
  exact foldl_set_ne haz (separates_checksumStep hi hab) (fun p _ => checksumStep_injective p) 0

lemma bootChecksum_set_excluded {xs : List UInt8} {bps i : ℕ} {a : UInt8}
    (h : xs.length = bps * 11) (ha : xs[i]? = some a) (hi : isExcluded i = true) (b : UInt8) :
    bootChecksum (xs.set i b) bps = bootChecksum xs bps := by
  rw [bootChecksum_eq h, bootChecksum_eq (by rw [List.length_set, h]), zipIdx_set]
  have haz : xs.zipIdx[i]? = some (a, i) := by simp [ha]
  exact foldl_set_eq haz (fun s => by simp [checksumStep, hi]) 0

/-- The boot-sector parser does not read the bytes that the checksum leaves out. -/
lemma parseBoot_set_excluded {i : ℕ} (hi : isExcluded i = true) (boot : List UInt8) (b : UInt8) :
    parseBoot (boot.set i b) = parseBoot boot := by
  have hcases : i = 106 ∨ i = 107 ∨ i = 112 := by simpa [isExcluded] using hi
  rcases hcases with rfl | rfl | rfl <;>
    simp (disch := omega) only [parseBoot, window_set, leU16_set, leU32_set, leU64_set, u8At_set]

end Exfat

namespace Audit

/-! ## The audit of an exFAT image -/

/-- The finding of a boot-region checksum mismatch. -/
def IsChecksumMismatch (a : Anomaly) : Prop :=
  ∃ computed stored, a = .new (.exfatBootChecksumMismatch computed stored)

/-- Where the boot region is complete, its check compares two values. -/
lemma auditExfatChecksum_eq {img : List UInt8} {g : Geometry} (hg : g.Valid)
    (hlen : 12 * g.bytesPerSector ≤ img.length) :
    auditExfatChecksum img g =
      let computed := Exfat.bootChecksum (img.take (11 * g.bytesPerSector)) g.bytesPerSector
      let stored := leU32 img (11 * g.bytesPerSector)
      if computed ≠ stored then [.new (.exfatBootChecksumMismatch computed stored)] else [] := by
  have hbps := hg.le_bytesPerSector
  have hregion : readUpto img 0 (g.bytesPerSector * 12) = img.take (g.bytesPerSector * 12) := by
    rw [readUpto_eq, slice, List.drop_zero]
  have hcomm : 11 * g.bytesPerSector = g.bytesPerSector * 11 := Nat.mul_comm _ _
  rw [auditExfatChecksum]
  dsimp only
  rw [hregion, if_neg (by rw [List.length_take]; omega), List.take_take,
    leU32_take (by omega) (by omega), hcomm, Nat.min_eq_left (by omega)]

/-- The audit of an accepted exFAT image reports a checksum mismatch when its check does. -/
lemma auditReader_exFat {img : List UInt8} {g : Geometry} (hlen : 512 ≤ img.length)
    (hg : Exfat.parseBoot (img.take 512) = .ok g) :
    ∃ out, auditReader img = .ok out ∧
      ∀ a, IsChecksumMismatch a → (a ∈ out ↔ a ∈ auditExfatChecksum img g) := by
  have hvar := Geometry.variant_of_parseBoot hg
  obtain ⟨fs, hopen, rfl⟩ := FatFs.exists_openImage_of_parseBoot hlen hg
  refine ⟨_, auditReader_eq hopen, fun a ha => ?_⟩
  rw [mem_collectDeleted, structuralFindings, if_pos hvar]
  refine or_iff_left ?_
  rintro ⟨dir, -, n, -, -, rfl⟩
  obtain ⟨c, st, heq⟩ := ha
  exact absurd (congrArg Anomaly.kind heq) (by simp [deletedFinding, Anomaly.new])

/-- **Tampering with the boot region of an exFAT volume is detected.**  Let the stored checksum
of an accepted image agree with the computed one, and let one byte of its first 11 sectors be
changed.  If the byte is not left out of the checksum, and the changed image is still accepted
with the same sector size, the audit reports a mismatch; if it is left out, the audit reports
none. -/
theorem auditReader_boot_region {img img' : List UInt8} {g : Geometry} {i : ℕ}
    (hboot : Exfat.parseBoot (img.take 512) = .ok g)
    (hlen : 12 * g.bytesPerSector ≤ img.length)
    (hstored : leU32 img (11 * g.bytesPerSector)
      = Exfat.bootChecksum (img.take (11 * g.bytesPerSector)) g.bytesPerSector)
    (hlen' : img'.length = img.length) (hi : i < 11 * g.bytesPerSector)
    (hne : img'[i]? ≠ img[i]?) (hsame : ∀ j, j ≠ i → img'[j]? = img[j]?) :
    (i ∉ [106, 107, 112] → ∀ g', Exfat.parseBoot (img'.take 512) = .ok g' →
      g'.bytesPerSector = g.bytesPerSector →
      ∃ out, auditReader img' = .ok out ∧ ∃ a ∈ out, IsChecksumMismatch a) ∧
    (i ∈ [106, 107, 112] →
      ∃ out, auditReader img' = .ok out ∧ ∀ a ∈ out, ¬ IsChecksumMismatch a) := by
  have hbps := (Geometry.Valid.of_parseBoot hboot).le_bytesPerSector
  obtain ⟨a, ha⟩ : ∃ a, img[i]? = some a := ⟨_, List.getElem?_eq_getElem (by omega)⟩
  obtain ⟨b, hb⟩ : ∃ b, img'[i]? = some b := ⟨_, List.getElem?_eq_getElem (by omega)⟩
  have hab : b ≠ a := fun h => hne (by rw [hb, ha, h])
  obtain rfl : img' = img.set i b := eq_set_of_getElem?_eq hb hlen' hsame
  have htake : ∀ n, (img.set i b).take n = (img.take n).set i b := fun n => List.take_set
  have hregion : (img.take (11 * g.bytesPerSector)).length = g.bytesPerSector * 11 := by
    rw [List.length_take]
    omega
  have har : (img.take (11 * g.bytesPerSector))[i]? = some a := by
    rw [List.getElem?_take_of_lt hi, ha]
  have hstored' : leU32 (img.set i b) (11 * g.bytesPerSector)
      = Exfat.bootChecksum (img.take (11 * g.bytesPerSector)) g.bytesPerSector := by
    rw [leU32_set (Or.inl hi), hstored]
  have hlen512 : 512 ≤ (img.set i b).length := by
    rw [List.length_set]
    omega
  constructor
  · intro hnot g' hboot' hsize
    have hi' : Exfat.isExcluded i = false := by simpa [Exfat.isExcluded] using hnot
    obtain ⟨out, hout, hmem⟩ := auditReader_exFat hlen512 hboot'
    have heq := @auditExfatChecksum_eq (img.set i b) _ (Geometry.Valid.of_parseBoot hboot')
      (by rw [List.length_set, hsize]; omega)
    rw [hsize, hstored', htake] at heq
    have hmis : ∃ m ∈ auditExfatChecksum (img.set i b) g', IsChecksumMismatch m := by
      rw [heq, if_pos (Exfat.bootChecksum_set_ne hregion har hab hi')]
      exact ⟨_, List.mem_singleton.mpr rfl, _, _, rfl⟩
    obtain ⟨m, hm, hmm⟩ := hmis
    exact ⟨out, hout, m, (hmem m hmm).mpr hm, hmm⟩
  · intro hmem106
    have hi' : Exfat.isExcluded i = true := by simpa [Exfat.isExcluded] using hmem106
    have hboot' : Exfat.parseBoot ((img.set i b).take 512) = .ok g := by
      rw [htake, Exfat.parseBoot_set_excluded hi', hboot]
    obtain ⟨out, hout, hmem⟩ := auditReader_exFat hlen512 hboot'
    refine ⟨out, hout, fun m hm hmis => ?_⟩
    have hm' := (hmem m hmis).mp hm
    have heq := @auditExfatChecksum_eq (img.set i b) _ (Geometry.Valid.of_parseBoot hboot')
      (by rw [List.length_set]; omega)
    rw [hstored', htake] at heq
    rw [heq, if_neg (not_not.mpr (Exfat.bootChecksum_set_excluded hregion har hi' b))] at hm'
    exact absurd hm' (by simp)

/-- The boot region of a small exFAT volume: one FAT, four clusters of one sector. -/
def bootRegion : List UInt8 :=
  Synth.sectors 11 (List.replicate 3 0 ++ Exfat.SIGNATURE ++ List.replicate 61 0
    ++ LittleEndian.toBytes 8 40 ++ LittleEndian.toBytes 4 24 ++ LittleEndian.toBytes 4 1
    ++ LittleEndian.toBytes 4 32 ++ LittleEndian.toBytes 4 4 ++ LittleEndian.toBytes 4 2
    ++ List.replicate 8 0 ++ [9, 0, 1] ++ List.replicate 399 0 ++ [0x55, 0xAA])

/-- The boot region, and its checksum in the sector behind it. -/
def bootRegionImage : List UInt8 :=
  bootRegion ++ (LittleEndian.toBytes 4 (Exfat.bootChecksum bootRegion 512).toNat
    ++ List.replicate 508 0)

/-- Changing the volume serial number (byte 100) of `bootRegionImage` is reported, changing the
percentage in use (byte 112) is not. -/
theorem auditReader_boot_region_image :
    (∃ out, auditReader (bootRegionImage.set 100 0xFF) = .ok out ∧
      ∃ a ∈ out, IsChecksumMismatch a) ∧
    (∃ out, auditReader (bootRegionImage.set 112 0xFF) = .ok out ∧
      ∀ a ∈ out, ¬ IsChecksumMismatch a) := by
  have hregion : bootRegion.length = 11 * 512 := by decide +kernel
  have hlen : bootRegionImage.length = 12 * 512 := by
    rw [bootRegionImage, List.length_append, hregion, List.length_append,
      LittleEndian.length_toBytes, List.length_replicate]
  have hstored : leU32 bootRegionImage (11 * 512)
      = Exfat.bootChecksum (bootRegionImage.take (11 * 512)) 512 := by
    have hfields : bootRegionImage = [bootRegion, LittleEndian.toBytes 4
        (Exfat.bootChecksum bootRegion 512).toNat, List.replicate 508 0].flatten := by
      simp only [bootRegionImage, List.flatten_cons, List.flatten_nil, List.append_nil]
    have htake : bootRegionImage.take (11 * 512) = bootRegion := by
      rw [bootRegionImage, List.take_left' hregion]
    rw [htake, hfields]
    refine leU32_flatten (k := 1) rfl ?_
    rw [List.take_succ_cons, List.take_zero, List.flatten_singleton, hregion]
  obtain ⟨g, hg, hsize⟩ : ∃ g, Exfat.parseBoot (bootRegionImage.take 512) = .ok g ∧
      g.bytesPerSector = 512 := ⟨(Exfat.parseBoot (bootRegionImage.take 512)).toOption.getD default,
    by decide +kernel, by decide +kernel⟩
  have hg' : ∃ g', Exfat.parseBoot ((bootRegionImage.set 100 0xFF).take 512) = .ok g' ∧
      g'.bytesPerSector = 512 :=
    ⟨(Exfat.parseBoot ((bootRegionImage.set 100 0xFF).take 512)).toOption.getD default,
      by decide +kernel, by decide +kernel⟩
  obtain ⟨g', hg', hsize'⟩ := hg'
  have hne : ∀ i, i = 100 ∨ i = 112 → (bootRegionImage.set i 0xFF)[i]? ≠ bootRegionImage[i]? := by
    rintro i (rfl | rfl) <;> decide +kernel
  have hchange := fun i (hi : i = 100 ∨ i = 112) =>
    auditReader_boot_region hg (by rw [hsize, hlen]) (by rw [hsize]; exact hstored)
      (show (bootRegionImage.set i 0xFF).length = bootRegionImage.length from List.length_set)
      (by rw [hsize]; omega) (hne i hi) fun j hj => List.getElem?_set_ne (Ne.symm hj)
  exact ⟨(hchange 100 (Or.inl rfl)).1 (by decide) g' hg' (by rw [hsize', hsize]),
    (hchange 112 (Or.inr rfl)).2 (by decide)⟩

end Audit
end FatForensic
