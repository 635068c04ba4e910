import FatForensic.Volume.Containment
import FatForensic.Volume.FatEntry

/-!
# The FAT as a table of pointers

Which cluster numbers survive the decoding of an entry, and whether the FAT has an entry for
every cluster of the volume.
-/

namespace FatForensic

open LittleEndian Window

variable {fat : List UInt8} {variant : FatVariant} {c : UInt32}

/-! ## Pointers to clusters of the volume -/

/-- A boot sector that one of the two parsers accepts, with its geometry. -/
def Accepts (boot : List UInt8) (g : Geometry) : Prop :=
  Geometry.parse boot = .ok g ∨ Exfat.parseBoot boot = .ok g

/-- The low bits of an entry that hold the pointer on disk: all, but for the four reserved ones
of FAT32. -/
def pointerBits : FatVariant → ℕ
  | .fat12 => 12
  | .fat16 => 16
  | .fat32 => 28
  | .exFat => 32

/-- The entry of `c` lies in the FAT and stores `v`. -/
def StoresPointer (fat : List UInt8) (variant : FatVariant) (c v : UInt32) : Prop :=
  entryBits variant * (c.toNat + 1) ≤ 8 * fat.length ∧
    ofBytes fat / 2 ^ (entryBits variant * c.toNat) % 2 ^ pointerBits variant = v.toNat

/-- Every number of a cluster of the volume that an entry stores is decoded as it is, ends no
chain, and is where the chain goes on. -/
def PointersFollowed (g : Geometry) : Prop :=
  ∀ fat c v, g.InHeap v → StoresPointer fat g.variant c v →
    fatEntry fat g.variant c = v ∧ isBad g.variant v = false ∧ isEoc g.variant v = false ∧
      (2 ≤ c → ∀ n, followChain fat g.variant c (n + 1) = c :: followChain fat g.variant v n)

/-- The FAT type of an accepted volume bounds its clusters. -/
lemma Accepts.countOfClusters_lt {boot : List UInt8} {g : Geometry} (h : Accepts boot g) :
    (g.variant = .fat12 → g.countOfClusters < 4085) ∧
      (g.variant = .fat16 → g.countOfClusters < 65525) := by
  rcases h with h | h
  · obtain ⟨f, hg⟩ := Geometry.parse_ok h
    rw [hg.variant, Geometry.variantOf, FAT12_MAX_CLUSTERS, FAT16_MAX_CLUSTERS]
    split
    · simpa
    split
    · simpa
    · simp
  · simp [Geometry.variant_of_parseBoot h]

/-- Numbers below the bad-cluster marker end no chain. -/
lemma isBad_isEoc_eq_false {v : UInt32} (h : v.toNat + 1 < (eocThreshold variant).toNat) :
    isBad variant v = false ∧ isEoc variant v = false := by
  have hbad : (eocThreshold variant - 1).toNat = (eocThreshold variant).toNat - 1 := by
    cases variant <;> rfl
  constructor
  · rw [isBad, beq_eq_false_iff_ne, Ne, ← UInt32.toNat_inj, hbad]
    omega
  · rw [isEoc, decide_eq_false_iff_not, UInt32.le_iff_toNat_le]
    omega

/-- A stored number that fits the decoded bits is decoded as it is. -/
lemma StoresPointer.fatEntry_eq {v : UInt32} (h : StoresPointer fat variant c v)
    (hv : v.toNat < 2 ^ decodedBits variant) : fatEntry fat variant c = v := by
  have hin := (entryOffset_add_le_iff fat.length).mpr h.1
  have hdvd : 2 ^ decodedBits variant ∣ 2 ^ pointerBits variant :=
    pow_dvd_pow 2 (by cases variant <;> decide)
  rw [← UInt32.toNat_inj, toNat_fatEntry hin, ← Nat.mod_mod_of_dvd _ hdvd, h.2,
    Nat.mod_eq_of_lt hv]

/-- Where the pointer goes to a cluster, the chain goes on. -/
lemma followChain_succ {v : UInt32} (hc : 2 ≤ c) (hv : 2 ≤ v) (hentry : fatEntry fat variant c = v)
    (hbad : isBad variant v = false) (heoc : isEoc variant v = false) (n : ℕ) :
    followChain fat variant c (n + 1) = c :: followChain fat variant v n := by
  have hgo : ¬ (v < 2 ∨ isBad variant v = true ∨ isEoc variant v = true) := by
    simpa [hbad, heoc] using hv
  rw [followChain, followChainFrom, if_neg (UInt32.not_lt.mpr hc), hentry]
  dsimp only
  rw [if_neg hgo]
  rfl

/-- A cluster that points to itself is repeated up to the cap. -/
lemma followChain_self (hc : 2 ≤ c) (hentry : fatEntry fat variant c = c)
    (hbad : isBad variant c = false) (heoc : isEoc variant c = false) (n : ℕ) :
    followChain fat variant c n = List.replicate n c := by
  induction n with
  | zero => rfl
  | succ n ih => rw [followChain_succ hc hc hentry hbad heoc, ih, List.replicate_succ]

/-- **Which volumes have representable cluster numbers**: those of less than `0x0FFFFFF6`
clusters. -/
theorem pointersFollowed_iff {boot : List UInt8} {g : Geometry} (h : Accepts boot g) :
    PointersFollowed g ↔ g.countOfClusters < 0x0FFFFFF6 := by
  obtain ⟨h12, h16⟩ := h.countOfClusters_lt
  constructor
  · intro hall
    by_contra hle
    have hvar : g.variant = .fat32 ∨ g.variant = .exFat := by
      cases hvar : g.variant with
      | fat12 => exact absurd (h12 hvar) (by omega)
      | fat16 => exact absurd (h16 hvar) (by omega)
      | fat32 => exact Or.inl rfl
      | exFat => exact Or.inr rfl
    -- cluster 2 points to the cluster with the number of the bad-cluster marker
    have hheap : g.InHeap 0x0FFFFFF7 := ⟨by decide, by simpa using hle⟩
    have hstores : StoresPointer (List.replicate 8 0 ++ toBytes 4 0x0FFFFFF7) g.variant 2
        0x0FFFFFF7 := by
      rcases hvar with hvar | hvar <;> rw [hvar] <;> exact ⟨by decide, by decide⟩
    have hbad := (hall _ _ _ hheap hstores).2.1
    rcases hvar with hvar | hvar <;> rw [hvar] at hbad <;> exact absurd hbad (by decide)
  · intro hlt fat c v hv hstores
    have hvle := hv.2
    have hmax : v.toNat + 1 < (eocThreshold g.variant).toNat := by
      cases hvar : g.variant with
      | fat12 =>
        have := h12 hvar
        show v.toNat + 1 < 0x0FF8
        omega
      | fat16 =>
        have := h16 hvar
        show v.toNat + 1 < 0xFFF8
        omega
      | fat32 | exFat =>
        show v.toNat + 1 < 0x0FFFFFF8
        omega
    have hfits : (eocThreshold g.variant).toNat < 2 ^ decodedBits g.variant := by
      cases g.variant <;> decide
    have hentry := hstores.fatEntry_eq (by omega)
    obtain ⟨hbad, heoc⟩ := isBad_isEoc_eq_false hmax
    exact ⟨hentry, hbad, heoc, fun hc n => followChain_succ hc hv.two_le hentry hbad heoc n⟩

theorem pointersFollowed_nested : PointersFollowed Synth.nested.reader.geom := by
  have hparse : Geometry.parse (Synth.nested.image.take 512) = .ok Synth.nested.reader.geom ∧
      Synth.nested.reader.geom.countOfClusters < 0x0FFFFFF6 := by
    decide +kernel
  exact (pointersFollowed_iff (Or.inl hparse.1)).mpr hparse.2

/-- The geometry of an exFAT volume of `0x10000000` clusters. -/
def largeGeometry : Geometry :=
  (Exfat.parseBoot (Synth.exfatBoot 0x10000000)).toOption.getD default

/-- **A cluster number can get lost.**  On an exFAT volume of `0x10000000` clusters, a pointer to
cluster `0x10000001` is decoded as 1. -/
theorem not_pointersFollowed_large : ¬ ∀ boot g, Accepts boot g → PointersFollowed g := by
  intro h
  have hlarge : Exfat.parseBoot (Synth.exfatBoot 0x10000000) = .ok largeGeometry ∧
      largeGeometry.variant = .exFat ∧ largeGeometry.countOfClusters = 0x10000000 := by
    decide +kernel
  obtain ⟨hparse, hvar, hcount⟩ := hlarge
  have hheap : largeGeometry.InHeap 0x10000001 := ⟨by decide, by rw [hcount]; decide⟩
  have hstores : StoresPointer (List.replicate 8 0 ++ toBytes 4 0x10000001) largeGeometry.variant
      2 0x10000001 := by
    rw [hvar]
    exact ⟨by decide, by decide⟩
  have hentry := (h _ _ (Or.inr hparse) _ _ _ hheap hstores).1
  rw [hvar] at hentry
  exact absurd hentry (by decide)

/-! ## Room for the entries -/

/-- The FAT region holds the bytes that are read for every cluster. -/
def EntriesPresent (g : Geometry) : Prop :=
  ∀ c, g.InHeap c →
    entryOffset g.variant c + entryLength g.variant ≤ g.fatSizeSectors * g.bytesPerSector

/-- An accepted volume without clusters has room for the two reserved entries. -/
lemma Accepts.reserved_le {boot : List UInt8} {g : Geometry} (h : Accepts boot g)
    (hcount : g.countOfClusters = 0) : 32 * 2 ≤ 8 * (g.fatSizeSectors * g.bytesPerSector) := by
  rcases h with h | h
  · obtain ⟨f, hg⟩ := Geometry.parse_ok h
    have hle := (Geometry.Valid.of_parse h).le_bytesPerSector
    have hmul := Nat.le_mul_of_pos_left g.bytesPerSector
      (hg.fatSizeSectors ▸ hg.checked.fatSizeSectors_pos)
    omega
  · -- there is a cluster, that of the root
    obtain ⟨b, s, hg⟩ := Geometry.parseBoot_ok h
    have hroot := hg.two_le_rootCluster
    have hrootle := hg.rootCluster_le
    omega

/-- **When the FAT covers every cluster**: exactly when it has room for two entries more than
there are clusters (or for all 32-bit numbers).  An entry that it does not hold is read as free,
whatever part of the FAT is there. -/
theorem entriesPresent_iff {boot : List UInt8} {g : Geometry} (h : Accepts boot g) :
    (EntriesPresent g ↔ entryBits g.variant * min (g.countOfClusters + 2) (2 ^ 32)
      ≤ 8 * (g.fatSizeSectors * g.bytesPerSector)) ∧
    ∀ fat : List UInt8, fat.length ≤ g.fatSizeSectors * g.bytesPerSector → ∀ c,
      ¬ entryOffset g.variant c + entryLength g.variant ≤ g.fatSizeSectors * g.bytesPerSector →
      fatEntry fat g.variant c = 0 := by
  refine ⟨⟨fun hall => ?_, fun hroom c hc => ?_⟩, fun fat hfat c hout => ?_⟩
  · rcases Nat.eq_zero_or_pos g.countOfClusters with hzero | hpos
    · have hbits : entryBits g.variant ≤ 32 := by cases g.variant <;> decide
      have hreserved := h.reserved_le hzero
      rw [hzero, show min (0 + 2) (2 ^ 32) = 2 from rfl]
      exact (Nat.mul_le_mul_right 2 hbits).trans hreserved
    · -- the entry of the last cluster is the last one needed
      have hlast : (UInt32.ofNat (min (g.countOfClusters + 1) (2 ^ 32 - 1))).toNat
          = min (g.countOfClusters + 1) (2 ^ 32 - 1) :=
        UInt32.toNat_ofNat_of_lt' (show _ < 2 ^ 32 by omega)
      have hin := hall (UInt32.ofNat (min (g.countOfClusters + 1) (2 ^ 32 - 1)))
        ⟨by omega, by omega⟩
      rw [entryOffset_add_le_iff, hlast] at hin
      rwa [show min (g.countOfClusters + 2) (2 ^ 32)
        = min (g.countOfClusters + 1) (2 ^ 32 - 1) + 1 by omega]
  · rw [entryOffset_add_le_iff]
    have hnum : c.toNat + 1 ≤ min (g.countOfClusters + 2) (2 ^ 32) := by
      have := hc.2
      have := c.toNat_lt
      omega
    exact (Nat.mul_le_mul_left _ hnum).trans hroom
  · exact fatEntry_eq_zero fun hin => hout (hin.trans hfat)

/-- A FAT of one sector covers the volume of one cluster. -/
theorem entriesPresent_spill : EntriesPresent FatFs.spill.reader.geom := by
  have hparse : Geometry.parse (FatFs.spill.image.take 512) = .ok FatFs.spill.reader.geom ∧
      entryBits FatFs.spill.reader.geom.variant
          * min (FatFs.spill.reader.geom.countOfClusters + 2) (2 ^ 32)
        ≤ 8 * (FatFs.spill.reader.geom.fatSizeSectors
          * FatFs.spill.reader.geom.bytesPerSector) := by
    decide +kernel
  exact (entriesPresent_iff (Or.inl hparse.1)).1.mpr hparse.2

/-- **A FAT can be too small**: that of the nested volume has 128 entries for its 69998
clusters. -/
theorem not_entriesPresent_nested : ¬ ∀ boot g, Accepts boot g → EntriesPresent g := by
  intro h
  have hnested : Geometry.parse (Synth.nested.image.take 512) = .ok Synth.nested.reader.geom ∧
      Synth.nested.reader.geom.variant = .fat32 ∧
      Synth.nested.reader.geom.countOfClusters = 69998 ∧
      Synth.nested.reader.geom.fatSizeSectors * Synth.nested.reader.geom.bytesPerSector = 512 := by
    decide +kernel
  obtain ⟨hparse, hvar, hcount, hsize⟩ := hnested
  have hin := h _ _ (Or.inl hparse) 128 ⟨by decide, by rw [hcount]; decide⟩
  rw [hvar, hsize] at hin
  exact absurd hin (by decide)

end FatForensic
