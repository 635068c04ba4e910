import FatForensic.Volume.Containment
import FatForensic.Volume.MirrorBlind

/-!
# Where a volume has its regions

The boot sector, the copies of the FAT, the fixed root region and the clusters follow each other
and lie in the declared volume, and the clusters do not overlap.  The BPB parser makes sure of
this; the exFAT parser takes the offsets and lengths as they are.
-/

namespace FatForensic

open Window

namespace Geometry

variable {g : Geometry} {boot : List UInt8} {c d : UInt32}

/-- The regions of a FAT volume: the copies of the FAT behind the boot sector, the fixed root
region (FAT12/16) between them and the data region, and as many disjoint clusters as fit in the
declared volume. -/
structure SoundLayout (g : Geometry) : Prop where
  le_fatStart : g.bytesPerSector ≤ g.fatStart
  rootDir : g.variant ≠ .fat32 → g.rootDirStart = g.mirrorEnd ∧
    32 * g.rootEntryCount ≤ g.rootDirBytes ∧ g.rootDirStart + g.rootDirBytes = g.dataStart
  mirrorEnd_le : g.mirrorEnd ≤ g.dataStart
  cluster : ∀ c, g.InHeap c → ∃ o, g.clusterOffset c = some o ∧ g.dataStart ≤ o ∧
    o + g.clusterSize ≤ g.totalSectors * g.bytesPerSector
  disjoint : ∀ c d o p, g.InHeap c → g.InHeap d → c ≠ d → g.clusterOffset c = some o →
    g.clusterOffset d = some p → o + g.clusterSize ≤ p ∨ p + g.clusterSize ≤ o
  maximal : g.totalSectors * g.bytesPerSector
    < g.dataStart + (g.countOfClusters + 1) * g.clusterSize

/-- No sum, product or difference of `Geometry::parse` leaves its integer type, and no conversion
falls back to `u32::MAX`. -/
structure NoOverflow (f : Fields) : Prop where
  rootDirBytes : f.rootEntryCount * 32 < 2 ^ 64
  fatSectors : f.numFats * f.fatSizeSectors < 2 ^ 64
  metaSectors : f.reservedSectors + f.numFats * f.fatSizeSectors + rootDirSectors f < 2 ^ 64
  dataSectors : Geometry.metaSectors f ≤ f.totalSectors
  countOfClusters : (f.totalSectors - Geometry.metaSectors f) / f.sectorsPerCluster < 2 ^ 32
  fatStart : f.reservedSectors * f.bytesPerSector < 2 ^ 64
  rootDirStart : (f.reservedSectors + f.numFats * f.fatSizeSectors) * f.bytesPerSector < 2 ^ 64
  rootDirSize : rootDirSectors f * f.bytesPerSector < 2 ^ 32
  clusterSize : f.bytesPerSector * f.sectorsPerCluster < 2 ^ 32
  dataStart : Geometry.metaSectors f * f.bytesPerSector < 2 ^ 64

/-! ## Clusters -/

/-- The clusters of a volume do not overlap. -/
lemma Valid.disjoint (h : g.Valid) (hc : g.InHeap c) (hd : g.InHeap d) (hne : c ≠ d) {o p : ℕ}
    (ho : g.clusterOffset c = some o) (hp : g.clusterOffset d = some p) :
    o + g.clusterSize ≤ p ∨ p + g.clusterSize ≤ o := by
  rw [h.clusterOffset_eq hc.two_le, Option.some.injEq] at ho
  rw [h.clusterOffset_eq hd.two_le, Option.some.injEq] at hp
  have hnext : ∀ a b : ℕ, a < b → a * g.clusterSize + g.clusterSize ≤ b * g.clusterSize := by
    intro a b hlt
    rw [← Nat.succ_mul]
    exact Nat.mul_le_mul_right _ hlt
  have hc2 := hc.1
  have hd2 := hd.1
  rcases Nat.lt_or_gt_of_ne (mt UInt32.toNat_inj.mp hne) with hlt | hgt
  · have := hnext (c.toNat - 2) (d.toNat - 2) (by omega)
    omega
  · have := hnext (d.toNat - 2) (c.toNat - 2) (by omega)
    omega

/-- The clusters of a volume lie below a bound exactly when the last one does.  The numbers of
clusters are 32-bit numbers, so there are at most `2 ^ 32 - 2` of them. -/
lemma Valid.forall_clusterOffset_le_iff (h : g.Valid) (hpos : 0 < g.countOfClusters) (stop : ℕ) :
    (∀ c, g.InHeap c → ∃ o, g.clusterOffset c = some o ∧ o + g.clusterSize ≤ stop) ↔
      g.dataStart + min g.countOfClusters (2 ^ 32 - 2) * g.clusterSize ≤ stop := by
  constructor
  · intro hall
    have hlast : (UInt32.ofNat (min g.countOfClusters (2 ^ 32 - 2) + 1)).toNat
        = min g.countOfClusters (2 ^ 32 - 2) + 1 :=
      UInt32.toNat_ofNat_of_lt' (show _ < 2 ^ 32 by omega)
    have hheap : g.InHeap (UInt32.ofNat (min g.countOfClusters (2 ^ 32 - 2) + 1)) :=
      ⟨by omega, by omega⟩
    obtain ⟨o, ho, hle⟩ := hall _ hheap
    rw [h.clusterOffset_eq hheap.two_le, hlast, Option.some.injEq] at ho
    have hsucc : (min g.countOfClusters (2 ^ 32 - 2) + 1 - 2) * g.clusterSize + g.clusterSize
        = min g.countOfClusters (2 ^ 32 - 2) * g.clusterSize := by
      rw [← Nat.succ_mul]
      congr 1
      omega
    omega
  · intro hle c hc
    refine ⟨_, h.clusterOffset_eq hc.two_le, ?_⟩
    have hclt := c.toNat_lt
    have hmul : (c.toNat - 2) * g.clusterSize + g.clusterSize
        ≤ min g.countOfClusters (2 ^ 32 - 2) * g.clusterSize := by
      rw [← Nat.succ_mul]
      obtain ⟨h2, hcount⟩ := hc
      exact Nat.mul_le_mul_right _ (by omega)
    omega

/-! ## The BPB -/

/-- Rounding up to whole blocks adds less than a block. -/
lemma divCeil_mul_lt {a b : ℕ} (hb : 0 < b) : divCeil a b * b < a + b := by
  by_contra hle
  have hlt : divCeil a b - 1 < divCeil a b := by
    have : 0 < divCeil a b := by
      by_contra hzero
      rw [Nat.eq_zero_of_not_pos hzero] at hle
      omega
    omega
  rw [lt_divCeil_iff hb, Nat.sub_mul, Nat.one_mul] at hlt
  omega

lemma noOverflow_of_readFields {f : Fields} (hf : readFields boot = .ok f)
    (hmeta : metaSectors f ≤ f.totalSectors) : NoOverflow f := by
  have hchecked := readFields_ok hf
  have hres := hchecked.reservedSectors_lt
  have hspc := hchecked.sectorsPerCluster_le
  have hroot := hchecked.rootEntryCount_lt
  have htotal := hchecked.totalSectors_lt
  have hbps : 512 ≤ f.bytesPerSector ∧ f.bytesPerSector ≤ 4096 := by
    have hmem := hchecked.bytesPerSector_mem
    simp only [List.mem_cons, List.not_mem_nil, or_false] at hmem
    omega
  have hsectors : f.numFats * f.fatSizeSectors ≤ 2 ^ 8 * 2 ^ 32 :=
    Nat.mul_le_mul hchecked.numFats_lt.le hchecked.fatSizeSectors_lt.le
  have hrootdir : rootDirSectors f * f.bytesPerSector < f.rootEntryCount * 32 + f.bytesPerSector :=
    divCeil_mul_lt (by omega)
  have hbytes : ∀ n, n < 2 ^ 33 → n * f.bytesPerSector < 2 ^ 64 := by
    intro n hn
    have := Nat.mul_le_mul hn.le hbps.2
    omega
  rw [metaSectors] at hmeta
  refine ⟨by omega, by omega, by omega, hmeta, ?_, hbytes _ (by omega), hbytes _ (by omega),
    by omega, ?_, hbytes _ (by rw [metaSectors]; omega)⟩
  · exact lt_of_le_of_lt (Nat.div_le_self _ _) (by omega)
  · have := Nat.mul_le_mul hbps.2 hspc
    omega

/-- The fixed root region that an accepted BPB of a FAT12 or FAT16 volume yields. -/
lemma rootDir_of_parse (h : parse boot = .ok g) (hvar : g.variant ≠ .fat32) {f : Fields}
    (hf : readFields boot = .ok f) :
    g.rootDirStart = (f.reservedSectors + f.numFats * f.fatSizeSectors) * f.bytesPerSector ∧
      g.rootDirBytes = u32OrMax (rootDirSectors f * f.bytesPerSector) ∧
      g.rootEntryCount = f.rootEntryCount := by
  obtain ⟨f', hf', hparse⟩ := bind_eq_ok.mp h
  obtain rfl : f' = f := Except.ok.inj (hf'.symm.trans hf)
  dsimp only at hparse
  split at hparse
  · exact absurd hparse (by simp)
  rw [Except.ok.injEq] at hparse
  subst hparse
  have h32 : (variantOf (u32OrMax ((f'.totalSectors - metaSectors f') / f'.sectorsPerCluster))
      == .fat32) = false := beq_eq_false_iff_ne.mpr hvar
  simp [h32]

/-- The clusters are those that fit behind the other regions: their end lies in the declared
volume, and the end of one cluster more does not. -/
lemma clusters_fit (h : parse boot = .ok g) :
    g.dataStart + g.countOfClusters * g.clusterSize ≤ g.totalSectors * g.bytesPerSector ∧
      g.totalSectors * g.bytesPerSector
        < g.dataStart + (g.countOfClusters + 1) * g.clusterSize := by
  obtain ⟨f, hg⟩ := parse_ok h
  have hmeta := hg.metaSectors_le
  have hspc := hg.checked.sectorsPerCluster_pos
  have hpos := (Valid.of_parse h).bytesPerSector_pos
  have hcount := hg.countOfClusters
  rw [u32OrMax, if_pos (noOverflow_of_readFields hg.fields hmeta).countOfClusters] at hcount
  have hfit := Nat.div_mul_le_self (f.totalSectors - metaSectors f) f.sectorsPerCluster
  have hnext := Nat.lt_div_mul_add (a := f.totalSectors - metaSectors f) hspc
  have hbytes : ∀ n, metaSectors f * f.bytesPerSector + n * (f.bytesPerSector * f.sectorsPerCluster)
      = (metaSectors f + n * f.sectorsPerCluster) * f.bytesPerSector := fun n => by ring
  rw [hg.bytesPerSector] at hpos
  rw [hg.dataStart, hg.clusterSize, hg.totalSectors, hg.bytesPerSector, hcount, hbytes, hbytes,
    Nat.mul_le_mul_right_iff hpos, Nat.mul_lt_mul_right hpos, Nat.succ_mul]
  omega

/-- **The layout of a FAT volume.**  Every accepted BPB describes a volume whose regions follow
each other, with all the clusters that fit, and is computed without overflow. -/
theorem soundLayout_of_parse (h : parse boot = .ok g) :
    g.SoundLayout ∧ ∃ f, readFields boot = .ok f ∧ NoOverflow f := by
  have hvalid := Valid.of_parse h
  obtain ⟨f, hg⟩ := parse_ok h
  have hno := noOverflow_of_readFields hg.fields hg.metaSectors_le
  obtain ⟨hfit, hmaximal⟩ := clusters_fit h
  refine ⟨⟨?_, fun hvar => ?_, (regions_of_parse h).2.2, fun c hc => ?_,
    fun c d o p hc hd hne ho hp => hvalid.disjoint hc hd hne ho hp, hmaximal⟩, f, hg.fields, hno⟩
  · rw [hg.fatStart, hg.bytesPerSector]
    exact Nat.le_mul_of_pos_left _ hg.checked.reservedSectors_pos
  · obtain ⟨hrootstart, hrootbytes, hcount⟩ := rootDir_of_parse h hvar hg.fields
    rw [u32OrMax, if_pos hno.rootDirSize] at hrootbytes
    rw [hrootstart, hrootbytes, hcount, hg.dataStart, mirrorEnd, hg.fatStart, hg.numFats,
      hg.fatSizeSectors, hg.bytesPerSector, metaSectors]
    refine ⟨by ring, ?_, by ring⟩
    rw [Nat.mul_comm]
    exact (divCeil_le_iff (hg.bytesPerSector ▸ hvalid.bytesPerSector_pos)).mp le_rfl
  · have hoff := hvalid.clusterOffset_eq hc.two_le
    have hin := hc.mul_add_le
    exact ⟨_, hoff, Nat.le_add_right _ _, by omega⟩

theorem soundLayout_nested : Synth.nested.reader.geom.SoundLayout := by
  have hparse : parse (Synth.nested.image.take 512) = .ok Synth.nested.reader.geom := by
    decide +kernel
  exact (soundLayout_of_parse hparse).1

/-! ## The exFAT boot sector -/

/-- The regions of an exFAT volume: the first FAT between the boot sector and the clusters, and
these in the declared volume. -/
structure SoundExfatLayout (g : Geometry) : Prop where
  le_fatStart : g.bytesPerSector ≤ g.fatStart
  fat_le : g.fatStart + g.fatSizeSectors * g.bytesPerSector ≤ g.dataStart
  cluster : ∀ c, g.InHeap c → ∃ o, g.clusterOffset c = some o ∧
    o + g.clusterSize ≤ g.totalSectors * g.bytesPerSector

/-- The fields `FatOffset`, `FatLength`, `ClusterHeapOffset`, `ClusterCount`,
`SectorsPerClusterShift` and `VolumeLength` of an exFAT boot sector do not contradict each
other. -/
def FieldsAgree (boot : List UInt8) : Prop :=
  1 ≤ (leU32 boot 80).toNat ∧
    (leU32 boot 80).toNat + (leU32 boot 84).toNat ≤ (leU32 boot 88).toNat ∧
    (leU32 boot 88).toNat + min (leU32 boot 92).toNat (2 ^ 32 - 2) * 2 ^ (u8At boot 109).toNat
      ≤ (leU64 boot 72).toNat

instance (boot : List UInt8) : Decidable (FieldsAgree boot) := inferInstanceAs (Decidable (_ ∧ _))

/-- **When an exFAT boot sector describes a sound layout**: exactly when its fields do not
contradict each other. -/
theorem soundExfatLayout_iff (h : Exfat.parseBoot boot = .ok g) :
    g.SoundExfatLayout ↔ FieldsAgree boot := by
  have hvalid := Valid.of_parseBoot h
  obtain ⟨b, s, hg⟩ := parseBoot_ok h
  have hroot := hg.two_le_rootCluster
  have hrootle := hg.rootCluster_le
  have hpos : 0 < 2 ^ b := by positivity
  have hfat : g.bytesPerSector ≤ g.fatStart ↔ 1 ≤ (leU32 boot 80).toNat := by
    rw [hg.fatStart, hg.bytesPerSector]
    exact le_mul_iff_one_le_left hpos
  have hheap : g.fatStart + g.fatSizeSectors * g.bytesPerSector ≤ g.dataStart ↔
      (leU32 boot 80).toNat + (leU32 boot 84).toNat ≤ (leU32 boot 88).toNat := by
    rw [hg.fatStart, hg.fatSizeSectors, hg.bytesPerSector, hg.dataStart, ← Nat.add_mul]
    exact Nat.mul_le_mul_right_iff hpos
  have hclusters := hvalid.forall_clusterOffset_le_iff (by omega)
    (g.totalSectors * g.bytesPerSector)
  have hend : g.dataStart + min g.countOfClusters (2 ^ 32 - 2) * g.clusterSize
        ≤ g.totalSectors * g.bytesPerSector ↔
      (leU32 boot 88).toNat + min (leU32 boot 92).toNat (2 ^ 32 - 2) * 2 ^ s
        ≤ (leU64 boot 72).toNat := by
    have hbytes : ∀ m n : ℕ, m * 2 ^ b + n * (2 ^ b * 2 ^ s) = (m + n * 2 ^ s) * 2 ^ b :=
      fun m n => by ring
    rw [hg.dataStart, hg.countOfClusters, hg.clusterSize, hg.totalSectors, hg.bytesPerSector,
      hbytes]
    exact Nat.mul_le_mul_right_iff hpos
  rw [FieldsAgree, ← hg.sectorsPerClusterShift, ← hfat, ← hheap, ← hend, ← hclusters]
  exact ⟨fun h => ⟨h.1, h.2, h.3⟩, fun h => ⟨h.1, h.2.1, h.2.2⟩⟩

/-- The geometry of the exFAT boot sector with four clusters. -/
def fourClusters : Geometry := (Exfat.parseBoot (Synth.exfatBoot 4)).toOption.getD default

theorem soundExfatLayout_fourClusters : fourClusters.SoundExfatLayout := by
  have hboot : Exfat.parseBoot (Synth.exfatBoot 4) = .ok fourClusters ∧
      FieldsAgree (Synth.exfatBoot 4) := by
    decide +kernel
  exact (soundExfatLayout_iff hboot.1).mpr hboot.2

/-- An exFAT boot sector whose cluster heap starts at sector 1, as its FAT does. -/
def overlapping : List UInt8 := (Synth.exfatBoot 4).set 88 1

/-- The geometry of this boot sector. -/
def overlappingGeometry : Geometry := (Exfat.parseBoot overlapping).toOption.getD default

/-- **An exFAT boot sector may contradict itself.** -/
theorem not_soundExfatLayout_overlapping :
    ¬ ∀ boot g, Exfat.parseBoot boot = .ok g → g.SoundExfatLayout := by
  intro h
  have hboot : Exfat.parseBoot overlapping = .ok overlappingGeometry ∧
      overlappingGeometry.fatStart = 512 ∧ overlappingGeometry.dataStart = 512 ∧
      overlappingGeometry.fatSizeSectors * overlappingGeometry.bytesPerSector = 512 := by
    decide +kernel
  obtain ⟨hparse, hstart, hdata, hsize⟩ := hboot
  have hle := (h _ _ hparse).fat_le
  rw [hstart, hdata, hsize] at hle
  exact absurd hle (by norm_num)

end Geometry

end FatForensic
