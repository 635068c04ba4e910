import FatForensic.Volume.Runs

/-!
# The reader is blind to the mirror FATs

The reader caches the first FAT, and reads the boot sector, the fixed root region and clusters.
None of these lies in the later copies of the FAT, whatever the boot sector says, so their
content has no influence on any operation.
-/

namespace FatForensic

open Window Extent

/-- Where the second copy of the FAT starts. -/
def Geometry.mirrorStart (g : Geometry) : ℕ := g.fatStart + g.fatSizeSectors * g.bytesPerSector

/-- Where the last copy of the FAT ends. -/
def Geometry.mirrorEnd (g : Geometry) : ℕ :=
  g.fatStart + g.numFats * g.fatSizeSectors * g.bytesPerSector

namespace Geometry

/-- **Where a FAT volume has its regions**: the boot sector before the first FAT, and the fixed
root region and the clusters behind the last one. -/
lemma regions_of_parse {boot : List UInt8} {g : Geometry} (h : parse boot = .ok g) :
    512 ≤ g.fatStart ∧ (g.mirrorEnd ≤ g.rootDirStart ∨ g.rootDirBytes = 0) ∧
      g.mirrorEnd ≤ g.dataStart := by
  obtain ⟨f, hf, h⟩ := bind_eq_ok.mp h
  have hchecked := readFields_ok hf
  dsimp only at h
  split at h
  · exact absurd h (by simp)
  simp only [Except.ok.injEq] at h
  subst h
  have hbps : 512 ≤ f.bytesPerSector := by
    have hmem := hchecked.bytesPerSector_mem
    simp only [List.mem_cons, List.not_mem_nil, or_false] at hmem
    omega
  have hend : f.reservedSectors * f.bytesPerSector + f.numFats * f.fatSizeSectors * f.bytesPerSector
      = (f.reservedSectors + f.numFats * f.fatSizeSectors) * f.bytesPerSector :=
    (Nat.add_mul _ _ _).symm
  refine ⟨?_, ?_, ?_⟩
  · exact hbps.trans (Nat.le_mul_of_pos_left _ hchecked.reservedSectors_pos)
  · dsimp only [mirrorEnd]
    split
    · exact Or.inr rfl
    · exact Or.inl hend.le
  · dsimp only [mirrorEnd]
    rw [hend]
    exact Nat.mul_le_mul_right _ (Nat.le_add_right _ _)

lemma dataStart_le_of_clusterOffset {g : Geometry} {c : UInt32} {o : ℕ}
    (h : g.clusterOffset c = some o) : g.dataStart ≤ o := by
  rw [clusterOffset] at h
  split at h
  · exact absurd h (by simp)
  obtain ⟨rel, -, hadd⟩ := Option.bind_eq_some_iff.mp h
  rw [checkedAdd] at hadd
  split at hadd
  · rw [← Option.some.inj hadd]
    exact Nat.le_add_right _ _
  · exact absurd hadd (by simp)

end Geometry

namespace FatFs

/-- The reader with another image behind it. -/
def withImage (fs : FatFs) (img : List UInt8) : FatFs := { fs with image := img }

variable {fs : FatFs} {img : List UInt8}

/-- The second image opens to the same reader over it. -/
lemma openImage_agreeOutside {img' : List UInt8} (hopen : openImage img = .ok fs)
    (hfat : fs.geom.variant ≠ .exFat)
    (hagree : AgreeOutside fs.geom.mirrorStart fs.geom.mirrorEnd img img') :
    openImage img' = .ok (fs.withImage img') := by
  have hopened := openImage_ok hopen
  obtain ⟨hsig, hparse⟩ := parse_of_openImage hopen hfat
  obtain ⟨hstart, -, -⟩ := Geometry.regions_of_parse hparse
  have hlen' : 512 ≤ img'.length := by rw [hagree.length_eq]; exact hopened.le_length
  have hfirst : fs.geom.fatStart ≤ fs.geom.mirrorStart := Nat.le_add_right _ _
  have hwindow : slice img' 0 512 = slice img 0 512 := hagree.slice_eq (Or.inl (by omega))
  have hboot : img'.take 512 = img.take 512 := by simpa [slice] using hwindow
  have hcache : slice img' fs.geom.fatStart
      (min (fs.geom.fatSizeSectors * fs.geom.bytesPerSector) MAX_FAT_BYTES) = fs.fat := by
    rw [hopened.fat]
    exact hagree.slice_eq (Or.inl (Nat.add_le_add_left (Nat.min_le_left _ _) _))
  have hsig' : slice (img'.take 512) 3 8 ≠ Exfat.SIGNATURE := by
    rw [hboot, slice_take img (by norm_num)]
    exact hsig
  rw [openImage, readExact_boot hlen']
  simp only [bind, Except.bind, if_neg hsig']
  rw [hboot, hparse]
  dsimp only
  rw [readUpto_eq, hcache, ← hopened.maxClusters]
  rfl

/-! ## The operations -/

section Operations

variable {img' : List UInt8}

/-- A reader with another image that agrees in the fixed root region and in the clusters. -/
structure SameRegions (fs : FatFs) (img' : List UInt8) : Prop where
  rootDir : slice img' fs.geom.rootDirStart fs.geom.rootDirBytes
    = slice fs.image fs.geom.rootDirStart fs.geom.rootDirBytes
  data : ∀ o, fs.geom.dataStart ≤ o → img'[o]? = fs.image[o]?

variable (h : SameRegions fs img')

include h

omit h in
lemma dataStart_le_of_position {chain : List UInt32} {p o : ℕ} (hp : fs.position chain p = some o) :
    fs.geom.dataStart ≤ o := by
  rw [position, Option.bind_eq_some_iff] at hp
  obtain ⟨c, -, ho⟩ := hp
  obtain ⟨base, hbase, rfl⟩ := Option.map_eq_some_iff.mp ho
  exact (Geometry.dataStart_le_of_clusterOffset hbase).trans (Nat.le_add_right _ _)

lemma SameRegions.slice_data {off len : ℕ} (hoff : fs.geom.dataStart ≤ off) :
    slice img' off len = slice fs.image off len := by
  apply List.ext_getElem?
  intro k
  rw [getElem?_slice, getElem?_slice, h.data _ (by omega)]

lemma SameRegions.readClusters (cs : List UInt32) (out : List UInt8) :
    (fs.withImage img').readClusters cs out = fs.readClusters cs out := by
  induction cs generalizing out with
  | nil => rfl
  | cons c cs ih =>
    rw [FatFs.readClusters, FatFs.readClusters]
    split
    · rfl
    have hgeom : (fs.withImage img').geom = fs.geom := rfl
    rw [hgeom]
    cases hbase : fs.geom.clusterOffset c with
    | none => rfl
    | some base =>
      dsimp only
      have hread : slice (fs.withImage img').image base fs.geom.clusterSize
          = slice fs.image base fs.geom.clusterSize :=
        h.slice_data (Geometry.dataStart_le_of_clusterOffset hbase)
      rw [readRegionVec_eq, readRegionVec_eq, hread]
      exact ih _

lemma SameRegions.readDirBytes (source : DirSource) :
    (fs.withImage img').readDirBytes source = fs.readDirBytes source := by
  cases source with
  | fixedRoot =>
    rw [FatFs.readDirBytes, FatFs.readDirBytes, readRegionVec_eq, readRegionVec_eq]
    exact h.rootDir
  | chain first size contiguous => exact h.readClusters _ _

lemma SameRegions.resolveEntry (id : FileId) :
    (fs.withImage img').resolveEntry id = fs.resolveEntry id := by
  cases id with
  | root => rfl
  | entry d i =>
    rw [FatFs.resolveEntry, FatFs.resolveEntry, h.readDirBytes]
    rfl

lemma SameRegions.dirSource (id : FileId) :
    (fs.withImage img').dirSource id = fs.dirSource id := by
  cases id with
  | root => rfl
  | entry d i => rw [FatFs.dirSource, FatFs.dirSource, h.resolveEntry]

lemma SameRegions.dataExtent (id : FileId) :
    (fs.withImage img').dataExtent id = fs.dataExtent id := by
  cases id with
  | root => rfl
  | entry d i =>
    rw [FatFs.dataExtent, FatFs.dataExtent, h.resolveEntry]
    rfl

lemma SameRegions.readDir (id : FileId) :
    (fs.withImage img').readDir id = fs.readDir id := by
  rw [FatFs.readDir, FatFs.readDir, h.dirSource]
  cases fs.dirSource id with
  | error e => rfl
  | ok source =>
    simp only [bind, Except.bind, h.readDirBytes]
    rfl

lemma SameRegions.lookup (dir : FileId) (name : List UInt8) :
    (fs.withImage img').lookup dir name = fs.lookup dir name := by
  rw [FatFs.lookup, FatFs.lookup, h.readDir]

lemma SameRegions.nodeMeta (id : FileId) :
    (fs.withImage img').nodeMeta id = fs.nodeMeta id := by
  cases id with
  | root => rfl
  | entry d i => exact h.resolveEntry (.entry d i)

lemma SameRegions.runs (id : FileId) :
    (fs.withImage img').runs id = fs.runs id := by
  rw [FatFs.runs, FatFs.runs, h.dataExtent]
  simp only [runsFrom_congr (show (fs.withImage img').geom = fs.geom from rfl)]
  rfl

lemma SameRegions.byteAt (chain : List UInt32) :
    (fs.withImage img').byteAt chain = fs.byteAt chain := by
  funext p
  have hposition : (fs.withImage img').position chain p = fs.position chain p := rfl
  rw [FatFs.byteAt, FatFs.byteAt, hposition]
  cases hp : fs.position chain p with
  | none => rfl
  | some o => exact h.data o (dataStart_le_of_position hp)

end Operations

/-- **The reader is blind to the mirror FATs.**  An image that differs from one that opens as FAT
in the later copies of the FAT only opens as well, with the same geometry, and every operation
on every handle, forged ones included, has the same result on both. -/
theorem blind_to_mirrors {img' : List UInt8} (hopen : openImage img = .ok fs)
    (hfat : fs.geom.variant ≠ .exFat)
    (hagree : AgreeOutside fs.geom.mirrorStart fs.geom.mirrorEnd img img') :
    ∃ fs', openImage img' = .ok fs' ∧ fs'.geom = fs.geom ∧
      ∀ id, fs'.readDir id = fs.readDir id ∧
        (∀ name, fs'.lookup id name = fs.lookup id name) ∧
        fs'.nodeMeta id = fs.nodeMeta id ∧
        fs'.runs id = fs.runs id ∧
        ∀ off buf, fs'.readAt id off buf = fs.readAt id off buf := by
  have hopen' := openImage_agreeOutside hopen hfat hagree
  obtain ⟨-, hroot, hdata⟩ := Geometry.regions_of_parse (parse_of_openImage hopen hfat).2
  have himg : fs.image = img := (openImage_ok hopen).image
  have hsame : SameRegions fs img' := by
    refine ⟨?_, fun o ho => ?_⟩
    · rw [himg]
      rcases hroot with hle | hzero
      · exact hagree.slice_eq (Or.inr hle)
      · rw [hzero, slice_zero_len, slice_zero_len]
    · rw [himg]
      exact hagree.getElem?_eq o (Or.inr (hdata.trans ho))
  refine ⟨_, hopen', rfl, fun id => ⟨hsame.readDir id, hsame.lookup id, hsame.nodeMeta id,
    hsame.runs id, fun off buf => ?_⟩⟩
  cases hextent : fs.dataExtent id with
  | error e =>
    have hextent' := (hsame.dataExtent id).trans hextent
    rw [readAt, readAt, hextent, hextent']
    rfl
  | ok extent =>
    have hextent' := (hsame.dataExtent id).trans hextent
    rw [readAt_eq_run hopen hextent, readAt_eq_run hopen' hextent', hsame.byteAt]

/-- A FAT12 volume with two FATs, and a file of ten bytes in cluster 2. -/
def twoFats : Synth.Volume where
  image := (Synth.bpb 1 16 16 0).set 16 2 ++ Synth.table 1 [0xF8, 0xFF, 0xFF, 0xFF, 0x0F]
    ++ Synth.table 1 [0xF8, 0xFF, 0xFF, 0xFF, 0x0F]
    ++ Synth.sectors 1 (Synth.shortEntry (Synth.name 0x41) 0x20 2 10) ++ List.replicate 512 7
  opens := by decide +kernel

theorem blind_to_mirrors_twoFats :
    ∃ fs', openImage (twoFats.image.set 1027 0) = .ok fs' ∧
      fs'.runs (.entry FIXED_ROOT 0) = twoFats.reader.runs (.entry FIXED_ROOT 0) := by
  have hgeom : twoFats.reader.geom.variant ≠ .exFat ∧
      twoFats.reader.geom.mirrorStart = 1024 ∧ twoFats.reader.geom.mirrorEnd = 1536 := by
    decide +kernel
  obtain ⟨hvariant, hstart, hend⟩ := hgeom
  have hagree : AgreeOutside twoFats.reader.geom.mirrorStart twoFats.reader.geom.mirrorEnd
      twoFats.image (twoFats.image.set 1027 0) := by
    refine ⟨List.length_set, fun k hk => List.getElem?_set_ne ?_⟩
    rw [hstart, hend] at hk
    omega
  obtain ⟨fs', hopen', -, hall⟩ := blind_to_mirrors twoFats.openImage_image hvariant hagree
  exact ⟨fs', hopen', (hall _).2.2.2.1⟩

end FatFs
end FatForensic
