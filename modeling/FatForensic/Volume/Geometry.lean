import FatForensic.Core.Fs

/-!
# What the boot parsers guarantee

The bounds on a geometry that both boot parsers establish, and what they give: every
cluster number from 2 on has an offset, and the offset is computed without overflow.
-/

namespace FatForensic

open Window

/-- The bounds every accepted boot sector puts on its geometry. -/
structure Geometry.Valid (g : Geometry) : Prop where
  bytesPerSector_mem : g.bytesPerSector ∈ [512, 1024, 2048, 4096]
  sectorsPerCluster_pos : 0 < g.sectorsPerCluster
  clusterSize_eq : g.clusterSize = g.bytesPerSector * g.sectorsPerCluster
  clusterSize_le : g.clusterSize ≤ 2 ^ 25
  countOfClusters_lt : g.countOfClusters < 2 ^ 32
  rootDirBytes_lt : g.rootDirBytes < 2 ^ 32
  dataStart_lt : g.dataStart < 2 ^ 56

/-- The bounds on the fields that `read_fields` returns. -/
structure Fields.Checked (f : Fields) : Prop where
  bytesPerSector_mem : f.bytesPerSector ∈ [512, 1024, 2048, 4096]
  sectorsPerCluster_pos : 0 < f.sectorsPerCluster
  sectorsPerCluster_le : f.sectorsPerCluster ≤ 128
  reservedSectors_pos : 0 < f.reservedSectors
  reservedSectors_lt : f.reservedSectors < 2 ^ 16
  numFats_pos : 0 < f.numFats
  numFats_lt : f.numFats < 2 ^ 8
  fatSizeSectors_pos : 0 < f.fatSizeSectors
  fatSizeSectors_lt : f.fatSizeSectors < 2 ^ 32
  rootEntryCount_lt : f.rootEntryCount < 2 ^ 16
  totalSectors_pos : 0 < f.totalSectors
  totalSectors_lt : f.totalSectors < 2 ^ 32

namespace Geometry

/-! ## The BPB parser -/

lemma bytesPerSector_mem_of_isPowerOfTwo {n : ℕ} (h : isPowerOfTwo n) (hlo : 512 ≤ n)
    (hhi : n ≤ 4096) : n ∈ [512, 1024, 2048, 4096] := by
  unfold isPowerOfTwo at h
  have h9 : 9 ≤ n.log2 := by
    by_contra hlt
    have : 2 ^ n.log2 ≤ 2 ^ 8 := Nat.pow_le_pow_right (by norm_num) (by omega)
    omega
  have h12 : n.log2 ≤ 12 := by
    by_contra hlt
    have : 2 ^ 13 ≤ 2 ^ n.log2 := Nat.pow_le_pow_right (by norm_num) (by omega)
    omega
  have : n.log2 = 9 ∨ n.log2 = 10 ∨ n.log2 = 11 ∨ n.log2 = 12 := by omega
  rw [← h]
  rcases this with e | e | e | e <;> rw [e] <;> simp

lemma readFields_ok {boot : List UInt8} {f : Fields} (h : readFields boot = .ok f) :
    f.Checked := by
  simp only [readFields] at h
  split at h
  · exact absurd h (by simp)
  split at h
  · exact absurd h (by simp)
  next hbps =>
  split at h
  · exact absurd h (by simp)
  next hspc =>
  split at h
  · exact absurd h (by simp)
  next hres =>
  split at h
  · exact absurd h (by simp)
  next hnum =>
  split at h
  · exact absurd h (by simp)
  next hfat =>
  split at h
  · exact absurd h (by simp)
  next htot =>
  simp only [Except.ok.injEq] at h
  subst h
  simp only [not_or, not_not] at hbps hspc
  have hfatlt : fatSizeField boot < 2 ^ 32 := by
    have h16 := (leU16 boot 22).toNat_lt
    have h32 := (leU32 boot 36).toNat_lt
    unfold fatSizeField
    split <;> omega
  have htotlt : totalSectorsField boot < 2 ^ 32 := by
    have h16 := (leU16 boot 19).toNat_lt
    have h32 := (leU32 boot 32).toNat_lt
    unfold totalSectorsField
    split <;> omega
  exact ⟨bytesPerSector_mem_of_isPowerOfTwo hbps.1 hbps.2.1 hbps.2.2, hspc.2.1, hspc.2.2,
    Nat.pos_of_ne_zero hres, (leU16 boot 14).toNat_lt, Nat.pos_of_ne_zero hnum,
    (u8At boot 16).toNat_lt, Nat.pos_of_ne_zero hfat, hfatlt, (leU16 boot 17).toNat_lt,
    Nat.pos_of_ne_zero htot, htotlt⟩

/-- The geometry that an accepted BPB with these fields yields. -/
structure ParsedFrom (boot : List UInt8) (f : Fields) (g : Geometry) : Prop where
  fields : readFields boot = .ok f
  metaSectors_le : metaSectors f ≤ f.totalSectors
  bytesPerSector : g.bytesPerSector = f.bytesPerSector
  sectorsPerCluster : g.sectorsPerCluster = f.sectorsPerCluster
  clusterSize : g.clusterSize = f.bytesPerSector * f.sectorsPerCluster
  numFats : g.numFats = f.numFats
  fatSizeSectors : g.fatSizeSectors = f.fatSizeSectors
  totalSectors : g.totalSectors = f.totalSectors
  countOfClusters : g.countOfClusters =
    u32OrMax ((f.totalSectors - metaSectors f) / f.sectorsPerCluster)
  variant : g.variant = variantOf g.countOfClusters
  fatStart : g.fatStart = f.reservedSectors * f.bytesPerSector
  rootDirBytes_lt : g.rootDirBytes < 2 ^ 32
  dataStart : g.dataStart = metaSectors f * f.bytesPerSector

lemma ParsedFrom.checked {boot : List UInt8} {f : Fields} {g : Geometry}
    (h : ParsedFrom boot f g) : f.Checked :=
  readFields_ok h.fields

lemma parse_ok {boot : List UInt8} {g : Geometry} (h : parse boot = .ok g) :
    ∃ f, ParsedFrom boot f g := by
  obtain ⟨f, hf, h⟩ := bind_eq_ok.mp h
  dsimp only at h
  split at h
  · exact absurd h (by simp)
  next hmeta =>
  simp only [Except.ok.injEq] at h
  subst h
  refine ⟨f, hf, Nat.le_of_not_gt hmeta, rfl, rfl, rfl, rfl, rfl, rfl, rfl, rfl, rfl, ?_, rfl⟩
  dsimp only
  split
  · norm_num
  · exact u32OrMax_lt _

lemma signature_of_parse {boot : List UInt8} {g : Geometry} (h : parse boot = .ok g) :
    leU16 boot 510 = 0xAA55 := by
  obtain ⟨f, hg⟩ := parse_ok h
  have hf := hg.fields
  simp only [readFields] at hf
  split at hf
  · exact absurd hf (by simp)
  next hsig => exact UInt16.toNat_inj.mp (not_not.mp hsig)

lemma variantOf_ne_exFat (n : ℕ) : variantOf n ≠ .exFat := by
  unfold variantOf
  split
  · simp
  · split <;> simp

lemma variant_ne_exFat_of_parse {boot : List UInt8} {g : Geometry} (h : parse boot = .ok g) :
    g.variant ≠ .exFat := by
  obtain ⟨f, hg⟩ := parse_ok h
  rw [hg.variant]
  exact variantOf_ne_exFat _

/-- The fixed root region lies before the clusters. -/
lemma rootDir_le_dataStart {boot : List UInt8} {g : Geometry} (h : parse boot = .ok g) :
    g.rootDirStart + g.rootDirBytes ≤ g.dataStart := by
  obtain ⟨f, -, h⟩ := bind_eq_ok.mp h
  dsimp only at h
  split at h
  · exact absurd h (by simp)
  simp only [Except.ok.injEq] at h
  subst h
  dsimp only
  split
  · exact Nat.zero_le _
  · calc _ ≤ (f.reservedSectors + f.numFats * f.fatSizeSectors) * f.bytesPerSector
          + rootDirSectors f * f.bytesPerSector :=
        Nat.add_le_add_left (u32OrMax_le _) _
      _ = metaSectors f * f.bytesPerSector := by rw [metaSectors, ← Nat.add_mul]

lemma Valid.of_parse {boot : List UInt8} {g : Geometry} (h : parse boot = .ok g) : g.Valid := by
  obtain ⟨f, hg⟩ := parse_ok h
  have hf := hg.checked
  have hbpsle : f.bytesPerSector ≤ 4096 := by
    have hmem := hf.bytesPerSector_mem
    simp only [List.mem_cons, List.not_mem_nil, or_false] at hmem
    omega
  refine ⟨hg.bytesPerSector ▸ hf.bytesPerSector_mem,
    hg.sectorsPerCluster ▸ hf.sectorsPerCluster_pos,
    by rw [hg.clusterSize, hg.bytesPerSector, hg.sectorsPerCluster], ?_, ?_, hg.rootDirBytes_lt, ?_⟩
  · calc g.clusterSize = f.bytesPerSector * f.sectorsPerCluster := hg.clusterSize
      _ ≤ 4096 * 128 := Nat.mul_le_mul hbpsle hf.sectorsPerCluster_le
      _ ≤ 2 ^ 25 := by norm_num
  · rw [hg.countOfClusters]
    exact u32OrMax_lt _
  · have hmeta := hg.metaSectors_le
    have htot := hf.totalSectors_lt
    calc g.dataStart = metaSectors f * f.bytesPerSector := hg.dataStart
      _ ≤ metaSectors f * 4096 := Nat.mul_le_mul_left _ hbpsle
      _ < 2 ^ 56 := by omega

/-! ## The exFAT parser -/

/-- The checks of the exFAT boot parser, and the geometry that it returns for the two shifts. -/
structure ExfatParsedFrom (boot : List UInt8) (b s : ℕ) (g : Geometry) : Prop where
  signature : window 8 boot 3 = some Exfat.SIGNATURE
  bootSignature : leU16 boot 510 = 0xAA55
  le_bytesPerSectorShift : 9 ≤ b
  bytesPerSectorShift_le : b ≤ 12
  shifts_le : b + s ≤ 25
  bytesPerSectorShift : b = (u8At boot 108).toNat
  sectorsPerClusterShift : s = (u8At boot 109).toNat
  variant : g.variant = .exFat
  bytesPerSector : g.bytesPerSector = 2 ^ b
  sectorsPerCluster : g.sectorsPerCluster = 2 ^ s
  clusterSize : g.clusterSize = 2 ^ b * 2 ^ s
  countOfClusters : g.countOfClusters = (leU32 boot 92).toNat
  rootDirStart : g.rootDirStart = 0
  rootDirBytes : g.rootDirBytes = 0
  dataStart : g.dataStart = (leU32 boot 88).toNat * 2 ^ b
  two_le_rootCluster : 2 ≤ g.rootCluster.toNat
  rootCluster_le : g.rootCluster.toNat ≤ g.countOfClusters + 1
  fatStart : g.fatStart = (leU32 boot 80).toNat * 2 ^ b
  fatSizeSectors : g.fatSizeSectors = (leU32 boot 84).toNat
  totalSectors : g.totalSectors = (leU64 boot 72).toNat

lemma parseBoot_ok {boot : List UInt8} {g : Geometry} (h : Exfat.parseBoot boot = .ok g) :
    ∃ b s, ExfatParsedFrom boot b s g := by
  simp only [Exfat.parseBoot] at h
  split at h
  · exact absurd h (by simp)
  next hsig =>
  split at h
  · exact absurd h (by simp)
  next h55 =>
  split at h
  · exact absurd h (by simp)
  next hb =>
  split at h
  · exact absurd h (by simp)
  next hs =>
  split at h
  · exact absurd h (by simp)
  split at h
  · exact absurd h (by simp)
  next hroot =>
  simp only [Except.ok.injEq] at h
  subst h
  simp only [not_not] at hsig h55 hb
  simp only [not_or] at hroot
  have h2 : 2 ≤ (leU32 boot 96).toNat := by
    have := hroot.1
    rw [UInt32.lt_iff_toNat_lt] at this
    exact Nat.le_of_not_lt this
  have hle : (leU32 boot 96).toNat ≤ (leU32 boot 92).toNat + 1 := by
    have := hroot.2
    unfold saturatingAdd32 at this
    omega
  exact ⟨(u8At boot 108).toNat, (u8At boot 109).toNat, hsig, UInt16.toNat_inj.mp h55, hb.1, hb.2,
    by omega, rfl, rfl, rfl, rfl, rfl, rfl, rfl, rfl, rfl, rfl, h2, hle, rfl, rfl, rfl⟩

lemma variant_of_parseBoot {boot : List UInt8} {g : Geometry} (h : Exfat.parseBoot boot = .ok g) :
    g.variant = .exFat := by
  obtain ⟨b, s, hg⟩ := parseBoot_ok h
  exact hg.variant

lemma Valid.of_parseBoot {boot : List UInt8} {g : Geometry} (h : Exfat.parseBoot boot = .ok g) :
    g.Valid := by
  obtain ⟨b, s, hg⟩ := parseBoot_ok h
  have hmem : (2 : ℕ) ^ b ∈ [512, 1024, 2048, 4096] := by
    have hlo := hg.le_bytesPerSectorShift
    have hhi := hg.bytesPerSectorShift_le
    have : b = 9 ∨ b = 10 ∨ b = 11 ∨ b = 12 := by omega
    rcases this with rfl | rfl | rfl | rfl <;> simp
  refine ⟨hg.bytesPerSector ▸ hmem, by rw [hg.sectorsPerCluster]; positivity,
    by rw [hg.clusterSize, hg.bytesPerSector, hg.sectorsPerCluster], ?_, ?_, ?_, ?_⟩
  · rw [hg.clusterSize, ← pow_add]
    exact Nat.pow_le_pow_right (by norm_num) hg.shifts_le
  · rw [hg.countOfClusters]
    exact (leU32 boot 92).toNat_lt
  · rw [hg.rootDirBytes]
    norm_num
  · have hle : (2 : ℕ) ^ b ≤ 4096 := by
      simp only [List.mem_cons, List.not_mem_nil, or_false] at hmem
      omega
    have := (leU32 boot 88).toNat_lt
    calc g.dataStart = (leU32 boot 88).toNat * 2 ^ b := hg.dataStart
      _ ≤ (leU32 boot 88).toNat * 4096 := Nat.mul_le_mul_left _ hle
      _ < 2 ^ 56 := by omega

/-! ## Cluster offsets -/

lemma Valid.le_bytesPerSector {g : Geometry} (h : g.Valid) : 512 ≤ g.bytesPerSector := by
  have := h.bytesPerSector_mem
  simp only [List.mem_cons, List.not_mem_nil, or_false] at this
  omega

lemma Valid.bytesPerSector_pos {g : Geometry} (h : g.Valid) : 0 < g.bytesPerSector :=
  lt_of_lt_of_le (by norm_num) h.le_bytesPerSector

lemma Valid.clusterSize_pos {g : Geometry} (h : g.Valid) : 0 < g.clusterSize := by
  rw [h.clusterSize_eq]
  exact Nat.mul_pos h.bytesPerSector_pos h.sectorsPerCluster_pos

/-- On a valid geometry no check of `cluster_offset` but the first one fails. -/
lemma Valid.clusterOffset_eq {g : Geometry} (h : g.Valid) {c : UInt32} (hc : 2 ≤ c) :
    g.clusterOffset c = some (g.dataStart + (c.toNat - 2) * g.clusterSize) := by
  have hclt := c.toNat_lt
  have hcs := h.clusterSize_le
  have hds := h.dataStart_lt
  have hmul : (c.toNat - 2) * g.clusterSize ≤ 2 ^ 32 * 2 ^ 25 :=
    Nat.mul_le_mul (by omega) hcs
  have hmul' : (c.toNat - 2) * g.clusterSize < 2 ^ 64 := by omega
  have hadd : g.dataStart + (c.toNat - 2) * g.clusterSize < 2 ^ 64 := by omega
  rw [clusterOffset, if_neg (by simpa using hc), checkedMul_of_lt hmul', Option.bind_some,
    checkedAdd_of_lt hadd]

end Geometry

/-! ## Opened volumes -/

namespace FatFs

/-- What `open` does: parse the boot sector by its signature and cache the first FAT. -/
structure OpenedFrom (img : List UInt8) (fs : FatFs) : Prop where
  le_length : 512 ≤ img.length
  image : fs.image = img
  parsed : (if slice img 3 8 = Exfat.SIGNATURE then Exfat.parseBoot (img.take 512)
    else Geometry.parse (img.take 512)) = .ok fs.geom
  fat : fs.fat = slice img fs.geom.fatStart
    (min (fs.geom.fatSizeSectors * fs.geom.bytesPerSector) MAX_FAT_BYTES)
  maxClusters : fs.maxClusters = fs.geom.countOfClusters + 2

lemma openImage_ok {img : List UInt8} {fs : FatFs} (h : openImage img = .ok fs) :
    OpenedFrom img fs := by
  obtain ⟨boot, hboot, h⟩ := bind_eq_ok.mp h
  obtain ⟨geom, hgeom, h⟩ := bind_eq_ok.mp h
  simp only [readUpto_eq, Except.ok.injEq] at h
  subst h
  have hlen : 512 ≤ img.length := by
    rw [readExact] at hboot
    split at hboot
    next h => omega
    next => exact absurd hboot (by simp)
  rw [readExact_boot hlen, Except.ok.injEq] at hboot
  subst hboot
  rw [slice_take img (by norm_num)] at hgeom
  exact ⟨hlen, rfl, hgeom, rfl, rfl⟩

/-- A volume that opens as FAT has no exFAT signature, and its BPB is accepted. -/
lemma parse_of_openImage {img : List UInt8} {fs : FatFs} (h : openImage img = .ok fs)
    (hfat : fs.geom.variant ≠ .exFat) :
    slice img 3 8 ≠ Exfat.SIGNATURE ∧ Geometry.parse (img.take 512) = .ok fs.geom := by
  have hgeom := (openImage_ok h).parsed
  split at hgeom
  next => exact absurd (Geometry.variant_of_parseBoot hgeom) hfat
  next hsig => exact ⟨hsig, hgeom⟩

/-- The boot sector of a volume that opens as exFAT is accepted. -/
lemma parseBoot_of_openImage {img : List UInt8} {fs : FatFs} (h : openImage img = .ok fs)
    (hvar : fs.geom.variant = .exFat) : Exfat.parseBoot (img.take 512) = .ok fs.geom := by
  have hgeom := (openImage_ok h).parsed
  split at hgeom
  next => exact hgeom
  next => exact absurd hvar (Geometry.variant_ne_exFat_of_parse hgeom)

/-- An image with an acceptable exFAT boot sector opens. -/
lemma exists_openImage_of_parseBoot {img : List UInt8} {g : Geometry} (hlen : 512 ≤ img.length)
    (hg : Exfat.parseBoot (img.take 512) = .ok g) :
    ∃ fs, openImage img = .ok fs ∧ fs.geom = g := by
  obtain ⟨b, s, hboot⟩ := Geometry.parseBoot_ok hg
  have hsig := hboot.signature
  rw [window] at hsig
  split at hsig
  next =>
    have hslice : slice (img.take 512) 3 8 = Exfat.SIGNATURE := Option.some.inj hsig
    simp only [openImage, readExact_boot hlen, bind, Except.bind, hslice, if_true, hg]
    exact ⟨_, rfl, rfl⟩
  next => exact absurd hsig (by simp)

/-- An image with an acceptable BPB opens, unless it has the signature of exFAT. -/
lemma exists_openImage_of_parse {img : List UInt8} {g : Geometry} (hlen : 512 ≤ img.length)
    (hsig : slice img 3 8 ≠ Exfat.SIGNATURE) (hg : Geometry.parse (img.take 512) = .ok g) :
    ∃ fs, openImage img = .ok fs ∧ fs.geom = g := by
  have hslice : slice (img.take 512) 3 8 ≠ Exfat.SIGNATURE := by
    rwa [slice_take img (by norm_num)]
  simp only [openImage, readExact_boot hlen, bind, Except.bind, if_neg hslice, hg]
  exact ⟨_, rfl, rfl⟩

lemma openImage_valid {img : List UInt8} {fs : FatFs} (h : openImage img = .ok fs) :
    fs.geom.Valid := by
  have hgeom := (openImage_ok h).parsed
  split at hgeom
  · exact Geometry.Valid.of_parseBoot hgeom
  · exact Geometry.Valid.of_parse hgeom

end FatFs
end FatForensic
