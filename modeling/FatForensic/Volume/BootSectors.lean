import FatForensic.Volume.Layout

/-!
# The boot sectors that are accepted

Every set of fields that passes the checks can be written to a boot sector and is read back from
it.  So the geometries with which volumes open are known: they are those of such fields.
-/

namespace FatForensic

open LittleEndian Window

/-! ## Fields of a record -/

/-- A number that fits is read back. -/
lemma toNat_leU16_flatten {fields : List (List UInt8)} {k off n : ℕ}
    (hk : fields[k]? = some (toBytes 2 n)) (hoff : (fields.take k).flatten.length = off)
    (hn : n < 2 ^ 16) : (leU16 fields.flatten off).toNat = n := by
  have hfits : (UInt16.ofNat n).toNat = n := UInt16.toNat_ofNat_of_lt' hn
  rw [leU16_flatten (v := UInt16.ofNat n) (by rw [hfits]; exact hk) hoff, hfits]

lemma toNat_leU32_flatten {fields : List (List UInt8)} {k off n : ℕ}
    (hk : fields[k]? = some (toBytes 4 n)) (hoff : (fields.take k).flatten.length = off)
    (hn : n < 2 ^ 32) : (leU32 fields.flatten off).toNat = n := by
  have hfits : (UInt32.ofNat n).toNat = n := UInt32.toNat_ofNat_of_lt' hn
  rw [leU32_flatten (v := UInt32.ofNat n) (by rw [hfits]; exact hk) hoff, hfits]

lemma toNat_u8At_flatten {fields : List (List UInt8)} {k off n : ℕ}
    (hk : fields[k]? = some [UInt8.ofNat n]) (hoff : (fields.take k).flatten.length = off)
    (hn : n < 2 ^ 8) : (u8At fields.flatten off).toNat = n := by
  rw [u8At_flatten hk hoff]
  exact UInt8.toNat_ofNat_of_lt' hn

/-! ## The BIOS parameter block -/

namespace Fields

/-- Fields that pass the checks, and leave a data region. -/
structure WellFormed (f : Fields) : Prop extends f.Checked where
  sectorsPerCluster_pow : isPowerOfTwo f.sectorsPerCluster
  metaSectors_le : Geometry.metaSectors f ≤ f.totalSectors

/-- The fields of a boot sector, one after the other; the two counts are in their fields of 32
bits. -/
def bootFields (f : Fields) (rootCluster : UInt32) : List (List UInt8) :=
  [List.replicate 11 0, toBytes 2 f.bytesPerSector, [UInt8.ofNat f.sectorsPerCluster],
    toBytes 2 f.reservedSectors, [UInt8.ofNat f.numFats], toBytes 2 f.rootEntryCount, toBytes 2 0,
    [0], toBytes 2 0, List.replicate 8 0, toBytes 4 f.totalSectors, toBytes 4 f.fatSizeSectors,
    List.replicate 4 0, toBytes 4 rootCluster.toNat, List.replicate 462 0, toBytes 2 0xAA55]

/-- The boot sector. -/
def bootSector (f : Fields) (rootCluster : UInt32) : List UInt8 :=
  (f.bootFields rootCluster).flatten

/-- The volume that the fields describe: reserved sectors, FATs, the fixed root unless the clusters
are those of a FAT32 volume, and the clusters that fit into what is left. -/
def geometry (f : Fields) (rootCluster : UInt32) : Geometry :=
  let countOfClusters := (f.totalSectors - Geometry.metaSectors f) / f.sectorsPerCluster
  let is32 := FAT16_MAX_CLUSTERS ≤ countOfClusters
  { variant := Geometry.variantOf countOfClusters
    bytesPerSector := f.bytesPerSector
    sectorsPerCluster := f.sectorsPerCluster
    clusterSize := f.bytesPerSector * f.sectorsPerCluster
    reservedSectors := f.reservedSectors
    numFats := f.numFats
    fatSizeSectors := f.fatSizeSectors
    rootEntryCount := if is32 then 0 else f.rootEntryCount
    totalSectors := f.totalSectors
    rootCluster := if is32 then rootCluster else 0
    countOfClusters
    fatStart := f.reservedSectors * f.bytesPerSector
    rootDirStart :=
      if is32 then 0 else (f.reservedSectors + f.numFats * f.fatSizeSectors) * f.bytesPerSector
    rootDirBytes := if is32 then 0 else Geometry.rootDirSectors f * f.bytesPerSector
    dataStart := Geometry.metaSectors f * f.bytesPerSector }

variable {f : Fields} {boot : List UInt8}

/-- Where the fields lie. -/
lemma offset_bootFields (f : Fields) (rootCluster : UInt32) (k : ℕ) :
    ((f.bootFields rootCluster).take k).flatten.length
      = ([11, 2, 1, 2, 1, 2, 2, 1, 2, 8, 4, 4, 4, 4, 462, 2].take k).sum := by
  rw [List.length_flatten, List.map_take]
  simp only [bootFields, List.map_cons, List.map_nil, List.length_replicate, length_toBytes,
    List.length_cons, List.length_nil, Nat.zero_add]

lemma length_bootSector (f : Fields) (rootCluster : UInt32) :
    (f.bootSector rootCluster).length = 512 :=
  offset_bootFields f rootCluster 16

lemma variantOf_eq_fat32 (n : ℕ) : Geometry.variantOf n = .fat32 ↔ FAT16_MAX_CLUSTERS ≤ n := by
  rw [Geometry.variantOf, FAT12_MAX_CLUSTERS, FAT16_MAX_CLUSTERS]
  split
  · simp
    omega
  · split
    · simp
      omega
    · simp
      omega

/-- The number of sectors of a cluster, as it is read, is a power of two. -/
lemma isPowerOfTwo_of_readFields (h : readFields boot = .ok f) :
    isPowerOfTwo f.sectorsPerCluster := by
  simp only [readFields] at h
  split at h
  · exact absurd h (by simp)
  split at h
  · exact absurd h (by simp)
  split at h
  · exact absurd h (by simp)
  next hspc =>
  split at h
  · exact absurd h (by simp)
  split at h
  · exact absurd h (by simp)
  split at h
  · exact absurd h (by simp)
  split at h
  · exact absurd h (by simp)
  rw [← Except.ok.inj h]
  exact not_not.mp (not_or.mp hspc).1

/-- **What the parser makes of the fields.** -/
lemma parse_of_readFields (h : readFields boot = .ok f)
    (hmeta : Geometry.metaSectors f ≤ f.totalSectors) :
    Geometry.parse boot = .ok (f.geometry (leU32 boot 44)) := by
  have hno := Geometry.noOverflow_of_readFields h hmeta
  have hcount : u32OrMax ((f.totalSectors - Geometry.metaSectors f) / f.sectorsPerCluster)
      = (f.totalSectors - Geometry.metaSectors f) / f.sectorsPerCluster :=
    if_pos hno.countOfClusters
  have hroot : u32OrMax (Geometry.rootDirSectors f * f.bytesPerSector)
      = Geometry.rootDirSectors f * f.bytesPerSector := if_pos hno.rootDirSize
  simp only [Geometry.parse, h, bind, Except.bind, if_neg (Nat.not_lt.mpr hmeta), hcount, hroot,
    beq_iff_eq, variantOf_eq_fat32, gt_iff_lt, geometry]

/-- **The fields are read back.** -/
lemma readFields_bootSector (h : f.WellFormed) (rootCluster : UInt32) :
    readFields (f.bootSector rootCluster) = .ok f := by
  have hsig : (leU16 (f.bootSector rootCluster) 510).toNat = 0xAA55 :=
    toNat_leU16_flatten (k := 15) rfl (offset_bootFields f rootCluster 15) (by norm_num)
  have hmem := h.bytesPerSector_mem
  simp only [List.mem_cons, List.not_mem_nil, or_false] at hmem
  have hbps : (leU16 (f.bootSector rootCluster) 11).toNat = f.bytesPerSector :=
    toNat_leU16_flatten (k := 1) rfl (offset_bootFields f rootCluster 1) (by omega)
  have hspc : (u8At (f.bootSector rootCluster) 13).toNat = f.sectorsPerCluster :=
    toNat_u8At_flatten (k := 2) rfl (offset_bootFields f rootCluster 2)
      (lt_of_le_of_lt h.sectorsPerCluster_le (by norm_num))
  have hres : (leU16 (f.bootSector rootCluster) 14).toNat = f.reservedSectors :=
    toNat_leU16_flatten (k := 3) rfl (offset_bootFields f rootCluster 3) h.reservedSectors_lt
  have hnum : (u8At (f.bootSector rootCluster) 16).toNat = f.numFats :=
    toNat_u8At_flatten (k := 4) rfl (offset_bootFields f rootCluster 4) h.numFats_lt
  have hroot : (leU16 (f.bootSector rootCluster) 17).toNat = f.rootEntryCount :=
    toNat_leU16_flatten (k := 5) rfl (offset_bootFields f rootCluster 5) h.rootEntryCount_lt
  have htotal16 : leU16 (f.bootSector rootCluster) 19 = 0 :=
    leU16_flatten (v := 0) (k := 6) rfl (offset_bootFields f rootCluster 6)
  have hfat16 : leU16 (f.bootSector rootCluster) 22 = 0 :=
    leU16_flatten (v := 0) (k := 8) rfl (offset_bootFields f rootCluster 8)
  have htotal : (leU32 (f.bootSector rootCluster) 32).toNat = f.totalSectors :=
    toNat_leU32_flatten (k := 10) rfl (offset_bootFields f rootCluster 10) h.totalSectors_lt
  have hfat : (leU32 (f.bootSector rootCluster) 36).toNat = f.fatSizeSectors :=
    toNat_leU32_flatten (k := 11) rfl (offset_bootFields f rootCluster 11) h.fatSizeSectors_lt
  have hpow : isPowerOfTwo f.bytesPerSector := by
    rcases hmem with e | e | e | e <;> rw [e] <;> decide
  have hb : ¬ (¬ isPowerOfTwo f.bytesPerSector ∨
      ¬ (512 ≤ f.bytesPerSector ∧ f.bytesPerSector ≤ 4096)) := by
    rw [not_or, not_not, not_not]
    exact ⟨hpow, by omega⟩
  have hs : ¬ (¬ isPowerOfTwo f.sectorsPerCluster ∨
      ¬ (1 ≤ f.sectorsPerCluster ∧ f.sectorsPerCluster ≤ 128)) := by
    rw [not_or, not_not, not_not]
    exact ⟨h.sectorsPerCluster_pow, h.sectorsPerCluster_pos, h.sectorsPerCluster_le⟩
  have hsize : fatSizeField (f.bootSector rootCluster) = f.fatSizeSectors := by
    rw [fatSizeField, if_neg (not_not.mpr hfat16), hfat]
  have hsectors : totalSectorsField (f.bootSector rootCluster) = f.totalSectors := by
    rw [totalSectorsField, if_neg (not_not.mpr htotal16), htotal]
  simp only [readFields, hsig, hbps, hspc, hres, hnum, hroot, hsize, hsectors, ne_eq,
    not_true_eq_false, if_false, if_neg hb, if_neg hs, if_neg h.reservedSectors_pos.ne',
    if_neg h.numFats_pos.ne', if_neg h.fatSizeSectors_pos.ne', if_neg h.totalSectors_pos.ne']

lemma leU32_bootSector (f : Fields) (rootCluster : UInt32) :
    leU32 (f.bootSector rootCluster) 44 = rootCluster :=
  leU32_flatten (k := 13) rfl (offset_bootFields f rootCluster 13)

lemma parse_bootSector (h : f.WellFormed) (rootCluster : UInt32) :
    Geometry.parse (f.bootSector rootCluster) = .ok (f.geometry rootCluster) := by
  rw [parse_of_readFields (readFields_bootSector h rootCluster) h.metaSectors_le,
    leU32_bootSector]

/-- Every accepted BPB has well-formed fields. -/
lemma wellFormed_of_parse {g : Geometry} (h : Geometry.parse boot = .ok g) :
    ∃ f : Fields, f.WellFormed ∧ g = f.geometry (leU32 boot 44) := by
  obtain ⟨f, hg⟩ := Geometry.parse_ok h
  refine ⟨f, ⟨hg.checked, isPowerOfTwo_of_readFields hg.fields, hg.metaSectors_le⟩, ?_⟩
  rw [parse_of_readFields hg.fields hg.metaSectors_le] at h
  exact (Except.ok.inj h).symm

end Fields

/-! ## The exFAT boot sector -/

/-- The fields of an exFAT boot sector that the parser reads. -/
structure ExfatFields where
  volumeLength : UInt64
  fatOffset : UInt32
  fatLength : UInt32
  clusterHeapOffset : UInt32
  countOfClusters : UInt32
  rootCluster : UInt32
  bytesPerSectorShift : UInt8
  sectorsPerClusterShift : UInt8
  numFats : UInt8

namespace ExfatFields

/-- Fields that pass the checks. -/
structure WellFormed (e : ExfatFields) : Prop where
  le_bytesPerSectorShift : 9 ≤ e.bytesPerSectorShift.toNat
  bytesPerSectorShift_le : e.bytesPerSectorShift.toNat ≤ 12
  shifts_le : e.bytesPerSectorShift.toNat + e.sectorsPerClusterShift.toNat ≤ 25
  numFats_pos : 0 < e.numFats.toNat
  numFats_le : e.numFats.toNat ≤ 2
  two_le_rootCluster : 2 ≤ e.rootCluster.toNat
  rootCluster_le : e.rootCluster.toNat ≤ e.countOfClusters.toNat + 1

/-- The fields of a boot sector, one after the other. -/
def bootFields (e : ExfatFields) : List (List UInt8) :=
  [List.replicate 3 0, Exfat.SIGNATURE, List.replicate 61 0, toBytes 8 e.volumeLength.toNat,
    toBytes 4 e.fatOffset.toNat, toBytes 4 e.fatLength.toNat, toBytes 4 e.clusterHeapOffset.toNat,
    toBytes 4 e.countOfClusters.toNat, toBytes 4 e.rootCluster.toNat, List.replicate 8 0,
    [e.bytesPerSectorShift], [e.sectorsPerClusterShift], [e.numFats], List.replicate 399 0,
    toBytes 2 0xAA55]

/-- The boot sector. -/
def bootSector (e : ExfatFields) : List UInt8 := e.bootFields.flatten

/-- The fields of a boot sector that is there. -/
def read (boot : List UInt8) : ExfatFields where
  volumeLength := leU64 boot 72
  fatOffset := leU32 boot 80
  fatLength := leU32 boot 84
  clusterHeapOffset := leU32 boot 88
  countOfClusters := leU32 boot 92
  rootCluster := leU32 boot 96
  bytesPerSectorShift := u8At boot 108
  sectorsPerClusterShift := u8At boot 109
  numFats := u8At boot 110

/-- The volume that the fields describe. -/
def geometry (e : ExfatFields) : Geometry where
  variant := .exFat
  bytesPerSector := 2 ^ e.bytesPerSectorShift.toNat
  sectorsPerCluster := 2 ^ e.sectorsPerClusterShift.toNat
  clusterSize := 2 ^ e.bytesPerSectorShift.toNat * 2 ^ e.sectorsPerClusterShift.toNat
  reservedSectors := 0
  numFats := e.numFats.toNat
  fatSizeSectors := e.fatLength.toNat
  rootEntryCount := 0
  totalSectors := e.volumeLength.toNat
  rootCluster := e.rootCluster
  countOfClusters := e.countOfClusters.toNat
  fatStart := e.fatOffset.toNat * 2 ^ e.bytesPerSectorShift.toNat
  rootDirStart := 0
  rootDirBytes := 0
  dataStart := e.clusterHeapOffset.toNat * 2 ^ e.bytesPerSectorShift.toNat

/-- Where the fields lie. -/
lemma offset_bootFields (e : ExfatFields) (k : ℕ) : (e.bootFields.take k).flatten.length
    = ([3, 8, 61, 8, 4, 4, 4, 4, 4, 8, 1, 1, 1, 399, 2].take k).sum := by
  rw [List.length_flatten, List.map_take]
  simp only [bootFields, Exfat.SIGNATURE, List.map_cons, List.map_nil, List.length_replicate,
    length_toBytes, List.length_cons, List.length_nil, Nat.zero_add]

lemma length_bootSector (e : ExfatFields) : e.bootSector.length = 512 :=
  offset_bootFields e 15

/-- **The fields are read back.** -/
lemma read_bootSector (e : ExfatFields) : read e.bootSector = e := by
  have hlength : leU64 e.bootSector 72 = e.volumeLength :=
    leU64_flatten (k := 3) rfl (offset_bootFields e 3)
  have hoffset : leU32 e.bootSector 80 = e.fatOffset :=
    leU32_flatten (k := 4) rfl (offset_bootFields e 4)
  have hfat : leU32 e.bootSector 84 = e.fatLength :=
    leU32_flatten (k := 5) rfl (offset_bootFields e 5)
  have hheap : leU32 e.bootSector 88 = e.clusterHeapOffset :=
    leU32_flatten (k := 6) rfl (offset_bootFields e 6)
  have hcount : leU32 e.bootSector 92 = e.countOfClusters :=
    leU32_flatten (k := 7) rfl (offset_bootFields e 7)
  have hroot : leU32 e.bootSector 96 = e.rootCluster :=
    leU32_flatten (k := 8) rfl (offset_bootFields e 8)
  have hbps : u8At e.bootSector 108 = e.bytesPerSectorShift :=
    u8At_flatten (k := 10) rfl (offset_bootFields e 10)
  have hspc : u8At e.bootSector 109 = e.sectorsPerClusterShift :=
    u8At_flatten (k := 11) rfl (offset_bootFields e 11)
  have hnum : u8At e.bootSector 110 = e.numFats :=
    u8At_flatten (k := 12) rfl (offset_bootFields e 12)
  rw [read, hlength, hoffset, hfat, hheap, hcount, hroot, hbps, hspc, hnum]

/-- **What the parser accepts**, and what it makes of it. -/
lemma parseBoot_eq_ok {boot : List UInt8} {g : Geometry} : Exfat.parseBoot boot = .ok g ↔
    window 8 boot 3 = some Exfat.SIGNATURE ∧ (leU16 boot 510).toNat = 0xAA55 ∧
      (read boot).WellFormed ∧ g = (read boot).geometry := by
  have hroot : (leU32 boot 96 < 2 ∨
      (leU32 boot 96).toNat > saturatingAdd32 (leU32 boot 92).toNat 1) ↔
        ¬ (2 ≤ (leU32 boot 96).toNat ∧ (leU32 boot 96).toNat ≤ (leU32 boot 92).toNat + 1) := by
    have hlt := (leU32 boot 96).toNat_lt
    rw [UInt32.lt_iff_toNat_lt, saturatingAdd32]
    change (leU32 boot 96).toNat < 2 ∨ _ ↔ _
    omega
  rw [Exfat.parseBoot]
  simp only [hroot]
  constructor
  · intro h
    split at h
    · exact absurd h (by simp)
    next hsig =>
    split at h
    · exact absurd h (by simp)
    next h55 =>
    split at h
    · exact absurd h (by simp)
    next hb =>
    split at h
    · exact absurd h (by simp)
    next hs =>
    split at h
    · exact absurd h (by simp)
    next hnum =>
    split at h
    · exact absurd h (by simp)
    next hrange =>
    obtain ⟨hb9, hb12⟩ := not_not.mp hb
    obtain ⟨hnum0, hnum2⟩ := not_or.mp hnum
    obtain ⟨h2, hle⟩ := not_not.mp hrange
    exact ⟨not_not.mp hsig, not_not.mp h55, ⟨hb9, hb12, Nat.le_of_not_gt hs,
      Nat.pos_of_ne_zero hnum0, Nat.le_of_not_gt hnum2, h2, hle⟩, (Except.ok.inj h).symm⟩
  · rintro ⟨hsig, h55, h, rfl⟩
    have hb : ¬ ¬ (9 ≤ (u8At boot 108).toNat ∧ (u8At boot 108).toNat ≤ 12) :=
      not_not.mpr ⟨h.le_bytesPerSectorShift, h.bytesPerSectorShift_le⟩
    have hs : ¬ (u8At boot 108).toNat + (u8At boot 109).toNat > 25 := Nat.not_lt.mpr h.shifts_le
    have hnum : ¬ ((u8At boot 110).toNat = 0 ∨ (u8At boot 110).toNat > 2) :=
      not_or.mpr ⟨h.numFats_pos.ne', Nat.not_lt.mpr h.numFats_le⟩
    have hrange : ¬ ¬ (2 ≤ (leU32 boot 96).toNat ∧
        (leU32 boot 96).toNat ≤ (leU32 boot 92).toNat + 1) :=
      not_not.mpr ⟨h.two_le_rootCluster, h.rootCluster_le⟩
    rw [if_neg (not_not.mpr hsig), if_neg (not_not.mpr h55), if_neg hb, if_neg hs, if_neg hnum,
      if_neg hrange]
    rfl

lemma parseBoot_bootSector {e : ExfatFields} (h : e.WellFormed) :
    Exfat.parseBoot e.bootSector = .ok e.geometry := by
  have hsig : window 8 e.bootSector 3 = some Exfat.SIGNATURE :=
    window_flatten (k := 1) (w := Exfat.SIGNATURE) rfl (offset_bootFields e 1)
  have h55 : (leU16 e.bootSector 510).toNat = 0xAA55 :=
    toNat_leU16_flatten (k := 14) rfl (offset_bootFields e 14) (by norm_num)
  rw [parseBoot_eq_ok, read_bootSector]
  exact ⟨hsig, h55, h, rfl⟩

end ExfatFields

/-! ## The geometries of volumes -/

namespace FatFs

/-- A volume opens with the geometry of well-formed fields. -/
lemma exists_fields_of_openImage {img : List UInt8} {fs : FatFs} (hopen : openImage img = .ok fs) :
    (∃ (f : Fields) (rootCluster : UInt32), f.WellFormed ∧ fs.geom = f.geometry rootCluster) ∨
      ∃ e : ExfatFields, e.WellFormed ∧ fs.geom = e.geometry := by
  have hparsed := (openImage_ok hopen).parsed
  split at hparsed
  · obtain ⟨-, -, hwf, hg⟩ := ExfatFields.parseBoot_eq_ok.mp hparsed
    exact Or.inr ⟨_, hwf, hg⟩
  · obtain ⟨f, hwf, hg⟩ := Fields.wellFormed_of_parse hparsed
    exact Or.inl ⟨f, _, hwf, hg⟩

/-- The boot sector of well-formed fields opens. -/
lemma exists_openImage_bootSector {f : Fields} (h : f.WellFormed) (rootCluster : UInt32) :
    ∃ fs, openImage (f.bootSector rootCluster) = .ok fs ∧ fs.geom = f.geometry rootCluster := by
  have hlen := Fields.length_bootSector f rootCluster
  -- the first field of a BPB is no signature
  have hsig : slice (f.bootSector rootCluster) 3 8 ≠ Exfat.SIGNATURE := by
    have hzero : slice (f.bootSector rootCluster) 3 8 = List.replicate 8 0 := rfl
    rw [hzero]
    decide
  refine exists_openImage_of_parse hlen.ge hsig ?_
  rw [← hlen, List.take_length]
  exact Fields.parse_bootSector h rootCluster

lemma exists_openImage_exfatBootSector {e : ExfatFields} (h : e.WellFormed) :
    ∃ fs, openImage e.bootSector = .ok fs ∧ fs.geom = e.geometry := by
  have hlen := ExfatFields.length_bootSector e
  refine exists_openImage_of_parseBoot hlen.ge ?_
  rw [← hlen, List.take_length]
  exact ExfatFields.parseBoot_bootSector h

/-- **The geometries with which volumes open** are those of well-formed fields; and such fields
have a boot sector of 512 bytes, from which they are read back, and which opens with their
geometry. -/
theorem exists_openImage_iff :
    (∀ g : Geometry, (∃ img fs, openImage img = .ok fs ∧ fs.geom = g) ↔
      (∃ (f : Fields) (rootCluster : UInt32), f.WellFormed ∧ g = f.geometry rootCluster) ∨
        ∃ e : ExfatFields, e.WellFormed ∧ g = e.geometry) ∧
    (∀ (f : Fields) (rootCluster : UInt32), f.WellFormed →
      (f.bootSector rootCluster).length = 512 ∧
      readFields (f.bootSector rootCluster) = .ok f ∧
      leU32 (f.bootSector rootCluster) 44 = rootCluster ∧
      ∃ fs, openImage (f.bootSector rootCluster) = .ok fs ∧ fs.geom = f.geometry rootCluster) ∧
    ∀ e : ExfatFields, e.WellFormed → e.bootSector.length = 512 ∧
      ExfatFields.read e.bootSector = e ∧
      ∃ fs, openImage e.bootSector = .ok fs ∧ fs.geom = e.geometry := by
  refine ⟨fun g => ⟨?_, ?_⟩, fun f rootCluster h => ⟨f.length_bootSector rootCluster,
    Fields.readFields_bootSector h rootCluster, Fields.leU32_bootSector f rootCluster,
    exists_openImage_bootSector h rootCluster⟩, fun e h => ⟨e.length_bootSector,
    e.read_bootSector, exists_openImage_exfatBootSector h⟩⟩
  · rintro ⟨img, fs, hopen, rfl⟩
    exact exists_fields_of_openImage hopen
  · rintro (⟨f, rootCluster, hwf, rfl⟩ | ⟨e, hwf, rfl⟩)
    · exact ⟨_, exists_openImage_bootSector hwf rootCluster⟩
    · exact ⟨_, exists_openImage_exfatBootSector hwf⟩

end FatFs
end FatForensic
