import FatForensic.Core.Arith
import FatForensic.Core.Bytes
import FatForensic.Core.Error

/-!
# The BIOS parameter block

`boot.rs`: the checks on the raw BPB fields, the geometry computed from them, and the
decision of the FAT type by the cluster count.  The fields of `Geometry` are the `u32` and
`u64` fields of the source, held as natural numbers.
-/

namespace FatForensic

/-- Below this cluster count a volume is FAT12. -/
def FAT12_MAX_CLUSTERS : ℕ := 4085

/-- Below this cluster count a volume is FAT16, unless it is FAT12. -/
def FAT16_MAX_CLUSTERS : ℕ := 65525

/-- Which member of the FAT family a volume is. -/
inductive FatVariant where
  | fat12
  | fat16
  | fat32
  | exFat
deriving DecidableEq, Repr, Inhabited

/-- Resolved on-disk geometry of a volume.  Byte offsets are relative to sector 0. -/
structure Geometry where
  variant : FatVariant
  bytesPerSector : ℕ
  sectorsPerCluster : ℕ
  /-- Cluster size in bytes. -/
  clusterSize : ℕ
  reservedSectors : ℕ
  numFats : ℕ
  /-- Sectors occupied by one FAT. -/
  fatSizeSectors : ℕ
  /-- Fixed root directory entry count (0 on FAT32). -/
  rootEntryCount : ℕ
  totalSectors : ℕ
  /-- First cluster of the root directory (0 on FAT12/16). -/
  rootCluster : UInt32
  countOfClusters : ℕ
  /-- Byte offset of the first FAT. -/
  fatStart : ℕ
  /-- Byte offset of the fixed root region (0 on FAT32). -/
  rootDirStart : ℕ
  /-- Byte size of the fixed root region (0 on FAT32). -/
  rootDirBytes : ℕ
  /-- Byte offset of cluster 2. -/
  dataStart : ℕ
deriving DecidableEq, Repr, Inhabited

/-- The validated raw BPB fields, before offsets and the type decision. -/
structure Fields where
  bytesPerSector : ℕ
  sectorsPerCluster : ℕ
  reservedSectors : ℕ
  numFats : ℕ
  rootEntryCount : ℕ
  fatSizeSectors : ℕ
  totalSectors : ℕ
deriving DecidableEq, Repr

/-- FAT size in sectors: the 16-bit field, or the 32-bit one where that is zero. -/
def fatSizeField (boot : List UInt8) : ℕ :=
  if leU16 boot 22 ≠ 0 then (leU16 boot 22).toNat else (leU32 boot 36).toNat

/-- Total sectors: the 16-bit field, or the 32-bit one where that is zero. -/
def totalSectorsField (boot : List UInt8) : ℕ :=
  if leU16 boot 19 ≠ 0 then (leU16 boot 19).toNat else (leU32 boot 32).toNat

/-- Read and range-check the BPB fields, failing with the offending value. -/
def readFields (boot : List UInt8) : Result Fields :=
  let sig := (leU16 boot 510).toNat
  if sig ≠ 0xAA55 then
    .error (.invalidBoot s!"boot signature at 0x1FE is {altHex 4 sig}, expected 0x55AA")
  else
  let bytesPerSector := (leU16 boot 11).toNat
  if ¬ isPowerOfTwo bytesPerSector ∨ ¬ (512 ≤ bytesPerSector ∧ bytesPerSector ≤ 4096) then
    .error (.invalidBoot
      s!"bytes-per-sector at 0x0B is {bytesPerSector}, not a power of two in 512..=4096")
  else
  let sectorsPerCluster := (u8At boot 13).toNat
  if ¬ isPowerOfTwo sectorsPerCluster ∨ ¬ (1 ≤ sectorsPerCluster ∧ sectorsPerCluster ≤ 128) then
    .error (.invalidBoot
      s!"sectors-per-cluster at 0x0D is {sectorsPerCluster}, not a power of two in 1..=128")
  else
  let reservedSectors := (leU16 boot 14).toNat
  if reservedSectors = 0 then
    .error (.invalidBoot "reserved-sector count at 0x0E is 0")
  else
  let numFats := (u8At boot 16).toNat
  if numFats = 0 then
    .error (.invalidBoot "number of FATs at 0x10 is 0")
  else
  if fatSizeField boot = 0 then
    .error (.invalidBoot "FAT size is 0 (both 0x16 and 0x24 are zero)")
  else
  if totalSectorsField boot = 0 then
    .error (.invalidBoot "total sector count is 0 (both 0x13 and 0x20 are zero)")
  else
  .ok {
    bytesPerSector, sectorsPerCluster, reservedSectors, numFats
    rootEntryCount := (leU16 boot 17).toNat
    fatSizeSectors := fatSizeField boot
    totalSectors := totalSectorsField boot }

namespace Geometry

/-- `root_dir_sectors`: the sectors of the fixed root region. -/
def rootDirSectors (f : Fields) : ℕ := divCeil (f.rootEntryCount * 32) f.bytesPerSector

/-- `meta_sectors`: the sectors before the data region. -/
def metaSectors (f : Fields) : ℕ :=
  f.reservedSectors + f.numFats * f.fatSizeSectors + rootDirSectors f

/-- The FAT type, decided by the count of clusters. -/
def variantOf (countOfClusters : ℕ) : FatVariant :=
  if countOfClusters < FAT12_MAX_CLUSTERS then .fat12
  else if countOfClusters < FAT16_MAX_CLUSTERS then .fat16
  else .fat32

/-- Parse the BPB from the boot sector `boot`. -/
def parse (boot : List UInt8) : Result Geometry := do
  let f ← readFields boot
  let bps := f.bytesPerSector
  if metaSectors f > f.totalSectors then
    .error (.invalidBoot
      s!"reserved+FATs+root ({metaSectors f} sectors) exceeds total ({f.totalSectors})")
  else
  let dataSectors := f.totalSectors - metaSectors f
  let countOfClusters := u32OrMax (dataSectors / f.sectorsPerCluster)
  let variant := variantOf countOfClusters
  let is32 := variant == .fat32
  .ok {
    variant
    bytesPerSector := f.bytesPerSector
    sectorsPerCluster := f.sectorsPerCluster
    clusterSize := f.bytesPerSector * f.sectorsPerCluster
    reservedSectors := f.reservedSectors
    numFats := f.numFats
    fatSizeSectors := f.fatSizeSectors
    rootEntryCount := if is32 then 0 else f.rootEntryCount
    totalSectors := f.totalSectors
    rootCluster := if is32 then leU32 boot 44 else 0
    countOfClusters
    fatStart := f.reservedSectors * bps
    rootDirStart := if is32 then 0 else (f.reservedSectors + f.numFats * f.fatSizeSectors) * bps
    rootDirBytes := if is32 then 0 else u32OrMax (rootDirSectors f * bps)
    dataStart := metaSectors f * bps }

/-- Byte offset of the first sector of `cluster` (at least 2) in the data region. -/
def clusterOffset (g : Geometry) (cluster : UInt32) : Option ℕ :=
  if cluster < 2 then none
  else (checkedMul (cluster.toNat - 2) g.clusterSize).bind fun rel => checkedAdd g.dataStart rel

end Geometry

end FatForensic
