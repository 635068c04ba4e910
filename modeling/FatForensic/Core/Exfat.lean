import FatForensic.Core.Boot
import FatForensic.Core.Time
import FatForensic.Lib.Utf16

/-!
# exFAT primitives

`exfat.rs`: the main boot sector, the boot-region checksum, and the directory entry sets
(File, Stream Extension and File Name entries).
-/

namespace FatForensic
namespace Exfat

open Window

/-- The directory bit of `FileAttributes`. -/
def ATTR_DIRECTORY : UInt16 := 0x0010

/-- Entry type of a File entry, without the in-use bit. -/
def TYPE_FILE : UInt8 := 0x05

/-- Entry type of a Stream Extension entry, without the in-use bit. -/
def TYPE_STREAM_EXT : UInt8 := 0x40

/-- Entry type of a File Name entry, without the in-use bit. -/
def TYPE_FILE_NAME : UInt8 := 0x41

/-- A decoded exFAT directory entry set. -/
structure ExfatDirEntry where
  name : String
  attributes : UInt16
  isDir : Bool
  /-- Whether the entry set is deleted (in-use bit clear). -/
  deleted : Bool
  firstCluster : UInt32
  size : UInt64
  /-- Whether the data is contiguous (NoFatChain). -/
  contiguous : Bool
  /-- Slot index of the File entry. -/
  index : UInt16
  created : Option FatTimestamp
  modified : Option FatTimestamp
  accessed : Option FatTimestamp
deriving DecidableEq, Repr

/-- Split a 32-bit timestamp into the `(date, time)` pair of the shared decoder. -/
def tsDecode (raw : UInt32) (tenths : UInt8) : Option FatTimestamp :=
  decodeTime (raw >>> 16).toUInt16 (raw &&& 0xFFFF).toUInt16 tenths

/-- The fields that the secondary entries of a set fill in. -/
structure SetState where
  firstCluster : UInt32 := 0
  size : UInt64 := 0
  contiguous : Bool := false
  nameLen : ℕ := 0
  units : List UInt16 := []
deriving DecidableEq, Repr

/-- The 15 UTF-16 code units of a File Name entry. -/
def nameUnits (s : List UInt8) : List UInt16 := (List.range 15).map fun k => leU16 s (2 + k * 2)

/-- One secondary entry of a set. -/
def SetState.step (st : SetState) (s : List UInt8) : SetState :=
  let ty := u8At s 0 &&& 0x7F
  if ty = TYPE_STREAM_EXT then
    { st with
      contiguous := u8At s 1 &&& 0x02 ≠ 0
      nameLen := (u8At s 3).toNat
      firstCluster := leU32 s 20
      size := leU64 s 24 }
  else if ty = TYPE_FILE_NAME then { st with units := st.units ++ nameUnits s }
  else st

/-- Decode one File entry set starting at slot `i`; the walk over the secondaries ends where
the slots do. -/
def decodeSet (slots : List (List UInt8)) (i secondaryCount : ℕ) (file : List UInt8) :
    ExfatDirEntry :=
  let st := ((slots.drop (i + 1)).take secondaryCount).foldl SetState.step {}
  let attributes := leU16 file 4
  { name := Utf16.fromUtf16Lossy (st.units.take st.nameLen)
    attributes
    isDir := attributes &&& ATTR_DIRECTORY ≠ 0
    deleted := u8At file 0 &&& 0x80 = 0
    firstCluster := st.firstCluster
    size := st.size
    contiguous := st.contiguous
    index := u16OrMax i
    created := tsDecode (leU32 file 8) (u8At file 20)
    modified := tsDecode (leU32 file 12) (u8At file 21)
    accessed := tsDecode (leU32 file 16) 0 }

/-- The loop of `parse_directory` from slot `i` on.  Every round advances `i`, so as much fuel
as there are slots is enough. -/
def parseFrom (slots : List (List UInt8)) : ℕ → ℕ → List ExfatDirEntry
  | 0, _ => []
  | fuel + 1, i =>
    match slots[i]? with
    | none => []
    | some e =>
      let ty := u8At e 0
      if ty = 0x00 then []
      else if ty &&& 0x7F ≠ TYPE_FILE then parseFrom slots fuel (i + 1)
      else
        let secondaryCount := (u8At e 1).toNat
        decodeSet slots i secondaryCount e :: parseFrom slots fuel (i + 1 + secondaryCount)

/-- Parse an exFAT directory's raw bytes into decoded entry sets; primaries other than File
are skipped, and the first end-of-directory marker stops the scan. -/
def parseDirectory (data : List UInt8) : List ExfatDirEntry :=
  parseFrom (chunksExact 32 data) (chunksExact 32 data).length 0

/-! ## The boot sector -/

/-- The file-system name of an exFAT boot sector, `b"EXFAT   "`. -/
def SIGNATURE : List UInt8 := [0x45, 0x58, 0x46, 0x41, 0x54, 0x20, 0x20, 0x20]

/-- Parse the exFAT main boot sector. -/
def parseBoot (boot : List UInt8) : Result Geometry :=
  if window 8 boot 3 ≠ some SIGNATURE then
    .error (.notFat ("exFAT signature at 0x03 is " ++ debugUpperHex ((window 8 boot 3).getD [])
      ++ ", expected \"EXFAT   \""))
  else
  let sig := (leU16 boot 510).toNat
  if sig ≠ 0xAA55 then
    .error (.invalidBoot s!"boot signature at 0x1FE is {altHex 4 sig}, expected 0x55AA")
  else
  let bpsShift := (u8At boot 108).toNat
  if ¬ (9 ≤ bpsShift ∧ bpsShift ≤ 12) then
    .error (.invalidBoot
      s!"BytesPerSectorShift at 0x6C is {bpsShift}, not in 9..=12 (512..4096)")
  else
  let spcShift := (u8At boot 109).toNat
  if bpsShift + spcShift > 25 then
    .error (.invalidBoot
      s!"SectorsPerClusterShift at 0x6D is {spcShift}; cluster size exceeds 32 MiB")
  else
  let bytesPerSector := 2 ^ bpsShift
  let sectorsPerCluster := 2 ^ spcShift
  let numFats := (u8At boot 110).toNat
  if numFats = 0 ∨ numFats > 2 then
    .error (.invalidBoot s!"NumberOfFats at 0x6E is {numFats}, must be 1 or 2")
  else
  let fatOffset := (leU32 boot 80).toNat
  let fatLength := (leU32 boot 84).toNat
  let clusterHeapOffset := (leU32 boot 88).toNat
  let countOfClusters := (leU32 boot 92).toNat
  let rootCluster := leU32 boot 96
  if rootCluster < 2 ∨ rootCluster.toNat > saturatingAdd32 countOfClusters 1 then
    .error (.invalidBoot
      s!"root cluster {rootCluster.toNat} outside 2..={saturatingAdd32 countOfClusters 1}")
  else
  .ok {
    variant := .exFat
    bytesPerSector
    sectorsPerCluster
    clusterSize := bytesPerSector * sectorsPerCluster
    reservedSectors := 0
    numFats
    fatSizeSectors := fatLength
    rootEntryCount := 0
    totalSectors := (leU64 boot 72).toNat
    rootCluster
    countOfClusters
    fatStart := fatOffset * bytesPerSector
    rootDirStart := 0
    rootDirBytes := 0
    dataStart := clusterHeapOffset * bytesPerSector }

/-! ## The boot-region checksum -/

/-- `u32::rotate_right(1)`. -/
def rotateRight1 (x : UInt32) : UInt32 := (x >>> 1) ||| (x <<< 31)

/-- Whether the byte at index `i` is left out of the checksum: `VolumeFlags` and
`PercentInUse`. -/
def isExcluded (i : ℕ) : Bool := i = 106 ∨ i = 107 ∨ i = 112

/-- One round of the checksum loop. -/
def checksumStep (checksum : UInt32) (p : UInt8 × ℕ) : UInt32 :=
  if isExcluded p.2 then checksum else rotateRight1 checksum + p.1.toUInt32

/-- The boot-region checksum over the first 11 sectors. -/
def bootChecksum (sectors : List UInt8) (bytesPerSector : ℕ) : UInt32 :=
  ((sectors.take (min (bytesPerSector * 11) sectors.length)).zipIdx).foldl checksumStep 0

end Exfat
end FatForensic
