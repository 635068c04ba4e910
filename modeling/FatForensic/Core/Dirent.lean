import FatForensic.Core.Arith
import FatForensic.Core.Bytes
import FatForensic.Lib.Utf16
import Mathlib.Data.List.DropRight
import Mathlib.Data.List.Sort

/-!
# FAT12/16/32 directory entries

`dirent.rs`: 32-byte short (8.3) records, the reassembly of VFAT long names with their
checksum binding, and deleted entries, which are surfaced rather than dropped.  A Rust
`String` under construction is a list of characters.
-/

namespace FatForensic
namespace Dirent

open Window

/-- Volume-label attribute bit. -/
def ATTR_VOLUME_ID : UInt8 := 0x08

/-- Directory attribute bit. -/
def ATTR_DIRECTORY : UInt8 := 0x10

/-- The attribute value marking a VFAT long-name component. -/
def ATTR_LFN : UInt8 := 0x0F

/-- First byte of a deleted entry. -/
def DELETED : UInt8 := 0xE5

/-- First byte marking the end of the directory. -/
def END : UInt8 := 0x00

/-- One decoded FAT directory entry (short record, with any long name applied). -/
structure DirEntry where
  /-- The reassembled long name if valid, else the 8.3 name. -/
  name : String
  shortName : String
  attributes : UInt8
  isDir : Bool
  isVolumeLabel : Bool
  deleted : Bool
  firstCluster : UInt32
  size : UInt32
  /-- Slot index of this short entry within its directory. -/
  index : UInt16
  /-- Raw creation `(date, time, tenths)` fields. -/
  created : UInt16 × UInt16 × UInt8
  /-- Raw last-modified `(date, time)` fields. -/
  modified : UInt16 × UInt16
  /-- Raw last-access date field. -/
  accessed : UInt16
deriving DecidableEq, Repr

/-! ## Short names -/

/-- Right-trim ASCII spaces and decode as Latin-1. -/
def trim (bytes : List UInt8) : List Char :=
  (bytes.rdropWhile (· = 0x20)).map fun b => Char.ofNat b.toNat

/-- The raw name bytes as rendered: a leading `0x05` stands for `0xE5`, and the first byte of
a deleted entry is unknown. -/
def renderedBytes (raw : List UInt8) (deleted : Bool) : List UInt8 :=
  let lead := if u8At raw 0 = 0x05 then 0xE5 else u8At raw 0
  (if deleted then 0x3F else lead) :: slice raw 1 10

/-- Render the 8.3 name from the 11 raw bytes, applying the NT lower-case flags. -/
def decodeShortName (raw : List UInt8) (ntFlags : UInt8) (isVolumeLabel deleted : Bool) : String :=
  let bytes := renderedBytes raw deleted
  if isVolumeLabel then String.ofList (trim bytes)
  else
    let base := trim (slice bytes 0 8)
    let ext := trim (slice bytes 8 3)
    let base := if ntFlags &&& 0x08 ≠ 0 then base.map Char.toLower else base
    let ext := if ntFlags &&& 0x10 ≠ 0 then ext.map Char.toLower else ext
    if ext.isEmpty then String.ofList base else String.ofList (base ++ '.' :: ext)

/-! ## Long names -/

/-- Byte offsets of the 13 UTF-16 code units in a long-name slot. -/
def OFFSETS : List ℕ := [1, 3, 5, 7, 9, 14, 16, 18, 20, 22, 24, 28, 30]

/-- The 13 UTF-16 code units of a long-name slot. -/
def lfnChars (chunk : List UInt8) : List UInt16 := OFFSETS.map (leU16 chunk)

/-- One step of the checksum: rotate the sum right by one bit and add a byte. -/
def checksumStep (sum b : UInt8) : UInt8 := ((sum &&& 1) <<< 7) + (sum >>> 1) + b

/-- The VFAT checksum of an 11-byte short name. -/
def shortChecksum (name : List UInt8) : UInt8 := (name.take 11).foldl checksumStep 0

/-- The units one part contributes: up to the first `0x0000`, with `0xFFFF` left out. -/
def partUnits (chars : List UInt16) : List UInt16 :=
  (chars.takeWhile (· ≠ 0x0000)).filter (· ≠ 0xFFFF)

/-- Reassemble the long name from the pending parts, but only if the checksum binds them to
this short entry.  `sort_by_key` is stable, and so is an insertion sort. -/
def reassembleLong (parts : List (UInt8 × List UInt16)) (checksum : Option UInt8)
    (shortRaw : List UInt8) : Option String :=
  match checksum with
  | none => none
  | some checksum =>
    if parts.isEmpty ∨ checksum ≠ shortChecksum shortRaw then none
    else
      let ordered := parts.insertionSort fun p q => p.1 ≤ q.1
      let units := ordered.flatMap fun p => partUnits p.2
      if units.isEmpty then none else some (Utf16.fromUtf16Lossy units)

/-! ## Entries -/

/-- Decode a 32-byte short entry, applying `longName` if present. -/
def decodeShort (chunk : List UInt8) (idx : ℕ) (longName : Option String) (deleted : Bool) :
    DirEntry :=
  let attr := u8At chunk 11
  let isVolumeLabel : Bool := attr &&& ATTR_VOLUME_ID ≠ 0 ∧ attr ≠ ATTR_LFN
  let ntFlags := u8At chunk 12
  let shortName := decodeShortName (slice chunk 0 11) ntFlags isVolumeLabel deleted
  { name := longName.getD shortName
    shortName
    attributes := attr
    isDir := attr &&& ATTR_DIRECTORY ≠ 0 ∧ ¬ isVolumeLabel
    isVolumeLabel
    deleted
    firstCluster := ((leU16 chunk 20).toUInt32 <<< 16) ||| (leU16 chunk 26).toUInt32
    size := (leU16 chunk 28).toUInt32 ||| ((leU16 chunk 30).toUInt32 <<< 16)
    index := u16OrMax idx
    created := (leU16 chunk 16, leU16 chunk 14, u8At chunk 13)
    modified := (leU16 chunk 24, leU16 chunk 22)
    accessed := leU16 chunk 18 }

/-- The scan of `parse_directory` from slot `idx` on, with the pending long-name parts and
the checksum of the last one. -/
def parseFrom : List (List UInt8) → ℕ → List (UInt8 × List UInt16) → Option UInt8 → List DirEntry
  | [], _, _, _ => []
  | chunk :: rest, idx, lfnParts, lfnChecksum =>
    let first := u8At chunk 0
    let attr := u8At chunk 11
    if first = END then []
    else if first = DELETED then
      -- a deleted entry breaks any pending long-name association
      if attr = ATTR_LFN then parseFrom rest (idx + 1) [] none
      else decodeShort chunk idx none true :: parseFrom rest (idx + 1) [] none
    else if attr = ATTR_LFN then
      parseFrom rest (idx + 1) (lfnParts ++ [(first &&& 0x1F, lfnChars chunk)])
        (some (u8At chunk 13))
    else
      let long := reassembleLong lfnParts lfnChecksum (slice chunk 0 11)
      decodeShort chunk idx long false :: parseFrom rest (idx + 1) [] none

/-- Parse a directory's raw bytes into decoded entries; stops at the first end marker. -/
def parseDirectory (data : List UInt8) : List DirEntry :=
  parseFrom (chunksExact 32 data) 0 [] none

end Dirent
end FatForensic
