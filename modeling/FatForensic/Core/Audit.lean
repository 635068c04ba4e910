import FatForensic.Core.Fs

/-!
# The auditor

The `fat-forensic` crate over an in-memory image: the anomaly kinds with their grading and their
texts, and the checks of `audit_reader`.  The note of an anomaly is a function of its kind, and is
no field of it here; so is the text of an error that a kind carries.
-/

namespace FatForensic

open Window

/-- Severity of a finding. -/
inductive Severity where
  | info
  | medium
  | high
deriving DecidableEq, Repr

/-- Analytical lens of a finding (`structural` is `Structure` in the source). -/
inductive Category where
  | structural
  | integrity
  | residue
deriving DecidableEq, Repr

/-- Classification of an anomaly, carrying the evidence to reproduce it. -/
inductive AnomalyKind where
  | bootSignatureInvalid (found : UInt16)
  /-- `detail` in the source is the text of the error. -/
  | bpbInvalid (error : FatError)
  /-- The first disagreement, and how many bytes disagree. -/
  | fatMirrorMismatch (fatOffset : ℕ) (fat1 fat2 : UInt8) (differingBytes : ℕ)
  | exfatBootChecksumMismatch (computed stored : UInt32)
  | deletedDirectoryEntry (name : String)
deriving DecidableEq, Repr

namespace AnomalyKind

/-- Severity of this kind. -/
def severity : AnomalyKind → Severity
  | bootSignatureInvalid _ | bpbInvalid _ | exfatBootChecksumMismatch _ _ => .high
  | fatMirrorMismatch _ _ _ _ => .medium
  | deletedDirectoryEntry _ => .info

/-- Stable, scheme-prefixed machine code. -/
def code : AnomalyKind → String
  | bootSignatureInvalid _ => "FAT-BOOT-SIG-INVALID"
  | bpbInvalid _ => "FAT-BPB-INVALID"
  | fatMirrorMismatch _ _ _ _ => "FAT-MIRROR-MISMATCH"
  | exfatBootChecksumMismatch _ _ => "EXFAT-BOOT-CHECKSUM-MISMATCH"
  | deletedDirectoryEntry _ => "FAT-DIR-ENTRY-DELETED"

/-- Analytical lens. -/
def category : AnomalyKind → Category
  | bootSignatureInvalid _ | bpbInvalid _ => .structural
  | fatMirrorMismatch _ _ _ _ | exfatBootChecksumMismatch _ _ => .integrity
  | deletedDirectoryEntry _ => .residue

/-- Human-readable, consistent-with note (carries the offending value). -/
def note (beyond : Char → Bool) : AnomalyKind → String
  | bootSignatureInvalid found =>
    s!"boot signature at 0x1FE is {altHex 4 found.toNat}, expected 0x55AA — consistent with a "
      ++ "non-FAT or overwritten boot sector"
  | bpbInvalid error => s!"BPB is structurally invalid: {error.toText beyond}"
  | fatMirrorMismatch fatOffset fat1 fat2 differingBytes =>
    s!"FAT copies disagree in {differingBytes} byte(s); first at FAT offset {fatOffset} "
      ++ s!"({altHex 2 fat1.toNat} vs {altHex 2 fat2.toNat}) — consistent with a post-hoc edit of "
      ++ "one copy or media corruption"
  | exfatBootChecksumMismatch computed stored =>
    s!"exFAT boot checksum {altHex 8 computed.toNat} does not match the stored "
      ++ s!"{altHex 8 stored.toNat} — consistent with a modified boot region"
  | deletedDirectoryEntry name =>
    s!"deleted directory entry present: {debugString beyond name} (recovery lead)"

end AnomalyKind

/-- A row of evidence; a location is a byte offset where there is one. -/
structure Evidence where
  field : String
  value : String
  location : Option ℕ
deriving DecidableEq, Repr

/-- Backing evidence rows (offending value and location). -/
def AnomalyKind.evidence (beyond : Char → Bool) : AnomalyKind → List Evidence
  | bootSignatureInvalid found => [⟨"boot_signature", altHex 4 found.toNat, some 510⟩]
  | bpbInvalid error => [⟨"bpb", error.toText beyond, some 0⟩]
  | fatMirrorMismatch fatOffset fat1 fat2 _ =>
    [⟨"fat_mirror", s!"{altHex 2 fat1.toNat} vs {altHex 2 fat2.toNat}", some fatOffset⟩]
  | exfatBootChecksumMismatch computed stored =>
    [⟨"boot_checksum", s!"computed={altHex 8 computed.toNat}, stored={altHex 8 stored.toNat}",
      none⟩]
  | deletedDirectoryEntry name => [⟨"deleted_name", name, none⟩]

/-- A forensic anomaly: an observation graded by severity. -/
structure Anomaly where
  severity : Severity
  code : String
  kind : AnomalyKind
deriving DecidableEq, Repr

/-- Build an anomaly, deriving severity and code from `kind`. -/
def Anomaly.new (kind : AnomalyKind) : Anomaly where
  severity := kind.severity
  code := kind.code
  kind := kind

namespace Audit

/-- Recursion cap on the directory walk. -/
def MAX_DEPTH : ℕ := 64

/-- Compare the recomputed boot checksum of an exFAT volume against the stored value. -/
def auditExfatChecksum (img : List UInt8) (geom : Geometry) : List Anomaly :=
  let bps := geom.bytesPerSector
  let region := readUpto img 0 (bps * 12)
  if region.length < bps * 12 then [] -- truncated: cannot verify
  else
    let computed := Exfat.bootChecksum (region.take (bps * 11)) bps
    let stored := leU32 region (bps * 11)
    if computed ≠ stored then [.new (.exfatBootChecksumMismatch computed stored)] else []

/-- One round of the comparison of two FAT copies: the first disagreement, and the count. -/
def mirrorStep (st : Option (ℕ × UInt8 × UInt8) × ℕ) (p : (UInt8 × UInt8) × ℕ) :
    Option (ℕ × UInt8 × UInt8) × ℕ :=
  if p.1.1 ≠ p.1.2 then
    (if st.1.isNone then some (p.2, p.1.1, p.1.2) else st.1, st.2 + 1)
  else st

/-- Compare the first FAT against the mirror copy, byte for byte. -/
def auditFatMirror (img : List UInt8) (geom : Geometry) : List Anomaly :=
  let fatBytes := geom.fatSizeSectors * geom.bytesPerSector
  if fatBytes = 0 then []
  else
    let fat1 := readUpto img geom.fatStart fatBytes
    if fat1.length < fatBytes then []
    else
      let fat2 := readUpto img (geom.fatStart + fatBytes) fatBytes
      if fat2.length < fatBytes then []
      else
        match (fat1.zip fat2).zipIdx.foldl mirrorStep (none, 0) with
        | (some (fatOffset, a, b), differing) =>
          [.new (.fatMirrorMismatch fatOffset a b differing)]
        | (none, _) => []

/-- The first clusters seen on the walk, and the anomalies found. -/
abbrev WalkState := List UInt32 × List Anomaly

/-- One round of the loop over the nodes of a directory, `descend` being the recursive call. -/
def collectNode (descend : FileId → WalkState → WalkState) (st : WalkState) (node : Node) :
    WalkState :=
  if node.name = "." ∨ node.name = ".." then st
  else if node.isDeleted then (st.1, st.2 ++ [.new (.deletedDirectoryEntry node.name)])
  else if node.isDir ∧ ¬ node.isVolumeLabel ∧ node.firstCluster ∉ st.1 then
    descend node.id (node.firstCluster :: st.1, st.2)
  else st

/-- Recursively collect deleted directory entries, the first argument being the levels left
below the recursion cap. -/
def collectDeleted (fs : FatFs) : ℕ → FileId → WalkState → WalkState
  | 0, _, st => st
  | levels + 1, dir, st =>
    match fs.readDir dir with
    | .error _ => st
    | .ok nodes => nodes.foldl (collectNode (collectDeleted fs levels)) st

/-- Audit an image for structural and integrity anomalies. -/
def auditReader (img : List UInt8) : Result (List Anomaly) := do
  let boot ← readExact "read" img 0 512
  let sig := leU16 boot 510
  let out := if sig ≠ 0xAA55 then [.new (.bootSignatureInvalid sig)] else []
  match if slice boot 3 8 = Exfat.SIGNATURE then Exfat.parseBoot boot else Geometry.parse boot with
  | .error e => .ok (out ++ [.new (.bpbInvalid e)])
  | .ok geom =>
    let out :=
      if geom.variant = .exFat then out ++ auditExfatChecksum img geom
      else if geom.numFats ≥ 2 then out ++ auditFatMirror img geom
      else out
    match FatFs.openImage img with
    | .error _ => .ok out
    | .ok fs => .ok (collectDeleted fs MAX_DEPTH FatFs.root ([], out)).2

/-- Audit the volume at `path`, the files that can be opened being a function of the path. -/
def auditPath (openFile : String → Except String (List UInt8)) (path : String) :
    Result (List Anomaly) :=
  match openFile path with
  | .error e => .error (.io "open" e)
  | .ok img => auditReader img

end Audit
end FatForensic
