import FatForensic.Core.Audit
import FatForensic.Core.Reader
import FatForensic.Lib.Faults

/-!
# The reader and the auditor over any byte source

`fs.rs` and `audit_reader` once more, as they are for every `Read + Seek`: the source may deliver
fewer bytes than asked for, and every seek and every read may fail.  Where the source uses `?`, the
program ends with the error; where it uses `let Ok(..)`, it goes on.  The lock of the source is not
poisoned.
-/

namespace FatForensic

open Faults Window

/-- The fields of `FatFs<R>` but for the reader. -/
structure Mounted where
  geom : Geometry
  fat : List UInt8
  maxClusters : ℕ
deriving DecidableEq, Repr

namespace Mounted

/-- The fields of a reader over an image. -/
def of (fs : FatFs) : Mounted where
  geom := fs.geom
  fat := fs.fat
  maxClusters := fs.maxClusters

/-- The fields alone, for the functions that do not read the source. -/
def offline (m : Mounted) : FatFs where
  image := []
  geom := m.geom
  fat := m.fat
  maxClusters := m.maxClusters

end Mounted

namespace Reader

/-- A program of the crates over the states of a source. -/
abbrev Io (σ α : Type) := Program FatError σ α

variable {σ : Type} (r : Reader σ) (fuel : σ → ℕ)

/-! ## Reading -/

/-- `seek(SeekFrom::Start(offset))`. -/
def seekTo (offset : ℕ) : Io σ Unit := .ofExec fun s =>
  match r.seek s offset with
  | (.ok (), s') => some (.ok (), s')
  | (.error e, s') => some (.error (.io "seek" e.text), s')

/-- `read_fill`: the count read, and the buffer after it. -/
def fill (buf : List UInt8) : Io σ (ℕ × List UInt8) := .ofExec fun s =>
  match r.readFill (fuel s) s buf with
  | none => none
  | some (.ok n, buf', s') => some (.ok (n, buf'), s')
  | some (.error e, _, s') => some (.error e, s')

/-- `read_exact` of the standard library into zero bytes, in the operation `op`: it retries as
`read_fill` does, and fails where the bytes do not last. -/
def fillExact (op : String) (len : ℕ) : Io σ (List UInt8) := .ofExec fun s =>
  match r.readFill (fuel s) s (List.replicate len 0) with
  | none => none
  | some (.ok n, buf, s') =>
    some (if n = len then .ok buf else .error (.io op "failed to fill whole buffer"), s')
  | some (.error (.io _ text), _, s') => some (.error (.io op text), s')
  | some (.error e, _, s') => some (.error e, s')

/-- `read_exact_into`, and `read_at` of the auditor. -/
def exactAt (op : String) (offset len : ℕ) : Io σ (List UInt8) := do
  r.seekTo offset
  r.fillExact fuel op len

/-- Read up to `buf.length` bytes at `offset`: the count read, and the buffer after it. -/
def readRegion (offset : ℕ) (buf : List UInt8) : Io σ (ℕ × List UInt8) := do
  r.seekTo offset
  r.fill fuel buf

/-- Read `len` bytes at `offset` into a fresh vector (short read tolerated); `read_upto` has the
same steps. -/
def readRegionVec (offset len : ℕ) : Io σ (List UInt8) := do
  let out ← r.readRegion fuel offset (List.replicate len 0)
  pure (out.2.take out.1)

/-! ## `fs.rs` -/

/-- `FatFs::open`. -/
def openFs : Io σ Mounted := do
  let boot ← r.exactAt fuel "read boot sector" 0 512
  let geom ← .ofExcept
    (if slice boot 3 8 = Exfat.SIGNATURE then Exfat.parseBoot boot else Geometry.parse boot)
  let fat ← r.readRegionVec fuel geom.fatStart
    (min (geom.fatSizeSectors * geom.bytesPerSector) MAX_FAT_BYTES)
  pure { geom, fat, maxClusters := geom.countOfClusters + 2 }

variable (m : Mounted)

/-- The loop of `read_dir_bytes` over a cluster list. -/
def readClusters : List UInt32 → List UInt8 → Io σ (List UInt8)
  | [], out => pure out
  | cluster :: rest, out =>
    if MAX_DIR_BYTES ≤ out.length then pure out
    else match m.geom.clusterOffset cluster with
      | none => pure out
      | some base => do
        let bytes ← r.readRegionVec fuel base m.geom.clusterSize
        readClusters rest (out ++ bytes)

/-- Read the raw bytes of a directory. -/
def readDirBytes : DirSource → Io σ (List UInt8)
  | .fixedRoot => r.readRegionVec fuel m.geom.rootDirStart m.geom.rootDirBytes
  | .chain firstCluster size contiguous =>
    r.readClusters fuel m (m.offline.clusters firstCluster size contiguous) []

/-- Re-read the directory entry a handle points at. -/
def resolveEntry : FileId → Io σ Node
  | .root => pure rootNode
  | .entry dirCluster index => do
    let bytes ← r.readDirBytes fuel m (FatFs.parentSource dirCluster)
    match (m.offline.listNodes bytes dirCluster).find? (FatFs.hasIndex index) with
    | some node => pure node
    | none => throw (.corrupt (.noDirectoryEntry index))

/-- Where the directory that `id` is stores its bytes. -/
def dirSource : FileId → Io σ DirSource
  | .root =>
    if m.offline.rootIsClustered then pure (.chain m.geom.rootCluster 0 false) else pure .fixedRoot
  | .entry dirCluster index => do
    let node ← r.resolveEntry fuel m (.entry dirCluster index)
    if ¬ node.isDir then throw (.corrupt (.notADirectory node.name))
    else pure (.chain node.firstCluster node.size node.contiguous)

/-- The cluster chain and total byte length backing the data of `id`. -/
def dataExtent : FileId → Io σ (List UInt32 × ℕ)
  | .root => do
    match ← r.dirSource fuel m .root with
    | .fixedRoot => pure ([], m.geom.rootDirBytes)
    | .chain firstCluster size contiguous => pure (m.offline.extentOf firstCluster size contiguous)
  | .entry dirCluster index => do
    let node ← r.resolveEntry fuel m (.entry dirCluster index)
    pure (m.offline.extentOf node.firstCluster node.size node.contiguous)

/-- List the entries of the directory `id` (allocated and deleted). -/
def readDir (id : FileId) : Io σ (List Node) := do
  let source ← r.dirSource fuel m id
  let bytes ← r.readDirBytes fuel m source
  pure (m.offline.listNodes bytes (sourceMarker source))

/-- Resolve a single child of `dir` by name (allocated entries only). -/
def lookup (dir : FileId) (name : List UInt8) : Io σ (Option FileId) := do
  let nodes ← r.readDir fuel m dir
  pure ((nodes.find? fun node =>
    !node.isDeleted && !node.isVolumeLabel && node.name.toUTF8.data.toList == name).map Node.id)

/-- Resolve metadata for `id`. -/
def nodeMeta : FileId → Io σ Node
  | .root => pure rootNode
  | .entry dirCluster index => r.resolveEntry fuel m (.entry dirCluster index)

/-- Contiguous image byte runs backing the data of `id`. -/
def runs (id : FileId) : Io σ (List (ℕ × ℕ)) := do
  let extent ← r.dataExtent fuel m id
  if extent.1.isEmpty then
    pure (if extent.2 = 0 then [] else [(m.geom.rootDirStart, extent.2)])
  else pure (m.offline.runsFrom extent.1 extent.2 [])

/-- The loop of `read_at` up to the logical position `stop`, at most that many rounds. -/
def readAtFrom (chain : List UInt32) (stop : ℕ) : ℕ → ℕ → ℕ → List UInt8 → Io σ (ℕ × List UInt8)
  | 0, _, written, buf => pure (written, buf)
  | rounds + 1, pos, written, buf =>
    if pos < stop then
      match chain[pos / m.geom.clusterSize]? with
      | none => pure (written, buf)
      | some cluster =>
        match m.geom.clusterOffset cluster with
        | none => pure (written, buf)
        | some base => do
          let intra := pos % m.geom.clusterSize
          let want := min (stop - pos) (m.geom.clusterSize - intra)
          let out ← r.readRegion fuel (base + intra) (slice buf written want)
          let buf := overwrite buf written out.2
          if out.1 = 0 then pure (written, buf)
          else readAtFrom chain stop rounds (pos + out.1) (written + out.1) buf
    else pure (written, buf)

/-- Read up to `buf.length` bytes at byte offset `off` within node `id`: the count read, and the
buffer after it.  What is in the buffer after an error is left out. -/
def readAt (id : FileId) (off : ℕ) (buf : List UInt8) : Io σ (ℕ × List UInt8) := do
  let extent ← r.dataExtent fuel m id
  if off ≥ extent.2 then pure (0, buf)
  else
    let stop := min (saturatingAdd off buf.length) extent.2
    r.readAtFrom fuel m extent.1 stop (stop - off) off 0 buf

/-! ## The auditor -/

/-- Compare the recomputed boot checksum of an exFAT volume against the stored value. -/
def auditExfatChecksum (geom : Geometry) : Io σ (List Anomaly) := do
  let bps := geom.bytesPerSector
  let region ← r.readRegionVec fuel 0 (bps * 12)
  if region.length < bps * 12 then pure []
  else
    let computed := Exfat.bootChecksum (region.take (bps * 11)) bps
    let stored := leU32 region (bps * 11)
    pure (if computed ≠ stored then [.new (.exfatBootChecksumMismatch computed stored)] else [])

/-- Compare the first FAT against the mirror copy, byte for byte. -/
def auditFatMirror (geom : Geometry) : Io σ (List Anomaly) :=
  let fatBytes := geom.fatSizeSectors * geom.bytesPerSector
  if fatBytes = 0 then pure []
  else do
    let fat1 ← r.readRegionVec fuel geom.fatStart fatBytes
    if fat1.length < fatBytes then pure []
    else do
      let fat2 ← r.readRegionVec fuel (geom.fatStart + fatBytes) fatBytes
      if fat2.length < fatBytes then pure []
      else
        match (fat1.zip fat2).zipIdx.foldl Audit.mirrorStep (none, 0) with
        | (some (fatOffset, a, b), differing) =>
          pure [.new (.fatMirrorMismatch fatOffset a b differing)]
        | (none, _) => pure []

/-- One round of the loop over the nodes of a directory, `descend` being the recursive call. -/
def collectNode (descend : FileId → Audit.WalkState → Io σ Audit.WalkState)
    (st : Audit.WalkState) (node : Node) : Io σ Audit.WalkState :=
  if node.name = "." ∨ node.name = ".." then pure st
  else if node.isDeleted then pure (st.1, st.2 ++ [.new (.deletedDirectoryEntry node.name)])
  else if node.isDir ∧ ¬ node.isVolumeLabel ∧ node.firstCluster ∉ st.1 then
    descend node.id (node.firstCluster :: st.1, st.2)
  else pure st

/-- Recursively collect deleted directory entries; a directory that cannot be read is passed
over. -/
def collectDeleted : ℕ → FileId → Audit.WalkState → Io σ Audit.WalkState
  | 0, _, st => pure st
  | levels + 1, dir, st => do
    match ← (r.readDir fuel m dir).attempt with
    | .error _ => pure st
    | .ok nodes => nodes.foldlM (collectNode (collectDeleted levels)) st

/-- Audit a source for structural and integrity anomalies. -/
def auditReader : Io σ (List Anomaly) := do
  let boot ← r.exactAt fuel "read" 0 512
  let sig := leU16 boot 510
  let out := if sig ≠ 0xAA55 then [Anomaly.new (.bootSignatureInvalid sig)] else []
  match if slice boot 3 8 = Exfat.SIGNATURE then Exfat.parseBoot boot else Geometry.parse boot with
  | .error e => pure (out ++ [.new (.bpbInvalid e)])
  | .ok geom => do
    let found ←
      (if geom.variant = .exFat then r.auditExfatChecksum fuel geom
      else if geom.numFats ≥ 2 then r.auditFatMirror fuel geom
      else pure [])
    match ← (r.openFs fuel).attempt with
    | .error _ => pure (out ++ found)
    | .ok m => do
      let st ← r.collectDeleted fuel m Audit.MAX_DEPTH FatFs.root ([], out ++ found)
      pure st.2

end Reader
end FatForensic
