import FatForensic.Core.Dirent
import FatForensic.Core.Exfat
import FatForensic.Core.Fat
import FatForensic.Core.Io

/-!
# The unified reader

`fs.rs` over an in-memory image: opening a volume, and the uniform navigation `root`,
`read_dir`, `lookup`, `meta`, `runs` and `read_at`.  The `Mutex` and the seeks of the source
cannot fail on such an image, so the reads are plain functions of it.
-/

namespace FatForensic

open Window

/-- Cap on the bytes materialized for one directory. -/
def MAX_DIR_BYTES : ℕ := 64 * 1024 * 1024

/-- Cap on the cached FAT region. -/
def MAX_FAT_BYTES : ℕ := 256 * 1024 * 1024

/-- The `dirCluster` value meaning "the FAT12/16 fixed root region". -/
def FIXED_ROOT : UInt32 := 0xFFFFFFFF

/-- A handle to a node: the root, or the slot of an entry in its parent directory. -/
inductive FileId where
  | root
  /-- `dirCluster` is the first cluster of the parent directory, or `FIXED_ROOT`. -/
  | entry (dirCluster : UInt32) (index : UInt16)
deriving DecidableEq, Repr

/-- A resolved node: identity plus the fields a caller needs to navigate or read. -/
structure Node where
  id : FileId
  name : String
  shortName : String
  isDir : Bool
  isDeleted : Bool
  isVolumeLabel : Bool
  size : UInt64
  attributes : UInt32
  /-- First cluster of the node's data (0 = empty). -/
  firstCluster : UInt32
  /-- Whether the data is contiguous (exFAT NoFatChain). -/
  contiguous : Bool
  created : Option FatTimestamp
  modified : Option FatTimestamp
  accessed : Option FatTimestamp
deriving DecidableEq, Repr

/-- Where a directory's raw bytes live. -/
inductive DirSource where
  /-- The FAT12/16 fixed root region. -/
  | fixedRoot
  /-- A cluster extent; `size = 0` means the whole FAT chain. -/
  | chain (firstCluster : UInt32) (size : UInt64) (contiguous : Bool)
deriving DecidableEq, Repr

/-- A reader over a volume: the image behind it, the geometry, and the cached first FAT. -/
structure FatFs where
  image : List UInt8
  geom : Geometry
  fat : List UInt8
  maxClusters : ℕ
deriving DecidableEq, Repr, Inhabited

/-- The marker `dirCluster` for children enumerated under `source`. -/
def sourceMarker : DirSource → UInt32
  | .fixedRoot => FIXED_ROOT
  | .chain firstCluster _ _ => firstCluster

/-- The synthetic root node. -/
def rootNode : Node where
  id := .root
  name := ""
  shortName := ""
  isDir := true
  isDeleted := false
  isVolumeLabel := false
  size := 0
  attributes := Dirent.ATTR_DIRECTORY.toUInt32
  firstCluster := 0
  contiguous := false
  created := none
  modified := none
  accessed := none

/-- Build a node from a decoded FAT directory entry under the parent `marker`. -/
def nodeFrom (marker : UInt32) (e : Dirent.DirEntry) : Node where
  id := .entry marker e.index
  name := e.name
  shortName := e.shortName
  isDir := e.isDir
  isDeleted := e.deleted
  isVolumeLabel := e.isVolumeLabel
  size := e.size.toUInt64
  attributes := e.attributes.toUInt32
  firstCluster := e.firstCluster
  contiguous := false
  created := decodeTime e.created.1 e.created.2.1 e.created.2.2
  modified := decodeTime e.modified.1 e.modified.2 0
  accessed := decodeTime e.accessed 0 0

/-- Build a node from a decoded exFAT entry set under the parent `marker`. -/
def nodeFromExfat (marker : UInt32) (e : Exfat.ExfatDirEntry) : Node where
  id := .entry marker e.index
  name := e.name
  shortName := e.name
  isDir := e.isDir
  isDeleted := e.deleted
  isVolumeLabel := false
  size := e.size
  attributes := e.attributes.toUInt32
  firstCluster := e.firstCluster
  contiguous := e.contiguous
  created := e.created
  modified := e.modified
  accessed := e.accessed

namespace FatFs

/-- Open a volume, detecting the variant from the boot sector. -/
def openImage (img : List UInt8) : Result FatFs := do
  let boot ← readExact "read boot sector" img 0 512
  let geom ←
    (if slice boot 3 8 = Exfat.SIGNATURE then Exfat.parseBoot boot else Geometry.parse boot)
  let fatBytes := geom.fatSizeSectors * geom.bytesPerSector
  let fatLen := min fatBytes MAX_FAT_BYTES
  .ok {
    image := img
    geom
    fat := readUpto img geom.fatStart fatLen
    maxClusters := geom.countOfClusters + 2 }

variable (fs : FatFs)

/-! ## Internals -/

/-- Read up to `buf.length` bytes at `offset`: the count read, and the buffer after it. -/
def readRegion (offset : ℕ) (buf : List UInt8) : ℕ × List UInt8 := readFill fs.image offset buf

/-- Read `len` bytes at `offset` into a fresh vector (short read tolerated). -/
def readRegionVec (offset len : ℕ) : List UInt8 :=
  let r := fs.readRegion offset (List.replicate len 0)
  r.2.take r.1

/-- Parse a directory's raw bytes into nodes, dispatching by variant. -/
def listNodes (bytes : List UInt8) (marker : UInt32) : List Node :=
  if fs.geom.variant = .exFat then (Exfat.parseDirectory bytes).map (nodeFromExfat marker)
  else (Dirent.parseDirectory bytes).map (nodeFrom marker)

/-- Whether the root directory lives in the cluster heap. -/
def rootIsClustered : Bool := fs.geom.variant = .fat32 ∨ fs.geom.variant = .exFat

/-- The cluster list of an extent: a sequential run sized from `size` where it is
contiguous, the FAT chain otherwise. -/
def clusters (firstCluster : UInt32) (size : UInt64) (contiguous : Bool) : List UInt32 :=
  if firstCluster < 2 then []
  else if contiguous ∧ size > 0 then
    let n := divCeil size.toNat fs.geom.clusterSize
    -- the range `first..first + n`, cut by `take(max_clusters)`
    (List.range' firstCluster.toNat (min n fs.maxClusters)).filterMap fun c =>
      if c < 2 ^ 32 then some (UInt32.ofNat c) else none
  else followChain fs.fat fs.geom.variant firstCluster fs.maxClusters

/-- The cluster list and total byte length of an extent; size `0` is taken as the full
chain. -/
def extentOf (firstCluster : UInt32) (size : UInt64) (contiguous : Bool) : List UInt32 × ℕ :=
  let cs := fs.clusters firstCluster size contiguous
  (cs, if size > 0 then size.toNat else cs.length * fs.geom.clusterSize)

/-- The loop of `read_dir_bytes` over a cluster list. -/
def readClusters : List UInt32 → List UInt8 → List UInt8
  | [], out => out
  | cluster :: rest, out =>
    if MAX_DIR_BYTES ≤ out.length then out
    else match fs.geom.clusterOffset cluster with
      | none => out
      | some base => readClusters rest (out ++ fs.readRegionVec base fs.geom.clusterSize)

/-- Read the raw bytes of a directory. -/
def readDirBytes : DirSource → List UInt8
  | .fixedRoot => fs.readRegionVec fs.geom.rootDirStart fs.geom.rootDirBytes
  | .chain firstCluster size contiguous =>
    fs.readClusters (fs.clusters firstCluster size contiguous) []

/-- Where the parent directory named by a handle is read from: `FIXED_ROOT` is the fixed
region, and every other first cluster is followed along the FAT. -/
def parentSource (dirCluster : UInt32) : DirSource :=
  if dirCluster = FIXED_ROOT then .fixedRoot else .chain dirCluster 0 false

/-- `matches!(n.id, FileId::Entry { index: i, .. } if i == index)`. -/
def hasIndex (index : UInt16) (n : Node) : Bool :=
  match n.id with
  | .entry _ i => i = index
  | .root => false

/-- Re-read the directory entry a handle points at. -/
def resolveEntry : FileId → Result Node
  | .root => .ok rootNode
  | .entry dirCluster index =>
    let bytes := fs.readDirBytes (parentSource dirCluster)
    match (fs.listNodes bytes dirCluster).find? (hasIndex index) with
    | some node => .ok node
    | none => .error (.corrupt (.noDirectoryEntry index))

/-- Where the directory that `id` is stores its bytes. -/
def dirSource : FileId → Result DirSource
  | .root =>
    if fs.rootIsClustered then .ok (.chain fs.geom.rootCluster 0 false) else .ok .fixedRoot
  | .entry dirCluster index => do
    let node ← fs.resolveEntry (.entry dirCluster index)
    if ¬ node.isDir then .error (.corrupt (.notADirectory node.name))
    else .ok (.chain node.firstCluster node.size node.contiguous)

/-- The cluster chain and total byte length backing the data of `id`. -/
def dataExtent : FileId → Result (List UInt32 × ℕ)
  | .root => do
    match ← fs.dirSource .root with
    | .fixedRoot => .ok ([], fs.geom.rootDirBytes)
    | .chain firstCluster size contiguous => .ok (fs.extentOf firstCluster size contiguous)
  | .entry dirCluster index => do
    let node ← fs.resolveEntry (.entry dirCluster index)
    .ok (fs.extentOf node.firstCluster node.size node.contiguous)

/-! ## Navigation -/

/-- The root directory handle. -/
def root : FileId := .root

/-- List the entries of the directory `id` (allocated and deleted). -/
def readDir (id : FileId) : Result (List Node) := do
  let source ← fs.dirSource id
  .ok (fs.listNodes (fs.readDirBytes source) (sourceMarker source))

/-- Resolve a single child of `dir` by name (allocated entries only). -/
def lookup (dir : FileId) (name : List UInt8) : Result (Option FileId) := do
  let nodes ← fs.readDir dir
  .ok ((nodes.find? fun node =>
    !node.isDeleted && !node.isVolumeLabel && node.name.toUTF8.data.toList == name).map Node.id)

/-- Resolve metadata for `id` (`meta` in the source). -/
def nodeMeta : FileId → Result Node
  | .root => .ok rootNode
  | .entry dirCluster index => fs.resolveEntry (.entry dirCluster index)

/-- Add a cluster's piece to the run list, merging it with a physically adjacent last run. -/
def pushRun (runs : List (ℕ × ℕ)) (off len : ℕ) : List (ℕ × ℕ) :=
  match runs.getLast? with
  | some last =>
    if last.1 + last.2 = off then runs.dropLast ++ [(last.1, last.2 + len)]
    else runs ++ [(off, len)]
  | none => runs ++ [(off, len)]

/-- The loop of `runs` over a cluster list. -/
def runsFrom : List UInt32 → ℕ → List (ℕ × ℕ) → List (ℕ × ℕ)
  | [], _, runs => runs
  | c :: rest, remaining, runs =>
    if remaining = 0 then runs
    else match fs.geom.clusterOffset c with
      | none => runs
      | some off =>
        let len := min fs.geom.clusterSize remaining
        runsFrom rest (remaining - len) (pushRun runs off len)

/-- Contiguous image byte runs `(offset, len)` backing the data of `id`. -/
def runs (id : FileId) : Result (List (ℕ × ℕ)) := do
  let (chain, total) ← fs.dataExtent id
  if chain.isEmpty then
    .ok (if total = 0 then [] else [(fs.geom.rootDirStart, total)])
  else .ok (fs.runsFrom chain total [])

/-- The loop of `read_at` up to the logical position `stop`.  Every round advances `pos`, so
`stop - pos` is enough fuel. -/
def readAtFrom (chain : List UInt32) (stop : ℕ) : ℕ → ℕ → ℕ → List UInt8 → ℕ × List UInt8
  | 0, _, written, buf => (written, buf)
  | fuel + 1, pos, written, buf =>
    if pos < stop then
      match chain[pos / fs.geom.clusterSize]? with
      | none => (written, buf) -- chain shorter than the size field claims
      | some cluster =>
        match fs.geom.clusterOffset cluster with
        | none => (written, buf)
        | some base =>
          let intra := pos % fs.geom.clusterSize
          let avail := fs.geom.clusterSize - intra
          let want := min (stop - pos) avail
          let r := fs.readRegion (base + intra) (slice buf written want)
          let buf := overwrite buf written r.2
          if r.1 = 0 then (written, buf) -- truncated image
          else readAtFrom chain stop fuel (pos + r.1) (written + r.1) buf
    else (written, buf)

/-- Read up to `buf.length` bytes at byte offset `off` within node `id`: the count read, and
the buffer after it. -/
def readAt (id : FileId) (off : ℕ) (buf : List UInt8) : Result (ℕ × List UInt8) := do
  let (chain, total) ← fs.dataExtent id
  if off ≥ total then .ok (0, buf)
  else
    let stop := min (saturatingAdd off buf.length) total
    .ok (fs.readAtFrom chain stop (stop - off) off 0 buf)

end FatFs
end FatForensic
