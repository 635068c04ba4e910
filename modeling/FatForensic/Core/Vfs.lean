import FatForensic.Core.Fs

/-!
# The adapter to a virtual file system

`vfs.rs`: the addresses that FAT nodes have outside of the crate, and the file system interface by
them.  The address type has a constructor for FAT; the other ones belong to other file systems, and
are taken as they are, with the format of their debug output, and so are the streams other than
the default one.  Of the types of the interface the model has what the adapter puts into them.
-/

namespace FatForensic
namespace Vfs

/-- `forensic_vfs::FileId`: a FAT directory entry, or an identity of another file system. -/
inductive VfsId (Other : Type) where
  | fatDirEntry (cluster : UInt32) (index : UInt16)
  | other (id : Other)

/-- `forensic_vfs::VfsError`, as far as the adapter raises it.  Of a `Decode` error the `detail` is
the text of the error of the crate. -/
inductive VfsError where
  | unsupported (layer scheme : String)
  | io (op source : String)
  | decode (layer : String) (offset : ℕ) (error : FatError)
deriving DecidableEq, Repr

/-- `forensic_vfs::NodeKind` of the nodes of a FAT volume. -/
inductive NodeKind where
  | dir
  | file
deriving DecidableEq, Repr

/-- `forensic_vfs::DirEntry`. -/
structure DirEntry (Other : Type) where
  name : List UInt8
  id : VfsId Other
  kind : NodeKind

/-- `forensic_vfs::StreamId`: the default data stream, or another one. -/
inductive StreamId (Stream : Type) where
  | default
  | other (id : Stream)

/-- `forensic_vfs::FsKind` of the volumes of the crate. -/
inductive FsKind where
  | fat
  | exfat
deriving DecidableEq, Repr

/-- `forensic_vfs::SectorSizes`. -/
structure SectorSizes where
  logical : ℕ
  physical : ℕ
  clusterOrBlock : ℕ
deriving DecidableEq, Repr

/-- `forensic_vfs::TimeZonePolicy` of a FAT volume. -/
inductive TimeZonePolicy where
  | localUnknown
deriving DecidableEq, Repr

/-- `forensic_vfs::TimeResolution` of the times of a FAT node. -/
inductive TimeResolution where
  | twoSeconds
  | seconds
deriving DecidableEq, Repr

/-- `forensic_vfs::TimeSource` of the times of a FAT node. -/
inductive TimeSource where
  | dirEntry
deriving DecidableEq, Repr

/-- `forensic_vfs::TimeStamp`. -/
structure TimeStamp where
  unixNanos : ℤ
  source : TimeSource
  resolution : TimeResolution
deriving DecidableEq, Repr

/-- `forensic_vfs::MacbTimes`. -/
structure MacbTimes where
  modified : Option TimeStamp
  accessed : Option TimeStamp
  changed : Option TimeStamp
  born : Option TimeStamp
deriving DecidableEq, Repr

/-- `forensic_vfs::Allocation` of the nodes of a FAT volume. -/
inductive Allocation where
  | deleted
  | allocated
deriving DecidableEq, Repr

/-- `forensic_vfs::FsMeta`, without the fields that are empty for every node (owner, mode, streams,
link target) or the same for all (residency). -/
structure FsMeta where
  ino : UInt64
  kind : NodeKind
  allocated : Allocation
  size : UInt64
  nlink : ℕ
  times : MacbTimes
deriving DecidableEq, Repr

/-- `forensic_vfs::RunInfo`: a run of bytes of the image, which is always an allocated one. -/
structure RunInfo where
  imageOffset : ℕ
  len : ℕ
deriving DecidableEq, Repr

variable {Other : Type} (debug : Other → String)

/-- The address of a handle.  The root becomes cluster 0, index 0. -/
def toVfsId : FileId → VfsId Other
  | .root => .fatDirEntry 0 0
  | .entry dirCluster index => .fatDirEntry dirCluster index

/-- The handle of an address; an identity of another file system is a caller error. -/
def fromVfsId : VfsId Other → Except VfsError FileId
  | .fatDirEntry cluster index =>
    if cluster = 0 ∧ index = 0 then .ok .root else .ok (.entry cluster index)
  | .other id => .error (.unsupported "fat file-id" (debug id))

/-- Translate an error of the crate, with I/O kept apart from structural failures. -/
def mapErr : FatError → VfsError
  | .io op source => .io op source
  | e => .decode "fat" 0 e

/-- A synthetic metadata address from the place of the directory entry. -/
def inoOf : FileId → UInt64
  | .root => 0
  | .entry dirCluster index => (dirCluster.toUInt64 <<< 16) ||| index.toUInt64

/-- A decoded FAT timestamp with its provenance. -/
def toTs (ts : FatTimestamp) (resolution : TimeResolution) : TimeStamp where
  unixNanos := ts.unixSeconds * 1000000000 + ts.subsecNanos
  source := .dirEntry
  resolution := resolution

/-- The node kind for a node. -/
def nodeKind (n : Node) : NodeKind := if n.isDir then .dir else .file

/-- `?` with `map_err`. -/
def lift {α : Type} : Result α → Except VfsError α
  | .ok a => .ok a
  | .error e => .error (mapErr e)

/-- `FileSystem::read_dir`: the live children, without the volume label and the dot entries. -/
def readDir (fs : FatFs) (ino : VfsId Other) : Except VfsError (List (DirEntry Other)) := do
  let id ← fromVfsId debug ino
  let nodes ← lift (fs.readDir id)
  .ok ((nodes.filter fun n =>
      !n.isDeleted && !n.isVolumeLabel && n.name != "." && n.name != "..").map fun n =>
    { name := n.name.toUTF8.data.toList, id := toVfsId n.id, kind := nodeKind n })

/-- `FileSystem::lookup`. -/
def lookup (fs : FatFs) (parent : VfsId Other) (name : List UInt8) :
    Except VfsError (Option (VfsId Other)) := do
  let id ← fromVfsId debug parent
  let child ← lift (fs.lookup id name)
  .ok (child.map toVfsId)

/-- Only the default data stream exists on FAT; any other stream is refused. -/
def requireDefault {Stream : Type} (debugStream : Stream → String) :
    StreamId Stream → Except VfsError Unit
  | .default => .ok ()
  | .other stream => .error (.unsupported "fat stream" (debugStream stream))

/-- `FileSystem::kind`. -/
def kind (fs : FatFs) : FsKind := if fs.geom.variant = .exFat then .exfat else .fat

/-- `FileSystem::root`. -/
def root : VfsId Other := toVfsId FatFs.root

/-- `FileSystem::sector_sizes`. -/
def sectorSizes (fs : FatFs) : SectorSizes where
  logical := fs.geom.bytesPerSector
  physical := fs.geom.bytesPerSector
  clusterOrBlock := fs.geom.clusterSize

/-- `FileSystem::timestamp_zone`: local time with no recorded zone. -/
def timestampZone : TimeZonePolicy := .localUnknown

/-- The unified metadata for a resolved node. -/
def buildMeta (id : FileId) (node : Node) : FsMeta where
  ino := inoOf id
  kind := nodeKind node
  allocated := if node.isDeleted then .deleted else .allocated
  size := node.size
  nlink := 1
  times :=
    { modified := node.modified.map fun t => toTs t .twoSeconds
      accessed := node.accessed.map fun t => toTs t .seconds
      changed := none
      born := node.created.map fun t => toTs t .seconds }

/-- `FileSystem::meta`. -/
def nodeMeta (fs : FatFs) (ino : VfsId Other) : Except VfsError FsMeta := do
  let id ← fromVfsId debug ino
  let node ← lift (fs.nodeMeta id)
  .ok (buildMeta id node)

variable {Stream : Type} (debugStream : Stream → String)

/-- `FileSystem::extents`. -/
def extents (fs : FatFs) (ino : VfsId Other) (stream : StreamId Stream) :
    Except VfsError (List RunInfo) := do
  requireDefault debugStream stream
  let id ← fromVfsId debug ino
  let runs ← lift (fs.runs id)
  .ok (runs.map fun (offset, len) => { imageOffset := offset, len := len })

/-- `FileSystem::read_at`: the count read, and the buffer after it. -/
def readAt (fs : FatFs) (ino : VfsId Other) (stream : StreamId Stream) (off : ℕ)
    (buf : List UInt8) : Except VfsError (ℕ × List UInt8) := do
  requireDefault debugStream stream
  let id ← fromVfsId debug ino
  lift (fs.readAt id off buf)

/-- `FileSystem::read_link`: there are no symlinks, and a node reads as an empty target. -/
def readLink (_ino : VfsId Other) (_cap : ℕ) : Except VfsError (List UInt8) := .ok []

/-- `FileSystem::deleted`: the stream of deleted nodes is left empty. -/
def deleted : Except VfsError (List (VfsId Other)) := .ok []

/-- `FileSystem::unallocated`. -/
def unallocated : Except VfsError (List RunInfo) := .ok []

end Vfs
end FatForensic
