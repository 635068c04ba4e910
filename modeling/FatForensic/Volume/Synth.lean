import FatForensic.Core.Fs

/-!
# Synthetic volumes

Builders of small volumes, after the ones of the test modules: 512-byte sectors, one
reserved sector and one FAT of one sector, so that the data region of a FAT32 volume starts
at byte 1024.  The declared volume may be larger than the image, which is then truncated.
-/

namespace FatForensic
namespace Synth

open LittleEndian

/-- A byte string padded with zeros to whole sectors. -/
def sectors (n : ℕ) (bytes : List UInt8) : List UInt8 :=
  bytes ++ List.replicate (n * 512 - bytes.length) 0

/-- A boot sector with the given sectors per cluster, root entry count, total sectors and
root cluster. -/
def bpb (sectorsPerCluster rootEntries totalSectors rootCluster : ℕ) : List UInt8 :=
  List.replicate 11 0 ++ toBytes 2 512 ++ toBytes 1 sectorsPerCluster ++ toBytes 2 1
    ++ toBytes 1 1 ++ toBytes 2 rootEntries ++ List.replicate 13 0 ++ toBytes 4 totalSectors
    ++ toBytes 4 1 ++ List.replicate 4 0 ++ toBytes 4 rootCluster ++ List.replicate 462 0
    ++ [0x55, 0xAA]

/-- An exFAT boot sector: one FAT at sector 1, the cluster heap at sector 2, clusters of one
sector, and the root in cluster 2. -/
def exfatBoot (countOfClusters : ℕ) : List UInt8 :=
  List.replicate 3 0 ++ Exfat.SIGNATURE ++ List.replicate 61 0 ++ toBytes 8 (countOfClusters + 2)
    ++ toBytes 4 1 ++ toBytes 4 1 ++ toBytes 4 2 ++ toBytes 4 countOfClusters ++ toBytes 4 2
    ++ List.replicate 8 0 ++ [9, 0, 1] ++ List.replicate 399 0 ++ [0x55, 0xAA]

/-- A FAT of one sector with entries of `width` bytes. -/
def table (width : ℕ) (entries : List ℕ) : List UInt8 :=
  sectors 1 (entries.flatMap (toBytes width))

/-- A short entry (`short_entry` of the tests): 11-byte name, attributes, cluster, size. -/
def shortEntry (name : List UInt8) (attr : UInt8) (cluster size : ℕ) : List UInt8 :=
  name ++ [attr] ++ List.replicate 8 0 ++ toBytes 2 (cluster / 2 ^ 16) ++ List.replicate 4 0
    ++ toBytes 2 cluster ++ toBytes 4 size

/-- An 11-byte name that repeats one letter. -/
def name (b : UInt8) : List UInt8 := List.replicate 11 b

/-- An image that opens. -/
structure Volume where
  image : List UInt8
  opens : (FatFs.openImage image).toOption.isSome = true

namespace Volume

/-- The reader of a volume. -/
def reader (v : Volume) : FatFs := (FatFs.openImage v.image).toOption.getD default

lemma openImage_image (v : Volume) : FatFs.openImage v.image = .ok v.reader := by
  have hopens := v.opens
  unfold reader
  cases hopen : FatFs.openImage v.image with
  | error e =>
    rw [hopen] at hopens
    exact absurd hopens (by simp [Except.toOption])
  | ok fs => rfl

/-- The nodes that a listing of a volume returns. -/
def listing (v : Volume) (id : FileId) : List Node := (v.reader.readDir id).toOption.getD []

end Volume

/-- A FAT32 volume whose root lists a file, a deleted file and a directory in cluster 3, which
lists a file and an entry back to the root's cluster. -/
def nested : Volume where
  image := bpb 1 0 70000 2 ++ table 4 [0, 0, 0x0FFFFFFF, 0x0FFFFFFF]
    ++ sectors 1 (shortEntry (name 0x41) 0x20 0 0 ++ shortEntry (name 0xE5) 0x20 4 7
      ++ shortEntry (name 0x42) 0x10 3 0)
    ++ sectors 1 (shortEntry (name 0x43) 0x20 0 0 ++ shortEntry (name 0x44) 0x10 2 0)
  opens := by decide +kernel

/-- A FAT32 volume whose root lists a deleted file and a directory in cluster 3, which lists a
file and a deleted directory. -/
def pruned : Volume where
  image := bpb 1 0 70000 2 ++ table 4 [0, 0, 0x0FFFFFFF, 0x0FFFFFFF]
    ++ sectors 1 (shortEntry (name 0xE5) 0x20 4 7
      ++ shortEntry (name 0x42) 0x10 3 0)
    ++ sectors 1 (shortEntry (name 0x43) 0x20 0 0
      ++ shortEntry (0xE5 :: List.replicate 10 0x20) 0x10 5 0)
  opens := by decide +kernel

end Synth
end FatForensic
