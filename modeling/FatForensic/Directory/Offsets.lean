import FatForensic.Directory.Scan
import FatForensic.Volume.ReadAt

/-!
# Where the slots of a directory lie in the image

The bytes of a directory are image bytes, one cluster after the other.  Its deleted entries
are told apart by the image offset at which their slot starts.
-/

namespace FatForensic
namespace FatFs

open Window

variable (fs : FatFs)

/-- The image offsets of the bytes that `readClusters` collects. -/
def clusterOffsets : List UInt32 → List ℕ → List ℕ
  | [], out => out
  | cluster :: rest, out =>
    if MAX_DIR_BYTES ≤ out.length then out
    else match fs.geom.clusterOffset cluster with
      | none => out
      | some base => clusterOffsets rest
          (out ++ List.range' base (min fs.geom.clusterSize (fs.image.length - base)))

/-- The image offsets of the bytes of a directory. -/
def dirOffsets : DirSource → List ℕ
  | .fixedRoot =>
    List.range' fs.geom.rootDirStart
      (min fs.geom.rootDirBytes (fs.image.length - fs.geom.rootDirStart))
  | .chain firstCluster size contiguous =>
    fs.clusterOffsets (fs.clusters firstCluster size contiguous) []

variable {fs}

/-- The number of bytes of a cluster that the image holds. -/
def heldBytes (fs : FatFs) (c : UInt32) : ℕ :=
  (fs.geom.clusterOffset c).elim 0 fun base => min fs.geom.clusterSize (fs.image.length - base)

lemma heldBytes_eq {c : UInt32} {base : ℕ} (h : fs.geom.clusterOffset c = some base) :
    fs.heldBytes c = min fs.geom.clusterSize (fs.image.length - base) := by
  rw [heldBytes, h, Option.elim_some]

lemma clusterOffsets_cap {cs : List UInt32} {out : List ℕ} (h : MAX_DIR_BYTES ≤ out.length) :
    fs.clusterOffsets cs out = out := by
  cases cs with
  | nil => rfl
  | cons c cs => rw [clusterOffsets, if_pos h]

lemma clusterOffsets_cons {c : UInt32} {base : ℕ} (hbase : fs.geom.clusterOffset c = some base)
    (cs : List UInt32) {out : List ℕ} (h : ¬ MAX_DIR_BYTES ≤ out.length) :
    fs.clusterOffsets (c :: cs) out
      = fs.clusterOffsets cs (out ++ List.range' base (fs.heldBytes c)) := by
  rw [clusterOffsets, if_neg h, hbase, heldBytes_eq hbase]

lemma forall₂_readClusters (cs : List UInt32) {bytes : List UInt8} {offsets : List ℕ}
    (h : List.Forall₂ (fun b o => fs.image[o]? = some b) bytes offsets) :
    List.Forall₂ (fun b o => fs.image[o]? = some b) (fs.readClusters cs bytes)
      (fs.clusterOffsets cs offsets) := by
  induction cs generalizing bytes offsets with
  | nil => exact h
  | cons c cs ih =>
    rw [readClusters, clusterOffsets, h.length_eq]
    split
    · exact h
    · cases fs.geom.clusterOffset c with
      | none => exact h
      | some base =>
        apply ih
        rw [readRegionVec_eq]
        exact List.rel_append h (forall₂_slice _ _ _)

/-- **The bytes of a directory are the image bytes at its offsets.** -/
lemma forall₂_readDirBytes (source : DirSource) :
    List.Forall₂ (fun b o => fs.image[o]? = some b) (fs.readDirBytes source)
      (fs.dirOffsets source) := by
  cases source with
  | fixedRoot =>
    rw [readDirBytes, readRegionVec_eq]
    exact forall₂_slice _ _ _
  | chain first size contiguous => exact forall₂_readClusters _ List.Forall₂.nil

/-- A byte of a directory is the image byte at its offset. -/
lemma getElem?_readDirBytes (fs : FatFs) (source : DirSource) (p : ℕ) :
    (fs.readDirBytes source)[p]? = (fs.dirOffsets source)[p]?.bind fun o => fs.image[o]? := by
  have hall : List.Forall₂ (fun b o => fs.image[o]? = some b) (fs.readDirBytes source)
      (fs.dirOffsets source) := forall₂_readDirBytes source
  by_cases hp : p < (fs.readDirBytes source).length
  · have hp' : p < (fs.dirOffsets source).length := hall.length_eq ▸ hp
    rw [List.getElem?_eq_getElem hp, List.getElem?_eq_getElem hp', Option.bind_some]
    exact ((List.forall₂_iff_get.mp hall).2 p hp hp').symm
  · rw [List.getElem?_eq_none (Nat.le_of_not_lt hp),
      List.getElem?_eq_none (hall.length_eq ▸ Nat.le_of_not_lt hp), Option.bind_none]

end FatFs
end FatForensic
