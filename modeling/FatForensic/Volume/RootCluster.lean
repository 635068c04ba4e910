import FatForensic.Volume.Containment
import FatForensic.Volume.Handles

/-!
# The root directory in a cluster

The root directory of a FAT32 or exFAT volume is stored in clusters.  The exFAT parser checks
that the first one is a cluster of the volume; the BPB parser takes what the boot sector says.
-/

namespace FatForensic

open PointerWalk Window

namespace FatFs

/-- The root of a FAT32 or exFAT volume is one of its clusters: its cluster list starts with it,
in the data region, and it is listed from the bytes stored there on. -/
structure RootIsCluster (fs : FatFs) : Prop where
  inHeap : fs.geom.InHeap fs.geom.rootCluster
  clusters : ∃ rest o, fs.clusters fs.geom.rootCluster 0 false = fs.geom.rootCluster :: rest ∧
    fs.geom.clusterOffset fs.geom.rootCluster = some o ∧ fs.geom.InRegion o
  readDir : ∃ tail, fs.readDir .root = .ok (fs.listNodes
    (((fs.geom.clusterOffset fs.geom.rootCluster).elim [] fun o =>
      slice fs.image o fs.geom.clusterSize) ++ tail) fs.geom.rootCluster)

variable {fs : FatFs} {img : List UInt8}

/-- The loop of `read_dir_bytes` appends to what it has. -/
lemma exists_readClusters_eq (cs : List UInt32) (out : List UInt8) :
    ∃ tail, fs.readClusters cs out = out ++ tail := by
  induction cs generalizing out with
  | nil => exact ⟨[], (List.append_nil _).symm⟩
  | cons c cs ih =>
    rw [readClusters]
    split
    · exact ⟨[], (List.append_nil _).symm⟩
    split
    · exact ⟨[], (List.append_nil _).symm⟩
    · obtain ⟨tail, htail⟩ := ih (out ++ fs.readRegionVec _ fs.geom.clusterSize)
      exact ⟨_, htail.trans (List.append_assoc _ _ _)⟩

/-- Where the root directory of a FAT32 volume starts. -/
lemma rootCluster_of_openImage (hopen : openImage img = .ok fs) (hvar : fs.geom.variant = .fat32) :
    fs.geom.rootCluster = leU32 img 44 := by
  have hlen := (openImage_ok hopen).le_length
  obtain ⟨-, hparse⟩ := parse_of_openImage hopen (by rw [hvar]; decide)
  obtain ⟨f, -, hgeom⟩ := bind_eq_ok.mp hparse
  dsimp only at hgeom
  split at hgeom
  · exact absurd hgeom (by simp)
  have hroot := Except.ok.inj hgeom
  rw [← leU32_take (show 44 + 4 ≤ 512 by norm_num) hlen]
  rw [← hroot] at hvar ⊢
  exact if_pos (beq_iff_eq.mpr hvar)

/-- A root cluster of the volume is where the root directory starts. -/
lemma rootIsCluster_of_inHeap (hopen : openImage img = .ok fs)
    (hvar : fs.geom.variant = .fat32 ∨ fs.geom.variant = .exFat)
    (hheap : fs.geom.InHeap fs.geom.rootCluster) : fs.RootIsCluster := by
  have hvalid := openImage_valid hopen
  have hoff := hvalid.clusterOffset_eq hheap.two_le
  have hcs := hvalid.clusterSize_pos
  have hmax : fs.maxClusters = fs.geom.countOfClusters + 2 := (openImage_ok hopen).maxClusters
  obtain ⟨rest, hrest⟩ : ∃ rest, fs.clusters fs.geom.rootCluster 0 false
      = fs.geom.rootCluster :: rest := by
    rw [clusters_eq_followChain hheap.two_le, followChain_eq_walk _ _ hheap.two_le, hmax, walk]
    exact ⟨_, rfl⟩
  refine ⟨hheap, ⟨rest, _, hrest, hoff, Nat.le_add_right _ _, ?_⟩, ?_⟩
  · have := hheap.mul_add_le
    omega
  · have hsource : fs.dirSource .root = .ok (.chain fs.geom.rootCluster 0 false) := by
      rw [dirSource, if_pos (by simpa [rootIsClustered] using hvar)]
    obtain ⟨tail, htail⟩ := fs.exists_readClusters_eq rest
      (slice fs.image (fs.geom.dataStart + (fs.geom.rootCluster.toNat - 2) * fs.geom.clusterSize)
        fs.geom.clusterSize)
    refine ⟨tail, ?_⟩
    have hempty : ¬ MAX_DIR_BYTES ≤ ([] : List UInt8).length := by decide
    rw [readDir, hsource, hoff, Option.elim_some, ← htail]
    simp only [bind, Except.bind, sourceMarker, readDirBytes, hrest, readClusters, if_neg hempty,
      hoff, readRegionVec_eq, List.nil_append]

/-- **When the root is a cluster of the volume**: always on exFAT, and on FAT32 exactly when the
root cluster field of the boot sector is one. -/
theorem rootIsCluster_iff (hopen : openImage img = .ok fs)
    (hvar : fs.geom.variant = .fat32 ∨ fs.geom.variant = .exFat) :
    fs.RootIsCluster ↔ fs.geom.variant = .exFat ∨
      2 ≤ (leU32 img 44).toNat ∧ (leU32 img 44).toNat ≤ fs.geom.countOfClusters + 1 := by
  constructor
  · rintro ⟨hheap, -, -⟩
    refine hvar.symm.imp_right fun hvar => ?_
    rwa [Geometry.InHeap, rootCluster_of_openImage hopen hvar] at hheap
  · intro h
    refine rootIsCluster_of_inHeap hopen hvar ?_
    rcases hvar with hvar | hvar
    · rw [Geometry.InHeap, rootCluster_of_openImage hopen hvar]
      refine h.resolve_left ?_
      rw [hvar]
      decide
    · obtain ⟨b, s, hg⟩ := Geometry.parseBoot_ok (parseBoot_of_openImage hopen hvar)
      exact ⟨hg.two_le_rootCluster, hg.rootCluster_le⟩

theorem rootIsCluster_nested : Synth.nested.reader.RootIsCluster := by
  have hnested : Synth.nested.reader.geom.variant = .fat32 ∧ (leU32 Synth.nested.image 44) = 2 ∧
      Synth.nested.reader.geom.countOfClusters = 69998 := by
    decide +kernel
  obtain ⟨hvar, hroot, hcount⟩ := hnested
  refine (rootIsCluster_iff Synth.nested.openImage_image (Or.inl hvar)).mpr (Or.inr ?_)
  rw [hroot, hcount]
  decide

/-- A FAT32 volume whose boot sector has 0 for the root cluster. -/
def rootless : Synth.Volume where
  image := Synth.bpb 1 0 70000 0 ++ Synth.table 4 [0, 0, 0x0FFFFFFF]
    ++ Synth.sectors 1 (Synth.shortEntry (Synth.name 0x41) 0x20 0 0)
  opens := by decide +kernel

/-- **A FAT32 volume may have no root cluster**: `rootless` opens, and its root lists nothing. -/
theorem not_rootIsCluster_rootless :
    rootless.reader.readDir .root = .ok [] ∧
      ¬ ∀ (img : List UInt8) (fs : FatFs), openImage img = .ok fs →
        fs.geom.variant = .fat32 ∨ fs.geom.variant = .exFat → fs.RootIsCluster := by
  have hrootless : rootless.reader.readDir .root = .ok [] ∧
      rootless.reader.geom.variant = .fat32 ∧ rootless.reader.geom.rootCluster = 0 := by
    decide +kernel
  obtain ⟨hlist, hvar, hroot⟩ := hrootless
  refine ⟨hlist, fun h => ?_⟩
  have h2 := (h _ _ rootless.openImage_image (Or.inl hvar)).inHeap.1
  rw [hroot] at h2
  exact absurd h2 (by decide)

end FatFs
end FatForensic
