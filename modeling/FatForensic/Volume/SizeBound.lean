import FatForensic.Volume.Handles
import FatForensic.Volume.Runs

/-!
# When the size of a file bounds its content

A size of zero stands for the whole chain, since FAT directories have none.  A file of size
zero is read by the same rule, so its size bounds its content only when it has no cluster.
-/

namespace FatForensic
namespace FatFs

open Extent PointerWalk Window

variable {fs : FatFs} {img : List UInt8}

/-- What `read_at` delivers and what `runs` lists of `id` lies within the size of its metadata. -/
def SizeBounds (fs : FatFs) (id : FileId) : Prop :=
  ∀ node, fs.nodeMeta id = .ok node →
    (∀ off buf n out, fs.readAt id off buf = .ok (n, out) → 0 < n → off + n ≤ node.size.toNat) ∧
    ∀ runs, fs.runs id = .ok runs → (runs.map Prod.snd).sum ≤ node.size.toNat

/-! ## The length of an extent -/

lemma readAt_le_total (hopen : openImage img = .ok fs) {id : FileId} {chain : List UInt32}
    {total : ℕ} (h : fs.dataExtent id = .ok (chain, total)) {off n : ℕ} {buf out : List UInt8}
    (hread : fs.readAt id off buf = .ok (n, out)) (hn : 0 < n) : off + n ≤ total := by
  rw [readAt_eq_run hopen h, Except.ok.injEq, Prod.mk.injEq] at hread
  have hle : (run (fs.byteAt chain) off (min (off + buf.length) total - off)).length
      ≤ min (off + buf.length) total - off := length_run_le _ _
  omega

/-- The runs of a chain hold the bytes that its clusters have room for, up to the total. -/
lemma sum_runsFrom (hvalid : fs.geom.Valid) {chain : List UInt32} (hchain : ∀ c ∈ chain, 2 ≤ c)
    (total : ℕ) : ((fs.runsFrom chain total []).map Prod.snd).sum
      = min total (chain.length * fs.geom.clusterSize) := by
  have hlen := congrArg List.length (addresses_runsFrom hvalid hchain total [])
  rw [← length_addresses]
  simpa using hlen

lemma sum_runs_le (hopen : openImage img = .ok fs) {id : FileId} {chain : List UInt32} {total : ℕ}
    (hchain : ∀ c ∈ chain, 2 ≤ c)
    (h : fs.dataExtent id = .ok (chain, total)) {runs : List (ℕ × ℕ)}
    (hruns : fs.runs id = .ok runs) : (runs.map Prod.snd).sum ≤ total := by
  rw [runs_eq h, Except.ok.injEq] at hruns
  subst hruns
  split
  · split <;> simp
  · rw [sum_runsFrom (openImage_valid hopen) hchain]
    exact Nat.min_le_left _ _

/-- What is read and listed of an extent of usable clusters lies within its total. -/
lemma within_total (hopen : openImage img = .ok fs) {id : FileId} {chain : List UInt32}
    {total : ℕ} (hchain : ∀ c ∈ chain, 2 ≤ c) (h : fs.dataExtent id = .ok (chain, total)) :
    (∀ off buf n out, fs.readAt id off buf = .ok (n, out) → 0 < n → off + n ≤ total) ∧
      ∀ runs, fs.runs id = .ok runs → (runs.map Prod.snd).sum ≤ total :=
  ⟨fun _ _ _ _ hread hn => readAt_le_total hopen h hread hn,
    fun _ hruns => sum_runs_le hopen hchain h hruns⟩

/-- **When the size of a file bounds reads**: exactly when its size is not zero, or it has no
cluster. -/
theorem sizeBounds_iff (hopen : openImage img = .ok fs) {dir : FileId} {nodes : List Node}
    (hdir : fs.readDir dir = .ok nodes) {n : Node} (hn : n ∈ nodes) :
    fs.SizeBounds n.id ↔
      ∀ node, fs.nodeMeta n.id = .ok node → node.size ≠ 0 ∨ node.firstCluster < 2 := by
  have hvalid := openImage_valid hopen
  obtain ⟨source, -, rfl⟩ := readDir_ok.mp hdir
  obtain ⟨i, hid⟩ := exists_index_of_mem_listNodes hn
  rw [hid, SizeBounds]
  refine forall₂_congr fun node hnode => ?_
  have hextent : fs.dataExtent (.entry (sourceMarker source) i)
      = .ok (fs.extentOf node.firstCluster node.size node.contiguous) :=
    dataExtent_entry_ok.mpr ⟨node, hnode, rfl⟩
  have hchain : ∀ c ∈ fs.clusters node.firstCluster node.size node.contiguous, 2 ≤ c :=
    two_le_of_dataExtent hvalid.clusterSize_pos hextent
  rw [extentOf] at hextent
  by_cases hsize : node.size = 0
  swap
  · -- the total is the size
    rw [if_pos (UInt64.pos_iff_ne_zero.mpr hsize)] at hextent
    exact iff_of_true (within_total hopen hchain hextent) (Or.inl hsize)
  rw [hsize] at hextent hchain ⊢
  rw [if_neg (by simp)] at hextent
  by_cases h2 : node.firstCluster < 2
  · -- there is no cluster, and the total is zero
    have hnil : fs.clusters node.firstCluster 0 node.contiguous = [] := by
      rw [clusters, if_pos h2]
    rw [hnil, List.length_nil, Nat.zero_mul] at hextent
    exact iff_of_true (within_total hopen (by simp) hextent) (Or.inr h2)
  · -- the runs list the whole chain
    have hmax : 0 < fs.maxClusters := by
      rw [(openImage_ok hopen).maxClusters]
      omega
    have hne : fs.clusters node.firstCluster 0 node.contiguous ≠ [] :=
      clusters_ne_nil hmax h2 hvalid.clusterSize_pos
    have hpos :
        0 < (fs.clusters node.firstCluster 0 node.contiguous).length * fs.geom.clusterSize :=
      Nat.mul_pos (List.length_pos_iff.mpr hne) hvalid.clusterSize_pos
    refine iff_of_false (fun hbounds => ?_) (by simp [h2])
    have hsum := hbounds.2 _ (runs_eq hextent)
    rw [if_neg hne, sum_runsFrom hvalid hchain, Nat.min_self] at hsum
    exact absurd hsum (Nat.not_le.mpr hpos)

/-- A FAT12 volume whose root lists a file of size 0 with cluster 2, and one of size 5 with
cluster 3. -/
def sizeless : Synth.Volume where
  image := Synth.bpb 1 16 5 0 ++ Synth.table 1 [0xF8, 0xFF, 0xFF, 0xFF, 0xFF, 0xFF]
    ++ Synth.sectors 1 (Synth.shortEntry (Synth.name 0x41) 0x20 2 0
      ++ Synth.shortEntry (Synth.name 0x42) 0x20 3 5)
    ++ List.replicate 512 7 ++ List.replicate 512 8
  opens := by decide +kernel

lemma listing_sizeless :
    sizeless.reader.readDir .root = .ok (sizeless.listing .root) ∧
      ((sizeless.listing .root).map fun n => (n.id, n.isDir))
        = [(.entry FIXED_ROOT 0, false), (.entry FIXED_ROOT 1, false)] := by
  decide +kernel

/-- The content of the second file of `sizeless` lies within its size. -/
theorem sizeBounds_sizeless : sizeless.reader.SizeBounds (.entry FIXED_ROOT 1) := by
  obtain ⟨hdir, hids⟩ := listing_sizeless
  have hmem : (FileId.entry FIXED_ROOT 1, false)
      ∈ (sizeless.listing .root).map fun n => (n.id, n.isDir) := by
    rw [hids]
    decide
  obtain ⟨n, hn, hid⟩ := List.mem_map.mp hmem
  rw [Prod.mk.injEq] at hid
  rw [← hid.1]
  refine (sizeBounds_iff sizeless.openImage_image hdir hn).mpr fun node hnode => Or.inl ?_
  rw [hid.1] at hnode
  have hsize : (sizeless.reader.nodeMeta (.entry FIXED_ROOT 1)).map Node.size = .ok 5 := by
    decide +kernel
  obtain ⟨node', hnode', hsize⟩ := map_eq_ok.mp hsize
  rw [hnode, Except.ok.injEq] at hnode'
  rw [hnode', hsize]
  decide

/-- **An empty file can have content**: the first file of `sizeless` has size 0, and a read of it
delivers four bytes. -/
theorem not_sizeBounds_sizeless :
    ¬ ∀ (img : List UInt8) (fs : FatFs), openImage img = .ok fs → ∀ dir nodes,
      fs.readDir dir = .ok nodes → ∀ n ∈ nodes, n.isDir = false → fs.SizeBounds n.id := by
  intro h
  obtain ⟨hdir, hids⟩ := listing_sizeless
  have hmem : (FileId.entry FIXED_ROOT 0, false)
      ∈ (sizeless.listing .root).map fun n => (n.id, n.isDir) := by
    rw [hids]
    decide
  obtain ⟨n, hn, hid⟩ := List.mem_map.mp hmem
  rw [Prod.mk.injEq] at hid
  have hbounds := h _ _ sizeless.openImage_image _ _ hdir n hn hid.2
  rw [hid.1] at hbounds
  have hread : (sizeless.reader.nodeMeta (.entry FIXED_ROOT 0)).map Node.size = .ok 0 ∧
      sizeless.reader.readAt (.entry FIXED_ROOT 0) 0 [0, 0, 0, 0] = .ok (4, [7, 7, 7, 7]) := by
    decide +kernel
  obtain ⟨hsize, hread⟩ := hread
  obtain ⟨node, hmeta, hsize⟩ := map_eq_ok.mp hsize
  have hle := (hbounds node hmeta).1 _ _ _ _ hread (by norm_num)
  rw [hsize] at hle
  exact absurd hle (by decide)

end FatFs
end FatForensic
