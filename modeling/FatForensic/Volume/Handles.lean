import FatForensic.Directory.Slots
import FatForensic.Volume.FatEntry
import FatForensic.Volume.ReadAt

/-!
# Handles resolve to the nodes they were listed with

`read_dir` reads a directory from its node; resolving a child's handle reads it again from
its first cluster alone.  On FAT volumes the two reads agree: a directory carries no size
there, and the one first cluster that doubles as the marker of the fixed root lies at the
end of every declared volume.
-/

namespace FatForensic
namespace FatFs

open Window

variable {fs : FatFs}

/-- The directory handles got from the root by repeatedly taking the ids of directory nodes
that a listing returns. -/
inductive Reachable (fs : FatFs) : FileId → Prop where
  | root : Reachable fs .root
  | step {d : FileId} {nodes : List Node} {n : Node} :
    Reachable fs d → fs.readDir d = .ok nodes → n ∈ nodes → n.isDir → Reachable fs n.id

lemma readDir_ok {id : FileId} {nodes : List Node} :
    fs.readDir id = .ok nodes ↔ ∃ source, fs.dirSource id = .ok source ∧
      fs.listNodes (fs.readDirBytes source) (sourceMarker source) = nodes := by
  rw [readDir, bind_eq_ok]
  simp only [Except.ok.injEq]

lemma resolveEntry_ok {d : UInt32} {i : UInt16} {n : Node} :
    fs.resolveEntry (.entry d i) = .ok n ↔
      (fs.listNodes (fs.readDirBytes (parentSource d)) d).find? (hasIndex i) = some n := by
  rw [resolveEntry]
  cases (fs.listNodes (fs.readDirBytes (parentSource d)) d).find? (hasIndex i) <;> simp

/-- A directory other than the root is the extent of the node its handle resolves to. -/
lemma dirSource_entry_ok {d : UInt32} {i : UInt16} {source : DirSource} :
    fs.dirSource (.entry d i) = .ok source ↔
      ∃ n, fs.resolveEntry (.entry d i) = .ok n ∧ n.isDir = true ∧
        source = .chain n.firstCluster n.size n.contiguous := by
  rw [dirSource, bind_eq_ok]
  constructor
  · rintro ⟨n, hn, h⟩
    by_cases hdir : n.isDir = true
    · rw [if_neg (by simpa using hdir), Except.ok.injEq] at h
      exact ⟨n, hn, hdir, h.symm⟩
    · rw [if_pos (by simpa using hdir)] at h
      exact absurd h (by simp)
  · rintro ⟨n, hn, hdir, rfl⟩
    exact ⟨n, hn, by rw [if_neg (by simpa using hdir)]⟩

/-! ## FAT directories are chains -/

lemma contiguous_of_mem_listNodes (hvar : fs.geom.variant ≠ .exFat) {bytes : List UInt8}
    {marker : UInt32} {n : Node} (h : n ∈ fs.listNodes bytes marker) : n.contiguous = false := by
  rw [listNodes, if_neg hvar] at h
  obtain ⟨e, -, rfl⟩ := List.mem_map.mp h
  rfl

/-- No entry of a FAT volume is contiguous. -/
lemma contiguous_of_resolveEntry (hvar : fs.geom.variant ≠ .exFat) {d : UInt32} {i : UInt16}
    {n : Node} (h : fs.resolveEntry (.entry d i) = .ok n) : n.contiguous = false :=
  contiguous_of_mem_listNodes hvar (List.mem_of_find?_eq_some (resolveEntry_ok.mp h))

/-- Without the contiguous flag or without a size the chain is followed. -/
lemma clusters_of_not_contiguous (first : UInt32) {size : UInt64} {contiguous : Bool}
    (h : ¬ (contiguous ∧ size > 0)) :
    fs.clusters first size contiguous = fs.clusters first 0 false := by
  have h0 : ¬ (false = true ∧ (0 : UInt64) > 0) := by simp
  rw [clusters, clusters, if_neg h, if_neg h0]

/-- The size of a chain has no part in where it lies. -/
lemma clusters_chain (first : UInt32) (size size' : UInt64) :
    fs.clusters first size false = fs.clusters first size' false := by
  have hchain : ∀ size : UInt64, fs.clusters first size false = fs.clusters first 0 false :=
    fun size => clusters_of_not_contiguous first (by simp)
  rw [hchain size, hchain size']

/-- The cluster list of a usable first cluster is its FAT chain. -/
lemma clusters_eq_followChain {first : UInt32} (h : 2 ≤ first) (size : UInt64) :
    fs.clusters first size false
      = followChain fs.fat fs.geom.variant first fs.maxClusters := by
  have hlt : ¬ first < 2 := by simpa using h
  simp only [clusters, if_neg hlt, Bool.false_eq_true, false_and, if_false]

/-- A FAT directory is the fixed root or a whole FAT chain. -/
lemma dirSource_fat (hvar : fs.geom.variant ≠ .exFat) {id : FileId} {source : DirSource}
    (h : fs.dirSource id = .ok source) :
    source = .fixedRoot ∨ ∃ first size, source = .chain first size false := by
  cases id with
  | root =>
    rw [dirSource] at h
    split at h <;> rw [Except.ok.injEq] at h
    · exact Or.inr ⟨_, _, h.symm⟩
    · exact Or.inl h.symm
  | entry d i =>
    obtain ⟨n, hn, -, rfl⟩ := dirSource_entry_ok.mp h
    rw [contiguous_of_resolveEntry hvar hn]
    exact Or.inr ⟨_, _, rfl⟩

/-! ## The cluster that doubles as a marker -/

lemma length_fat_le {img : List UInt8} (hopen : openImage img = .ok fs) :
    fs.fat.length ≤ MAX_FAT_BYTES := by
  rw [(openImage_ok hopen).fat, length_slice]
  omega

/-- The entry of cluster `0xFFFFFFFF` lies past every FAT that is cached. -/
lemma fatEntry_FIXED_ROOT {fat : List UInt8} (hlen : fat.length ≤ MAX_FAT_BYTES)
    (variant : FatVariant) : fatEntry fat variant FIXED_ROOT = 0 := by
  by_contra hne
  have hin := entryBits_mul_le_of_fatEntry_ne_zero hne
  have hbits : 12 ≤ entryBits variant := by cases variant <;> decide
  have hnum : FIXED_ROOT.toNat + 1 = 2 ^ 32 := by decide
  have hmul := Nat.mul_le_mul_right (2 ^ 32) hbits
  rw [hnum] at hin
  rw [MAX_FAT_BYTES] at hlen
  omega

/-- Its chain is the cluster alone. -/
lemma clusters_FIXED_ROOT {img : List UInt8} (hopen : openImage img = .ok fs) (size : UInt64) :
    fs.clusters FIXED_ROOT size false = [FIXED_ROOT] := by
  have hmax := (openImage_ok hopen).maxClusters
  have hge : ¬ FIXED_ROOT < 2 := by decide
  rw [clusters_eq_followChain (by decide), followChain, hmax, followChainFrom, if_neg hge]
  dsimp only
  rw [fatEntry_FIXED_ROOT (length_fat_le hopen), if_pos (Or.inl (by decide))]

/-- **Cluster `0xFFFFFFFF` lies at or past the end of every declared FAT volume.** -/
lemma declared_le_clusterOffset_FIXED_ROOT {img : List UInt8} (hopen : openImage img = .ok fs)
    (hvar : fs.geom.variant ≠ .exFat) :
    ∃ o, fs.geom.clusterOffset FIXED_ROOT = some o ∧
      fs.geom.totalSectors * fs.geom.bytesPerSector ≤ o := by
  obtain ⟨f, hg⟩ := Geometry.parse_ok (parse_of_openImage hopen hvar).2
  have hf := hg.checked
  refine ⟨_, (openImage_valid hopen).clusterOffset_eq (by decide), ?_⟩
  have hFR : FIXED_ROOT.toNat - 2 = 2 ^ 32 - 3 := by decide
  have hmeta : 2 ≤ Geometry.metaSectors f := by
    have hfats : 1 ≤ f.numFats * f.fatSizeSectors :=
      Nat.mul_pos hf.numFats_pos hf.fatSizeSectors_pos
    have hres := hf.reservedSectors_pos
    unfold Geometry.metaSectors
    omega
  have htotal := hf.totalSectors_lt
  rw [hg.totalSectors, hg.bytesPerSector, hg.dataStart, hg.clusterSize, hFR]
  calc f.totalSectors * f.bytesPerSector ≤ (2 ^ 32 - 1) * f.bytesPerSector :=
        Nat.mul_le_mul_right _ (by omega)
    _ = 2 * f.bytesPerSector + (2 ^ 32 - 3) * f.bytesPerSector := by omega
    _ ≤ Geometry.metaSectors f * f.bytesPerSector
          + (2 ^ 32 - 3) * (f.bytesPerSector * f.sectorsPerCluster) := by
        refine Nat.add_le_add (Nat.mul_le_mul_right _ hmeta) (Nat.mul_le_mul_left _ ?_)
        exact Nat.le_mul_of_pos_right _ hf.sectorsPerCluster_pos

/-- A directory stored at that cluster has no bytes in an image of the declared size. -/
lemma readDirBytes_FIXED_ROOT {img : List UInt8} (hopen : openImage img = .ok fs)
    (hvar : fs.geom.variant ≠ .exFat)
    (hlen : img.length ≤ fs.geom.totalSectors * fs.geom.bytesPerSector) (size : UInt64) :
    fs.readDirBytes (.chain FIXED_ROOT size false) = [] := by
  obtain ⟨o, ho, hle⟩ := declared_le_clusterOffset_FIXED_ROOT hopen hvar
  have himg := (openImage_ok hopen).image
  rw [readDirBytes, clusters_FIXED_ROOT hopen, readClusters, if_neg (by decide), ho]
  dsimp only
  rw [readClusters, readRegionVec_eq, slice_eq_nil_of_le _ (by rw [himg]; omega), List.nil_append]

/-! ## Stability of handles -/

/-- On a FAT volume the parent that a handle names holds the bytes its listing was read from,
or there was nothing to list. -/
lemma readDirBytes_parentSource {img : List UInt8} (hopen : openImage img = .ok fs)
    (hvar : fs.geom.variant ≠ .exFat)
    (hlen : img.length ≤ fs.geom.totalSectors * fs.geom.bytesPerSector) {id : FileId}
    {source : DirSource} (h : fs.dirSource id = .ok source) :
    fs.readDirBytes source = [] ∨
      fs.readDirBytes (parentSource (sourceMarker source)) = fs.readDirBytes source := by
  rcases dirSource_fat hvar h with rfl | ⟨first, size, rfl⟩
  · exact Or.inr rfl
  · by_cases hfirst : first = FIXED_ROOT
    · subst hfirst
      exact Or.inl (readDirBytes_FIXED_ROOT hopen hvar hlen size)
    · right
      have hclusters : fs.clusters first size false = fs.clusters first 0 false :=
        clusters_of_not_contiguous first (by simp)
      rw [sourceMarker, parentSource, if_neg hfirst, readDirBytes, readDirBytes, hclusters]

/-- The id of a listed node is resolved to the node. -/
lemma nodeMeta_of_mem_readDir {img : List UInt8} (hopen : openImage img = .ok fs)
    (hvar : fs.geom.variant ≠ .exFat)
    (hlen : img.length ≤ fs.geom.totalSectors * fs.geom.bytesPerSector) {dir : FileId}
    {source : DirSource} (hsource : fs.dirSource dir = .ok source)
    (hslots : (fs.readDirBytes source).length / 32 ≤ 65536) {nodes : List Node}
    (hnodes : fs.readDir dir = .ok nodes) {n : Node} (hn : n ∈ nodes) :
    fs.nodeMeta n.id = .ok n := by
  obtain ⟨source', hsource', rfl⟩ := readDir_ok.mp hnodes
  obtain rfl : source' = source := by
    rw [hsource, Except.ok.injEq] at hsource'
    exact hsource'.symm
  obtain ⟨i, hid⟩ := exists_index_of_mem_listNodes hn
  rw [hid, nodeMeta, resolveEntry_ok]
  rcases readDirBytes_parentSource hopen hvar hlen hsource with hnil | heq
  · rw [hnil, listNodes_nil] at hn
    exact absurd hn (by simp)
  · rw [heq]
    exact find?_hasIndex_listNodes hslots hn hid

/-- **Handle stability on FAT12/16/32.**  In an image no longer than its declared volume, the
nodes that `read_dir` lists for a handle (reachable from the root or not) whose directory has
at most 65536 slots have pairwise distinct ids, and `meta` returns each of them again. -/
theorem handles_stable {img : List UInt8} (hopen : openImage img = .ok fs)
    (hvar : fs.geom.variant ≠ .exFat)
    (hlen : img.length ≤ fs.geom.totalSectors * fs.geom.bytesPerSector) {dir : FileId}
    {source : DirSource} (hsource : fs.dirSource dir = .ok source)
    (hslots : (fs.readDirBytes source).length / 32 ≤ 65536) {nodes : List Node}
    (hnodes : fs.readDir dir = .ok nodes) :
    (nodes.map Node.id).Nodup ∧ ∀ n ∈ nodes, fs.nodeMeta n.id = .ok n := by
  refine ⟨?_, fun n hn => nodeMeta_of_mem_readDir hopen hvar hlen hsource hslots hnodes hn⟩
  obtain ⟨source', hsource', rfl⟩ := readDir_ok.mp hnodes
  obtain rfl : source' = source := by
    rw [hsource, Except.ok.injEq] at hsource'
    exact hsource'.symm
  exact nodup_id_listNodes hslots _

/-- The subdirectory of a nested volume. -/
theorem handles_stable_nested :
    ((Synth.nested.listing (.entry 2 2)).map Node.id).Nodup ∧
      ∀ n ∈ Synth.nested.listing (.entry 2 2), Synth.nested.reader.nodeMeta n.id = .ok n := by
  have hsource : Synth.nested.reader.dirSource (.entry 2 2) = .ok (.chain 3 0 false) := by
    decide +kernel
  have hnodes : Synth.nested.reader.readDir (.entry 2 2)
      = .ok (Synth.nested.listing (.entry 2 2)) := by
    decide +kernel
  exact handles_stable Synth.nested.openImage_image (by decide +kernel) (by decide +kernel) hsource
    (by decide +kernel) hnodes

end FatFs
end FatForensic
