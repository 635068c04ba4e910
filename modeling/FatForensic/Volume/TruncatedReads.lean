import FatForensic.Volume.FatCache
import FatForensic.Volume.Runs

/-!
# Reads from truncated images

An image that is cut off has the beginning of the cached FAT and the beginning of the clusters.
Every chain is then the beginning of what it is on the whole image, and so is what is read of a
node whose record is the same.
-/

namespace FatForensic

open Window Extent PointerWalk

variable {fat : List UInt8} {variant : FatVariant} {c d : UInt32} {n : ℕ}

/-- The beginning of a FAT has no pointers but those of the FAT. -/
lemma link_take (h : link (fat.take n) variant c = some d) : link fat variant c = some d := by
  rcases Nat.le_total fat.length n with hle | hle
  · rwa [List.take_of_length_le hle] at h
  by_cases hin : entryOffset variant c + entryLength variant ≤ n
  · rwa [link, fatEntry_take hle hin] at h
  · -- an entry that is cut off is free
    have hzero : fatEntry (fat.take n) variant c = 0 :=
      fatEntry_eq_zero (by rwa [List.length_take, Nat.min_eq_left hle])
    rw [link, hzero] at h
    exact absurd h (by simp)

namespace FatFs

variable {img : List UInt8} {fs fs' : FatFs}

/-- What a truncated image has of a volume. -/
structure Truncates (fs' fs : FatFs) : Prop where
  geom : fs'.geom = fs.geom
  maxClusters : fs'.maxClusters = fs.maxClusters
  fat : ∃ m, fs'.fat = fs.fat.take m
  image : ∃ m, fs'.image = fs.image.take m

lemma truncates_of_take (hopen : openImage img = .ok fs)
    (hopen' : openImage (img.take n) = .ok fs') : Truncates fs' fs := by
  have h := openImage_ok hopen
  have h' := openImage_ok hopen'
  have hlen := h'.le_length
  rw [List.length_take] at hlen
  have hgeom : fs'.geom = fs.geom := by
    have hparsed := h'.parsed
    rw [slice_take _ (by omega), List.take_take, Nat.min_eq_left (by omega), h.parsed] at hparsed
    exact (Except.ok.inj hparsed).symm
  refine ⟨hgeom, by rw [h'.maxClusters, h.maxClusters, hgeom], ⟨n - fs.geom.fatStart, ?_⟩, n, ?_⟩
  · rw [h'.fat, h.fat, hgeom, slice, slice, List.drop_take, List.take_take, List.take_take,
      Nat.min_comm]
  · rw [h'.image, h.image]

/-! ## Chains and extents -/

lemma Truncates.clusters (h : Truncates fs' fs) (first : UInt32) (size : UInt64)
    (contiguous : Bool) :
    fs'.clusters first size contiguous <+: fs.clusters first size contiguous := by
  obtain ⟨m, hfat⟩ := h.fat
  rw [FatFs.clusters, FatFs.clusters, h.geom, h.maxClusters, hfat]
  split
  · exact List.prefix_rfl
  next h2 =>
    split
    · exact List.prefix_rfl
    · rw [UInt32.not_lt] at h2
      rw [followChain_eq_walk _ _ h2, followChain_eq_walk _ _ h2]
      exact walk_prefix fun _ _ => link_take

lemma Truncates.byteAt (h : Truncates fs' fs) {chain chain' : List UInt32}
    (hchain : chain' <+: chain) {p : ℕ} {b : UInt8} (hb : fs'.byteAt chain' p = some b) :
    fs.byteAt chain p = some b := by
  obtain ⟨m, himage⟩ := h.image
  rw [FatFs.byteAt, Option.bind_eq_some_iff] at hb
  obtain ⟨o, ho, hbyte⟩ := hb
  rw [position, Option.bind_eq_some_iff, h.geom] at ho
  obtain ⟨c, hc, ho⟩ := ho
  rw [himage, List.getElem?_take] at hbyte
  split at hbyte
  · obtain ⟨rest, rfl⟩ := hchain
    have hlt := (List.getElem?_eq_some_iff.mp hc).1
    rw [FatFs.byteAt, position, List.getElem?_append_left hlt, hc, Option.bind_some, ho,
      Option.bind_some, hbyte]
  · exact absurd hbyte (by simp)

/-- The extent of a source on the truncated image is the beginning of what it is on the whole
one. -/
lemma Truncates.sourceExtent (h : Truncates fs' fs) (hmax : 0 < fs.maxClusters)
    (hcs : 0 < fs.geom.clusterSize) (source : DirSource) :
    (fs'.sourceExtent source).1 <+: (fs.sourceExtent source).1 ∧
      (fs'.sourceExtent source).2 ≤ (fs.sourceExtent source).2 ∧
      ((fs'.sourceExtent source).1 = [] → fs'.sourceExtent source = fs.sourceExtent source) := by
  cases source with
  | fixedRoot =>
    rw [FatFs.sourceExtent, FatFs.sourceExtent, h.geom]
    exact ⟨List.prefix_rfl, le_rfl, fun _ => rfl⟩
  | chain first size contiguous =>
    have hbegins := h.clusters first size contiguous
    rw [FatFs.sourceExtent, FatFs.sourceExtent, extentOf, extentOf, h.geom]
    refine ⟨hbegins, ?_, fun hnil => ?_⟩
    · dsimp only
      split
      · exact le_rfl
      · exact Nat.mul_le_mul_right _ hbegins.length_le
    · -- without clusters there are none on the whole image either
      by_cases h2 : first < 2
      · have hempty : fs.clusters first size contiguous = [] := if_pos h2
        rw [show fs'.clusters first size contiguous = [] from hnil, hempty]
      · exact absurd hnil
          (clusters_ne_nil (h.maxClusters ▸ hmax) h2 (by rw [h.geom]; exact hcs))

/-- The data of a node lies where its record says. -/
lemma Truncates.dataSource (h : Truncates fs' fs) {id : FileId}
    (hmeta : fs'.nodeMeta id = fs.nodeMeta id) : fs'.dataSource id = fs.dataSource id := by
  cases id with
  | root =>
    rw [FatFs.dataSource, FatFs.dataSource, dirSource, dirSource, rootIsClustered, rootIsClustered,
      h.geom]
  | entry d i =>
    have hentry : fs'.resolveEntry (.entry d i) = fs.resolveEntry (.entry d i) := hmeta
    rw [FatFs.dataSource, FatFs.dataSource, hentry]

/-! ## Runs and reads -/

/-- The runs of the beginning of a chain cover the beginning of what those of the chain cover. -/
lemma addresses_runsFrom_prefix (hvalid : fs.geom.Valid) {chain chain' : List UInt32}
    (hchain : chain' <+: chain) (h2 : ∀ c ∈ chain, 2 ≤ c) {total total' : ℕ}
    (htotal : total' ≤ total) :
    addresses (fs.runsFrom chain' total' []) <+: addresses (fs.runsFrom chain total []) := by
  have hmap := addresses_runsFrom hvalid h2 total []
  have hmap' := addresses_runsFrom hvalid (fun c hc => h2 c (hchain.subset hc)) total' []
  rw [addresses_nil, List.map_nil, List.nil_append] at hmap hmap'
  have hlen := Nat.mul_le_mul_right fs.geom.clusterSize hchain.length_le
  have hle : min total' (chain'.length * fs.geom.clusterSize)
      ≤ min total (chain.length * fs.geom.clusterSize) := by omega
  have hpositions : (List.range (min total' (chain'.length * fs.geom.clusterSize))).map
        (fs.position chain')
      = ((List.range (min total (chain.length * fs.geom.clusterSize))).map
          (fs.position chain)).take (min total' (chain'.length * fs.geom.clusterSize)) := by
    rw [← List.map_take, List.take_range, Nat.min_eq_left hle]
    refine List.map_congr_left fun p hp => ?_
    rw [List.mem_range] at hp
    obtain ⟨rest, rfl⟩ := hchain
    have hindex : p / fs.geom.clusterSize < chain'.length :=
      Nat.div_lt_of_lt_mul (by rw [Nat.mul_comm]; omega)
    rw [position, position, List.getElem?_append_left hindex]
  have hbegins : (addresses (fs.runsFrom chain' total' [])).map some
      <+: (addresses (fs.runsFrom chain total [])).map some := by
    rw [hmap, hmap', hpositions]
    exact List.take_prefix _ _
  simpa only [List.filterMap_map, Function.id_comp, List.filterMap_some] using
    hbegins.filterMap id

/-- Where clusters lie does not depend on the image. -/
lemma Truncates.runsFrom (h : Truncates fs' fs) (chain : List UInt32) (total : ℕ)
    (runs : List (ℕ × ℕ)) : fs'.runsFrom chain total runs = fs.runsFrom chain total runs := by
  induction chain generalizing total runs with
  | nil => rfl
  | cons c chain ih =>
    rw [FatFs.runsFrom, FatFs.runsFrom, h.geom]
    split
    · rfl
    · cases fs.geom.clusterOffset c with
      | none => rfl
      | some off => exact ih _ _

lemma exists_dataSource {id : FileId} {node : Node} (hmeta : fs.nodeMeta id = .ok node) :
    ∃ source, fs.dataSource id = .ok source := by
  cases id with
  | root =>
    rw [FatFs.dataSource, dirSource]
    split <;> exact ⟨_, rfl⟩
  | entry d i => exact ⟨_, bind_eq_ok.mpr ⟨node, hmeta, rfl⟩⟩

/-- **Truncated images show the beginning of what was there.**  For every node whose record reads
the same, what `runs` covers on the truncated image is the beginning of what it covers on the whole
one, and every read delivers the beginning of what it delivers there. -/
theorem truncated_reads (hopen : openImage img = .ok fs)
    (hopen' : openImage (img.take n) = .ok fs') {id : FileId} {node : Node}
    (hmeta : fs.nodeMeta id = .ok node) (hmeta' : fs'.nodeMeta id = .ok node) :
    (∃ runs runs', fs.runs id = .ok runs ∧ fs'.runs id = .ok runs' ∧
        addresses runs' <+: addresses runs) ∧
      ∀ off buf, ∃ k out k' out', fs.readAt id off buf = .ok (k, out) ∧
        fs'.readAt id off buf = .ok (k', out') ∧ out'.take k' <+: out.take k := by
  have h := truncates_of_take hopen hopen'
  have hvalid := openImage_valid hopen
  have hmax : 0 < fs.maxClusters := by
    rw [(openImage_ok hopen).maxClusters]
    omega
  obtain ⟨source, hsource⟩ := exists_dataSource hmeta
  obtain ⟨hchain, htotal, hnil⟩ := h.sourceExtent hmax hvalid.clusterSize_pos source
  have hextent : fs.dataExtent id = .ok ((fs.sourceExtent source).1, (fs.sourceExtent source).2) :=
    dataExtent_ok.mpr ⟨source, hsource, rfl⟩
  have hextent' : fs'.dataExtent id
      = .ok ((fs'.sourceExtent source).1, (fs'.sourceExtent source).2) :=
    dataExtent_ok.mpr ⟨source, (h.dataSource (hmeta'.trans hmeta.symm)).trans hsource, rfl⟩
  constructor
  · refine ⟨_, _, runs_eq hextent, runs_eq hextent', ?_⟩
    by_cases hempty : (fs'.sourceExtent source).1 = []
    · have hequal := hnil hempty
      rw [hequal] at hempty ⊢
      rw [if_pos hempty, if_pos hempty, h.geom]
    · have hempty' : (fs.sourceExtent source).1 ≠ [] := by
        intro hwhole
        rw [hwhole, List.prefix_nil] at hchain
        exact hempty hchain
      rw [if_neg hempty, if_neg hempty', h.runsFrom]
      exact addresses_runsFrom_prefix hvalid hchain
        (fun c hc => two_le_of_mem_sourceExtent hvalid.clusterSize_pos hc) htotal
  · intro off buf
    refine ⟨_, _, _, _, readAt_eq_run hopen hextent off buf, readAt_eq_run hopen' hextent' off buf,
      ?_⟩
    have hstop : min (off + buf.length) (fs'.sourceExtent source).2 - off
        ≤ min (off + buf.length) (fs.sourceExtent source).2 - off := by omega
    rw [overwrite_zero, overwrite_zero, List.take_left, List.take_left]
    exact run_prefix (fun p b => h.byteAt hchain) hstop

/-- The first 12 bytes of the file of `twoClusterFile` are left. -/
def cutFile : Synth.Volume where
  image := twoClusterFile.image.take 2060
  opens := by decide +kernel

/-- What is left of the file of `twoClusterFile`. -/
theorem truncated_reads_cutFile :
    (∃ runs runs', twoClusterFile.reader.runs (.entry 2 0) = .ok runs ∧
        cutFile.reader.runs (.entry 2 0) = .ok runs' ∧ addresses runs' <+: addresses runs) ∧
      ∀ off buf, ∃ k out k' out', twoClusterFile.reader.readAt (.entry 2 0) off buf = .ok (k, out) ∧
        cutFile.reader.readAt (.entry 2 0) off buf = .ok (k', out') ∧
        out'.take k' <+: out.take k := by
  have hmeta : twoClusterFile.reader.nodeMeta (.entry 2 0)
        = .ok ((twoClusterFile.reader.nodeMeta (.entry 2 0)).toOption.getD rootNode) ∧
      cutFile.reader.nodeMeta (.entry 2 0)
        = .ok ((twoClusterFile.reader.nodeMeta (.entry 2 0)).toOption.getD rootNode) := by
    decide +kernel
  exact truncated_reads twoClusterFile.openImage_image cutFile.openImage_image hmeta.1 hmeta.2

example : cutFile.reader.readAt (.entry 2 0) 10 [0, 0, 0] = .ok (2, [8, 8, 0]) := by decide +kernel

end FatFs
end FatForensic
