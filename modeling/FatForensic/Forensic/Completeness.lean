import FatForensic.Forensic.Walk
import FatForensic.Volume.Handles

/-!
# What the walk for deleted entries misses

A directory that the walk meets first at the recursion cap counts as seen and is never
read, also when a shorter path leads to it.  The deleted entries on short paths are all
reported exactly when those behind such directories are listed elsewhere too.
-/

namespace FatForensic
namespace Audit

open DepthSearch Window

variable {fs : FatFs}

/-- All deleted nodes on live paths shorter than the cap are reported. -/
def ReportsAll (fs : FatFs) (out : List Anomaly) : Prop :=
  ∀ path stop, LivePath fs .root path stop → path.length < MAX_DEPTH →
    ∀ nodes, fs.readDir stop = .ok nodes → ∀ n ∈ nodes, n.isDeleted → deletedFinding n ∈ out

/-- A directory whose first cluster ends a first path of as many steps as the cap, or whose
handle lists other nodes than the directory where its first cluster is met first. -/
def IsCutOff (fs : FatFs) (n : Node) : Prop :=
  ∃ p ∈ firstPaths (walkItems fs) MAX_DEPTH FatFs.root, key p = some n.firstCluster ∧
    (p.length = MAX_DEPTH ∨ nodesOf fs (target FatFs.root p) ≠ nodesOf fs n.id)

/-- Every deleted name behind a directory that is cut off is listed as deleted at the end of
a first path below the cap too. -/
def NothingLost (fs : FatFs) : Prop :=
  ∀ path stop, LivePath fs .root path stop → path.length < MAX_DEPTH →
    (∃ n ∈ path, IsCutOff fs n) →
    ∀ nodes, fs.readDir stop = .ok nodes → ∀ n ∈ nodes, n.isDeleted →
      ∃ dir ∈ firstDirs fs, ∃ m ∈ nodesOf fs dir, m.isDeleted ∧ m.name = n.name

lemma descend_mem_walkItems {dir : FileId} {n : Node} (hn : n ∈ nodesOf fs dir)
    (he : isEntered n) : .descend n.firstCluster n.id ∈ walkItems fs dir := by
  have hr : ¬ isReported n = true := by
    intro hr
    simp only [isReported, isEntered, decide_eq_true_eq] at hr he
    exact he.2.2.1 hr.2.2
  rw [walkItems, List.mem_filterMap]
  exact ⟨n, hn, by rw [nodeItem, if_neg hr, if_pos he]⟩

/-- A live path that goes through no directory that is cut off ends at a directory that lists
what some expanded directory lists. -/
lemma exists_firstDir_of_livePath {d stop : FileId} {path : List Node}
    (hpath : LivePath fs d path stop) (hcut : ∀ n ∈ path, ¬ IsCutOff fs n)
    (hd : ∃ dir ∈ firstDirs fs, nodesOf fs dir = nodesOf fs d) :
    ∃ dir ∈ firstDirs fs, nodesOf fs dir = nodesOf fs stop := by
  induction hpath with
  | nil d => exact hd
  | @cons d stop nodes path n hread hn he hrest ih =>
    apply ih fun m hm => hcut m (List.mem_cons_of_mem _ hm)
    obtain ⟨dir, hdir, heq⟩ := hd
    obtain ⟨q, hq, rfl⟩ := List.mem_map.mp hdir
    obtain ⟨hq, hlt⟩ := List.mem_filter.mp hq
    have hitem : .descend n.firstCluster n.id ∈ walkItems fs (target FatFs.root q) := by
      apply descend_mem_walkItems _ he
      rw [heq, nodesOf_eq hread]
      exact hn
    -- the first cluster of `n` is met at the latest where `q` lists it
    obtain ⟨p, hp, hkey⟩ := exists_firstPath hq (by simpa using hlt) hitem
    have hle := length_le_of_mem_paths (mem_paths_of_mem_firstPaths hp)
    have hnot := hcut n List.mem_cons_self
    have hne : p.length ≠ MAX_DEPTH := fun h => hnot ⟨p, hp, hkey, Or.inl h⟩
    refine ⟨target FatFs.root p, List.mem_map.mpr ⟨p, List.mem_filter.mpr ⟨hp, ?_⟩, rfl⟩, ?_⟩
    · simp only [decide_eq_true_eq]
      omega
    · by_contra h
      exact hnot ⟨p, hp, hkey, Or.inr h⟩

lemma root_mem_firstDirs : FatFs.root ∈ firstDirs fs := by
  rw [firstDirs, List.mem_map]
  refine ⟨[], List.mem_filter.mpr ⟨nil_mem_firstPaths, by decide⟩, rfl⟩

/-- A deleted node is reported when an expanded directory lists its name as deleted. -/
lemma deletedFinding_mem_iff (hvar : fs.geom.variant ≠ .exFat) {out : List Anomaly}
    (hout : ∀ a ∈ out, isDeletedFinding a = false) {n : Node} :
    deletedFinding n ∈ (collectDeleted fs MAX_DEPTH FatFs.root ([], out)).2 ↔
      ∃ dir ∈ firstDirs fs, ∃ m ∈ nodesOf fs dir, m.isDeleted ∧ m.name = n.name := by
  have hname : ∀ m : Node, deletedFinding n = deletedFinding m ↔ m.name = n.name := by
    intro m
    simp only [deletedFinding, Anomaly.new, Anomaly.mk.injEq, AnomalyKind.severity,
      AnomalyKind.code, AnomalyKind.deletedDirectoryEntry.injEq, true_and]
    exact eq_comm
  rw [mem_collectDeleted]
  constructor
  · rintro (h | ⟨dir, hdir, m, hm, hr, heq⟩)
    · exact absurd (hout _ h) (by simp [isDeletedFinding_deletedFinding])
    · rw [isReported_iff_isDeleted hvar hm] at hr
      exact ⟨dir, hdir, m, hm, hr, (hname m).mp heq⟩
  · rintro ⟨dir, hdir, m, hm, hdel, heq⟩
    exact Or.inr ⟨dir, hdir, m, hm, by rw [isReported_iff_isDeleted hvar hm, hdel],
      (hname m).mpr heq⟩

/-- **Completeness of the walk for deleted entries.**  On a FAT volume the audit reports every
deleted node on a live path shorter than the cap if and only if no deleted name is lost
behind a directory that is met first at the cap, or read through another handle. -/
theorem auditReader_reportsAll_iff {img : List UInt8} (hopen : FatFs.openImage img = .ok fs)
    (hvar : fs.geom.variant ≠ .exFat) :
    ∃ out, auditReader img = .ok out ∧ (ReportsAll fs out ↔ NothingLost fs) := by
  have hout : ∀ a ∈ structuralFindings img fs.geom, isDeletedFinding a = false :=
    fun a ha => not_isDeletedFinding_of_mem_structuralFindings ha
  refine ⟨_, auditReader_eq hopen, ?_⟩
  constructor
  · intro h path stop hpath hlen _ nodes hread n hn hdel
    exact (deletedFinding_mem_iff hvar hout).mp (h path stop hpath hlen nodes hread n hn hdel)
  · intro h path stop hpath hlen nodes hread n hn hdel
    rw [deletedFinding_mem_iff hvar hout]
    by_cases hcut : ∃ m ∈ path, IsCutOff fs m
    · exact h path stop hpath hlen hcut nodes hread n hn hdel
    · obtain ⟨dir, hdir, heq⟩ := exists_firstDir_of_livePath hpath
        (fun m hm hm' => hcut ⟨m, hm, hm'⟩) ⟨_, root_mem_firstDirs, rfl⟩
      rw [nodesOf_eq hread] at heq
      exact ⟨dir, hdir, n, by rw [heq]; exact hn, hdel, rfl⟩

/-! ## A volume without cycles -/

/-- No directory of the pruned volume is met at the cap, or through another handle. -/
lemma entered_pruned : ∀ dir ∈ [FileId.root, .entry 2 1], ∀ n ∈ nodesOf Synth.pruned.reader dir,
    isEntered n → n.id ∈ [FileId.root, .entry 2 1] ∧
      ∀ p ∈ firstPaths (walkItems Synth.pruned.reader) MAX_DEPTH FatFs.root,
        key p = some n.firstCluster → p.length ≠ MAX_DEPTH ∧
          nodesOf Synth.pruned.reader (target FatFs.root p) = nodesOf Synth.pruned.reader n.id := by
  decide +kernel

lemma not_isCutOff_pruned {dir stop : FileId} {path : List Node}
    (hpath : LivePath Synth.pruned.reader dir path stop) (hdir : dir ∈ [FileId.root, .entry 2 1]) :
    ∀ n ∈ path, ¬ IsCutOff Synth.pruned.reader n := by
  induction hpath with
  | nil => simp
  | @cons dir stop nodes path n hread hn he _ ih =>
    obtain ⟨hid, hfirst⟩ := entered_pruned dir hdir n (by rw [nodesOf_eq hread]; exact hn) he
    refine List.forall_mem_cons.mpr ⟨?_, ih hid⟩
    rintro ⟨p, hp, hkey, hcut⟩
    obtain ⟨hlen, heq⟩ := hfirst p hp hkey
    exact hcut.elim hlen (· heq)

/-- All deleted nodes of the pruned volume are reported. -/
theorem auditReader_reportsAll_pruned :
    ∃ out, auditReader Synth.pruned.image = .ok out ∧ ReportsAll Synth.pruned.reader out := by
  obtain ⟨out, hout, hiff⟩ := auditReader_reportsAll_iff Synth.pruned.openImage_image
    (by decide +kernel)
  refine ⟨out, hout, hiff.mpr fun path stop hpath _ ⟨n, hn, hcut⟩ => ?_⟩
  exact absurd hcut (not_isCutOff_pruned hpath List.mem_cons_self n hn)

/-! ## A directory met first at the cap -/

/-- The first cluster of the `i`-th directory of `deep`. -/
def deepCluster (i : ℕ) : UInt32 := if i = 63 then 3 else UInt32.ofNat (i + 4)

/-- The listing that the directories of `deep` share. -/
def deepListing : List UInt8 :=
  (List.range 64).flatMap fun i =>
    Synth.shortEntry (Synth.name 0x41) 0x10 (deepCluster i).toNat 0

/-- The FAT of `deep`. -/
def deepTable : List UInt8 :=
  Synth.table 4 ([0, 0, 0x0FFFFFFF, 0x0FFFFFFF] ++ List.replicate 63 2)

/-- A FAT32 volume with clusters of 2048 bytes, whose root lists 64 directories.  The chains of
the first 63 start behind the end of the image and go on to the root's cluster, so that they
list the same; the last one, in cluster 3, lists a deleted file. -/
def deep : Synth.Volume where
  image := Synth.bpb 4 0 300000 2 ++ deepTable
    ++ (deepListing ++ Synth.sectors 1 (Synth.shortEntry (Synth.name 0xE5) 0x20 0 0))
  opens := by decide +kernel

/-- The reader of `deep`. -/
abbrev deepFs : FatFs := deep.reader

lemma deep_image : deepFs.image = deep.image := (FatFs.openImage_ok deep.openImage_image).image

lemma deep_geom : deepFs.geom.variant = .fat32 ∧ deepFs.geom.clusterSize = 2048 ∧
    deepFs.geom.dataStart = 1024 ∧ deepFs.geom.rootCluster = 2 ∧ deepFs.geom.numFats = 1 ∧
    deepFs.maxClusters = 75001 ∧ deepFs.fat = deepTable := by
  decide +kernel

lemma deep_lengths : (Synth.bpb 4 0 300000 2 ++ deepTable).length = 1024 ∧
    deepListing.length = 2048 ∧ deep.image.length = 3584 := by
  decide +kernel

lemma deep_chain : followChain deepTable .fat32 2 75001 = [2] ∧ ∀ i < 63,
    4 ≤ (deepCluster i).toNat ∧ deepCluster i ≠ FIXED_ROOT ∧
      followChain deepTable .fat32 (deepCluster i) 75001 = [deepCluster i, 2] := by
  decide +kernel

lemma deep_entries :
    (Dirent.parseDirectory deepListing).map
        (fun e => (e.firstCluster, e.index, e.size, isEntered (nodeFrom 0 e)))
      = (List.range 64).map fun i => (deepCluster i, UInt16.ofNat i, 0, true) := by
  decide +kernel

/-- A directory of `deep` that shares the listing, named by its first cluster. -/
def SharesListing (m : UInt32) : Prop :=
  m ≠ FIXED_ROOT ∧ deepFs.readDirBytes (.chain m 0 false) = deepListing

lemma readRegionVec_deep : deepFs.readRegionVec 1024 2048 = deepListing := by
  obtain ⟨hpre, hlen, -⟩ := deep_lengths
  rw [FatFs.readRegionVec_eq, deep_image, deep, slice_append_right _ _ hpre.le, hpre, slice,
    Nat.sub_self, List.drop_zero, List.take_left' hlen]

lemma deep_clusterOffset {c : UInt32} (hc : 2 ≤ c) :
    deepFs.geom.clusterOffset c = some (1024 + (c.toNat - 2) * 2048) := by
  obtain ⟨-, hcs, hdata, -⟩ := deep_geom
  rw [(FatFs.openImage_valid deep.openImage_image).clusterOffset_eq hc, hdata, hcs]

lemma readClusters_root : deepFs.readClusters [2] [] = deepListing := by
  rw [FatFs.readClusters, if_neg (by decide), deep_clusterOffset (by decide)]
  dsimp only
  rw [deep_geom.2.1, show (2 : UInt32).toNat - 2 = 0 by rfl, Nat.zero_mul, Nat.add_zero,
    readRegionVec_deep, FatFs.readClusters, List.nil_append]

lemma sharesListing_root : SharesListing 2 := by
  obtain ⟨hvar, -, -, -, -, hmax, hfat⟩ := deep_geom
  refine ⟨by decide, ?_⟩
  rw [FatFs.readDirBytes, FatFs.clusters_eq_followChain (by decide), hfat, hvar, hmax,
    deep_chain.1, readClusters_root]

lemma sharesListing_deepCluster {i : ℕ} (hi : i < 63) : SharesListing (deepCluster i) := by
  obtain ⟨hvar, hcs, -, -, -, hmax, hfat⟩ := deep_geom
  obtain ⟨hge, hne, hchain⟩ := deep_chain.2 i hi
  have h2 : 2 ≤ deepCluster i := by
    rw [UInt32.le_iff_toNat_le, show (2 : UInt32).toNat = 2 by rfl]
    omega
  -- the first cluster lies behind the end of the image
  have hfar : deepFs.readRegionVec (1024 + ((deepCluster i).toNat - 2) * 2048) 2048 = [] := by
    rw [FatFs.readRegionVec_eq, deep_image,
      slice_eq_nil_of_le _ (by rw [deep_lengths.2.2]; omega)]
  refine ⟨hne, ?_⟩
  rw [FatFs.readDirBytes, FatFs.clusters_eq_followChain h2, hfat, hvar, hmax, hchain,
    FatFs.readClusters, if_neg (by decide), deep_clusterOffset h2]
  dsimp only
  rw [hcs, hfar, List.nil_append, readClusters_root]

/-- What the walk sees in a directory that shares the listing. -/
lemma walkItems_deep {dir : FileId} {m : UInt32}
    (hdir : deepFs.dirSource dir = .ok (.chain m 0 false)) (hm : SharesListing m) :
    walkItems deepFs dir =
      (List.range 64).map fun i => .descend (deepCluster i) (.entry m (UInt16.ofNat i)) := by
  have hvar : deepFs.geom.variant ≠ .exFat := by
    rw [deep_geom.1]
    decide
  have hentered : ∀ e ∈ Dirent.parseDirectory deepListing, isEntered (nodeFrom 0 e) = true := by
    intro e he
    have hmem := List.mem_map_of_mem (f := fun e => (e.firstCluster, e.index, e.size,
      isEntered (nodeFrom 0 e))) he
    rw [deep_entries] at hmem
    obtain ⟨i, -, hi⟩ := List.mem_map.mp hmem
    exact (congrArg (fun t => t.2.2.2) hi).symm
  have hitem : ∀ n ∈ (Dirent.parseDirectory deepListing).map (nodeFrom m),
      nodeItem n = some (.descend n.firstCluster n.id) := by
    intro n hn
    obtain ⟨e, he, rfl⟩ := List.mem_map.mp hn
    have hent : isEntered (nodeFrom m e) = true := hentered e he
    have hrep : ¬ isReported (nodeFrom m e) = true := by
      simp only [isEntered, isReported, decide_eq_true_eq] at hent ⊢
      exact fun h => hent.2.2.1 h.2.2
    rw [nodeItem, if_neg hrep, if_pos hent]
  rw [walkItems, nodesOf_fat hvar hdir, hm.2, sourceMarker, List.filterMap_congr hitem,
    List.filterMap_eq_map', List.map_map]
  have := congrArg (List.map fun t => Item.descend (ω := Anomaly) t.1 (FileId.entry m t.2.1))
    deep_entries
  rw [List.map_map, List.map_map] at this
  exact this

/-- The `i`-th node of the shared listing. -/
lemma exists_deep_node (m : UInt32) {i : ℕ} (hi : i < 64) :
    ∃ n ∈ deepFs.listNodes deepListing m, n.id = .entry m (UInt16.ofNat i) ∧
      n.firstCluster = deepCluster i ∧ n.size = 0 ∧ n.contiguous = false ∧ isEntered n = true := by
  have hmem : (deepCluster i, UInt16.ofNat i, (0 : UInt32), true) ∈
      (Dirent.parseDirectory deepListing).map
        (fun e => (e.firstCluster, e.index, e.size, isEntered (nodeFrom 0 e))) := by
    rw [deep_entries]
    exact List.mem_map_of_mem (List.mem_range.mpr hi)
  obtain ⟨e, he, heq⟩ := List.mem_map.mp hmem
  simp only [Prod.mk.injEq] at heq
  obtain ⟨hfirst, hindex, hsize, hent⟩ := heq
  have hvar : ¬ deepFs.geom.variant = .exFat := by
    rw [deep_geom.1]
    decide
  refine ⟨nodeFrom m e, ?_, by rw [← hindex]; rfl, hfirst, ?_, rfl, hent⟩
  · rw [FatFs.listNodes, if_neg hvar]
    exact List.mem_map_of_mem he
  · simp only [nodeFrom, hsize]
    rfl

/-- The handles listed there lead to the directories that share the listing. -/
lemma dirSource_deep {m : UInt32} (hm : SharesListing m) {i : ℕ} (hi : i < 64) :
    deepFs.dirSource (.entry m (UInt16.ofNat i)) = .ok (.chain (deepCluster i) 0 false) := by
  obtain ⟨n, hn, hid, hfirst, hsize, hcontiguous, hent⟩ := exists_deep_node m hi
  have hlen : deepListing.length / 32 ≤ 2 ^ 16 := by
    rw [deep_lengths.2.1]
    decide
  refine FatFs.dirSource_entry_ok.mpr ⟨n, ?_, ?_, by rw [hfirst, hsize, hcontiguous]⟩
  · rw [FatFs.resolveEntry_ok, FatFs.parentSource, if_neg hm.1, hm.2]
    exact FatFs.find?_hasIndex_listNodes hlen hn hid
  · simp only [isEntered, decide_eq_true_eq] at hent
    exact hent.2.2.2.1

lemma deepCluster_inj {i j : ℕ} (hi : i < 64) (hj : j < 64) (h : deepCluster i = deepCluster j) :
    i = j := by
  have hnum : ∀ k < 64, (deepCluster k).toNat = if k = 63 then 3 else k + 4 := by decide
  have := congrArg UInt32.toNat h
  rw [hnum i hi, hnum j hj] at this
  split at this <;> split at this <;> omega

lemma foldl_visit_seen {down : FileId → WalkState → WalkState}
    {xs : List (Item UInt32 FileId Anomaly)} {st : WalkState}
    (h : ∀ x ∈ xs, ∃ k next, x = .descend k next ∧ k ∈ st.1) : xs.foldl (visit down) st = st := by
  induction xs with
  | nil => rfl
  | cons x xs ih =>
    obtain ⟨k, next, rfl, hk⟩ := h x List.mem_cons_self
    rw [List.foldl_cons, visit, if_pos hk]
    exact ih fun y hy => h y (List.mem_cons_of_mem _ hy)

/-- Where the directories up to the `i`-th are seen, the walk goes down from the shared listing
through the following ones, and comes back with all of them seen and nothing reported. -/
lemma foldl_visit_deep {down : FileId → WalkState → WalkState} {m : UInt32} {i : ℕ} (hi : i < 64)
    {st : WalkState} (hseen : ∀ j < 64, deepCluster j ∈ st.1 ↔ j < i)
    (hdown : ∀ st' : WalkState, (∀ j < 64, deepCluster j ∈ st'.1 ↔ j < i + 1) →
      (∀ j < 64, deepCluster j ∈ (down (.entry m (UInt16.ofNat i)) st').1) ∧
        (down (.entry m (UInt16.ofNat i)) st').2 = st'.2) :
    (∀ j < 64, deepCluster j ∈ (((List.range 64).map fun j =>
        Item.descend (deepCluster j) (FileId.entry m (UInt16.ofNat j))).foldl (visit down) st).1) ∧
      (((List.range 64).map fun j =>
        Item.descend (deepCluster j) (FileId.entry m (UInt16.ofNat j))).foldl (visit down) st).2
          = st.2 := by
  have hsplit : List.range 64 = List.range i ++ (i :: List.range' (i + 1) (63 - i)) := by
    have h := List.range'_append_1 (s := 0) (m := i) (n := 63 - i + 1)
    rw [Nat.zero_add, List.range'_succ, show i + (63 - i + 1) = 64 by omega] at h
    rw [List.range_eq_range', List.range_eq_range', h]
  have hbefore : ((List.range i).map fun j =>
      Item.descend (deepCluster j) (FileId.entry m (UInt16.ofNat j))).foldl (visit down) st
        = st := by
    refine foldl_visit_seen fun x hx => ?_
    obtain ⟨j, hj, rfl⟩ := List.mem_map.mp hx
    have hj := List.mem_range.mp hj
    exact ⟨_, _, rfl, (hseen j (by omega)).mpr hj⟩
  have hself : deepCluster i ∉ st.1 := fun h => absurd ((hseen i hi).mp h) (lt_irrefl i)
  obtain ⟨hall, hout⟩ := hdown (deepCluster i :: st.1, st.2) fun j hj => by
    rw [List.mem_cons, hseen j hj]
    constructor
    · rintro (h | h)
      · rw [deepCluster_inj hj hi h]
        exact Nat.lt_succ_self i
      · omega
    · intro h
      by_cases hij : j = i
      · exact Or.inl (by rw [hij])
      · exact Or.inr (by omega)
  have hafter : ((List.range' (i + 1) (63 - i)).map fun j =>
      Item.descend (deepCluster j) (FileId.entry m (UInt16.ofNat j))).foldl (visit down)
        (down (.entry m (UInt16.ofNat i)) (deepCluster i :: st.1, st.2))
        = down (.entry m (UInt16.ofNat i)) (deepCluster i :: st.1, st.2) := by
    refine foldl_visit_seen fun x hx => ?_
    obtain ⟨j, hj, rfl⟩ := List.mem_map.mp hx
    have hj := List.mem_range'_1.mp hj
    exact ⟨_, _, rfl, hall j (by omega)⟩
  rw [hsplit, List.map_append, List.foldl_append, hbefore, List.map_cons, List.foldl_cons, visit,
    if_neg hself, hafter]
  exact ⟨hall, hout⟩

/-- The walk from the `i`-th directory down, which it meets with `63 - i` levels left. -/
lemma search_deep {levels i : ℕ} (hlevels : levels + i = 63) {m : UInt32} (hm : SharesListing m)
    {st : WalkState} (hseen : ∀ j < 64, deepCluster j ∈ st.1 ↔ j < i + 1) :
    (∀ j < 64, deepCluster j ∈
        (search (walkItems deepFs) levels (.entry m (UInt16.ofNat i)) st).1) ∧
      (search (walkItems deepFs) levels (.entry m (UInt16.ofNat i)) st).2 = st.2 := by
  induction levels generalizing i m st with
  | zero => exact ⟨fun j hj => (hseen j hj).mpr (by omega), rfl⟩
  | succ levels ih =>
    have hnext := sharesListing_deepCluster (i := i) (by omega)
    rw [search, walkItems_deep (dirSource_deep hm (by omega)) hnext]
    exact foldl_visit_deep (by omega) hseen fun st' hst' => ih (by omega) hnext hst'

lemma dirSource_deep_root : deepFs.dirSource FatFs.root = .ok (.chain 2 0 false) := by
  obtain ⟨hvar, -, -, hroot, -⟩ := deep_geom
  have hclustered : deepFs.rootIsClustered = true := by simp [FatFs.rootIsClustered, hvar]
  rw [FatFs.root, FatFs.dirSource, if_pos hclustered, hroot]

/-- The walk over `deep` reports nothing. -/
lemma auditReader_deep : auditReader deep.image = .ok [] := by
  obtain ⟨hvar, -, -, -, hnum, -⟩ := deep_geom
  have hstruct : structuralFindings deep.image deepFs.geom = [] := by
    rw [structuralFindings, if_neg (by rw [hvar]; decide), if_neg (by rw [hnum]; decide)]
  rw [auditReader_eq deep.openImage_image, hstruct, collectDeleted_eq_search, MAX_DEPTH, search,
    walkItems_deep dirSource_deep_root sharesListing_root]
  have := @foldl_visit_deep _ 2 0 (by omega) ([], []) (by simp)
    fun st' hst' => search_deep (show 63 + 0 = 63 from rfl) sharesListing_root hst'
  rw [this.2]

/-- **The deleted file of `deep`**, one step below its root, is not reported. -/
theorem not_reportsAll_deep :
    FatFs.openImage deep.image = .ok deepFs ∧ deepFs.geom.variant = .fat32 ∧
      ∃ out, auditReader deep.image = .ok out ∧ ¬ ReportsAll deepFs out := by
  refine ⟨deep.openImage_image, deep_geom.1, [], auditReader_deep, fun h => ?_⟩
  obtain ⟨d, hd, hid, -, -, -, hent⟩ := exists_deep_node 2 (i := 63) (by omega)
  have hroot : deepFs.readDir .root = .ok (deepFs.listNodes deepListing 2) :=
    FatFs.readDir_ok.mpr ⟨_, dirSource_deep_root, by rw [sharesListing_root.2, sourceMarker]⟩
  have hdir : deepFs.readDir d.id
      = .ok (deepFs.listNodes (deepFs.readDirBytes (.chain 3 0 false)) 3) := by
    rw [hid]
    exact FatFs.readDir_ok.mpr ⟨_, dirSource_deep sharesListing_root (by omega), rfl⟩
  obtain ⟨n, hn, hdel⟩ : ∃ n ∈ deepFs.listNodes (deepFs.readDirBytes (.chain 3 0 false)) 3,
      n.isDeleted := by
    decide +kernel
  have hpath : LivePath deepFs .root [d] d.id := .cons hroot hd hent (.nil _)
  exact absurd (h [d] _ hpath (by simp [MAX_DEPTH]) _ hdir n hn hdel) (by simp)

end Audit
end FatForensic
