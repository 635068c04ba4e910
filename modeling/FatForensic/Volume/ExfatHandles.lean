import FatForensic.Directory.ExfatSlots
import FatForensic.Volume.Chains
import FatForensic.Volume.Handles

/-!
# Handles on exFAT

An exFAT directory can be a contiguous extent, whose FAT entries are undefined; its handles
name its first cluster, and resolving them follows the FAT from there.  They resolve to the
nodes they were listed with exactly when the FAT leads to the same entry sets.
-/

namespace FatForensic

open Window Extent PointerWalk

/-- The entry set that a directory lists at a slot. -/
def Exfat.setAt (data : List UInt8) (index : UInt16) : Option ExfatDirEntry :=
  (parseDirectory data).find? fun e => e.index = index

namespace FatFs

/-- Reading by the handle of `n` delivers the extent that `n` names. -/
def ReadsData (fs : FatFs) (n : Node) : Prop :=
  ∀ chain total off buf, fs.extentOf n.firstCluster n.size n.contiguous = (chain, total) →
    ∃ k out, fs.readAt n.id off buf = .ok (k, out) ∧
      out.take k = run (fs.byteAt chain) off (min (off + buf.length) total - off)

/-- Every node that `dir` lists is found again by its handle, and a file is read by it. -/
def Resolves (fs : FatFs) (dir : FileId) : Prop :=
  ∀ nodes, fs.readDir dir = .ok nodes → ∀ n ∈ nodes,
    fs.nodeMeta n.id = .ok n ∧ (n.isDir = false → fs.ReadsData n)

/-- The image bytes of a cluster, as far as the image goes. -/
def clusterBytes (fs : FatFs) (c : UInt32) : List UInt8 :=
  (fs.geom.clusterOffset c).elim [] fun base => slice fs.image base fs.geom.clusterSize

/-- The bytes of the clusters that the FAT leads to from `first`: of the shortest part of the
chain that reaches the cap on a directory, or of the whole chain. -/
def chainBytes (fs : FatFs) (first : UInt32) : List UInt8 :=
  let chain := walk (link fs.fat fs.geom.variant) fs.maxClusters first
  ((chain.inits.find? fun p => MAX_DIR_BYTES ≤ (p.flatMap fs.clusterBytes).length).getD
    chain).flatMap fs.clusterBytes

/-- The bytes of a directory: of a contiguous extent the window of the image that its size, the
cap and the cluster numbers leave, else of its chain. -/
def extentBytes (fs : FatFs) (first : UInt32) (size : UInt64) (contiguous : Bool) : List UInt8 :=
  if contiguous ∧ size > 0 then
    slice fs.image (fs.geom.dataStart + (first.toNat - 2) * fs.geom.clusterSize)
      (fs.geom.clusterSize * min (min (divCeil size.toNat fs.geom.clusterSize) fs.maxClusters)
        (2 ^ 32 - first.toNat))
  else fs.chainBytes first

/-- The first cluster of a directory that lists something is no marker, and where the directory
is a contiguous extent, each set it lists stands at the same slot of what the FAT leads to from
its first cluster. -/
def SetsOnChain (fs : FatFs) : DirSource → Prop
  | .fixedRoot => True
  | .chain first size contiguous =>
    first < 2 ∨ ∀ e ∈ Exfat.parseDirectory (fs.extentBytes first size contiguous),
      first ≠ FIXED_ROOT ∧
        (contiguous ∧ size > 0 → Exfat.setAt (fs.chainBytes first) e.index = some e)

variable {fs : FatFs}

/-! ## The bytes of a directory -/

/-- The loop of `read_dir_bytes` collects the clusters up to the cap. -/
lemma readClusters_eq {cs : List UInt32} (hcs : ∀ c ∈ cs, (fs.geom.clusterOffset c).isSome)
    (out : List UInt8) :
    fs.readClusters cs out = out ++ ((cs.inits.find? fun p =>
      MAX_DIR_BYTES ≤ out.length + (p.flatMap fs.clusterBytes).length).getD cs).flatMap
        fs.clusterBytes := by
  induction cs generalizing out with
  | nil =>
    by_cases hcap : MAX_DIR_BYTES ≤ out.length <;> simp [readClusters, hcap]
  | cons c rest ih =>
    obtain ⟨base, hbase⟩ := Option.isSome_iff_exists.mp (hcs c List.mem_cons_self)
    have hbytes : fs.readRegionVec base fs.geom.clusterSize = fs.clusterBytes c := by
      rw [readRegionVec_eq, clusterBytes, hbase]
      rfl
    rw [readClusters, List.inits_cons, List.find?_cons]
    by_cases hcap : MAX_DIR_BYTES ≤ out.length
    · simp [hcap]
    have hnil : (decide (MAX_DIR_BYTES ≤ out.length + (List.flatMap fs.clusterBytes []).length))
        = false := by
      simpa using hcap
    have hpred : ((fun p => decide (MAX_DIR_BYTES ≤
        out.length + (p.flatMap fs.clusterBytes).length)) ∘ fun p => c :: p) =
        fun p => decide (MAX_DIR_BYTES ≤
          (out ++ fs.clusterBytes c).length + (p.flatMap fs.clusterBytes).length) := by
      funext p
      rw [Function.comp_apply, List.flatMap_cons, List.length_append, List.length_append,
        Nat.add_assoc]
    rw [if_neg hcap, hbase, hnil]
    dsimp only
    rw [hbytes, ih (fun d hd => hcs d (List.mem_cons_of_mem _ hd)), List.find?_map, hpred]
    cases rest.inits.find? fun p => decide (MAX_DIR_BYTES ≤
        (out ++ fs.clusterBytes c).length + (p.flatMap fs.clusterBytes).length) with
    | none => simp
    | some p => simp

/-- Below the cap all clusters are collected. -/
lemma readClusters_eq_flatMap {cs : List UInt32}
    (hcs : ∀ c ∈ cs, (fs.geom.clusterOffset c).isSome)
    (hlt : (fs.readClusters cs []).length < MAX_DIR_BYTES) :
    fs.readClusters cs [] = cs.flatMap fs.clusterBytes := by
  rw [readClusters_eq hcs] at hlt ⊢
  cases hfind : cs.inits.find? fun p =>
      decide (MAX_DIR_BYTES ≤ ([] : List UInt8).length + (p.flatMap fs.clusterBytes).length) with
  | none => rw [Option.getD_none, List.nil_append]
  | some p =>
    have hreached := List.find?_some hfind
    rw [hfind] at hlt
    simp at hreached hlt
    omega

/-- The bytes of physically adjacent clusters are one window of the image. -/
lemma flatMap_clusterBytes_range (hvalid : fs.geom.Valid) {first m : ℕ} (h2 : 2 ≤ first)
    (hm : first + m ≤ 2 ^ 32) :
    ((List.range' first m).map UInt32.ofNat).flatMap fs.clusterBytes =
      slice fs.image (fs.geom.dataStart + (first - 2) * fs.geom.clusterSize)
        (fs.geom.clusterSize * m) := by
  rw [← flatMap_slice_range_add, List.range'_eq_map_range, List.map_map, List.flatMap_map]
  refine List.flatMap_congr fun k hk => ?_
  have hk := List.mem_range.mp hk
  have hnat : (UInt32.ofNat (first + k)).toNat = first + k :=
    UInt32.toNat_ofNat_of_lt' (show first + k < 2 ^ 32 by omega)
  have hoff := hvalid.clusterOffset_eq (c := UInt32.ofNat (first + k))
    (UInt32.le_iff_toNat_le.mpr (by rw [hnat]; exact h2.trans (Nat.le_add_right _ _)))
  rw [hnat] at hoff
  rw [Function.comp_apply, clusterBytes, hoff, Option.elim_some, Nat.sub_add_comm h2, Nat.add_mul,
    Nat.add_assoc, Nat.mul_comm k]

/-- The handle of a directory names its chain. -/
lemma readDirBytes_chain (hvalid : fs.geom.Valid) {first : UInt32} (h2 : 2 ≤ first) :
    fs.readDirBytes (.chain first 0 false) = fs.chainBytes first := by
  have hwalk : fs.clusters first 0 false
      = walk (link fs.fat fs.geom.variant) fs.maxClusters first := by
    rw [clusters_eq_followChain h2, followChain_eq_walk _ _ h2]
  have hcs : ∀ c ∈ walk (link fs.fat fs.geom.variant) fs.maxClusters first,
      (fs.geom.clusterOffset c).isSome := by
    intro c hc
    rw [hvalid.clusterOffset_eq (two_le_of_reaches (reaches_of_mem_walk hc) h2)]
    rfl
  rw [readDirBytes, hwalk, readClusters_eq hcs, chainBytes]
  simp only [List.nil_append, List.length_nil, Nat.zero_add]

/-- A directory of at most 65536 slots is read from its extent. -/
lemma readDirBytes_extent (hvalid : fs.geom.Valid) {first : UInt32} (h2 : 2 ≤ first)
    {size : UInt64} {contiguous : Bool}
    (hslots : (fs.readDirBytes (.chain first size contiguous)).length / 32 ≤ 65536) :
    fs.readDirBytes (.chain first size contiguous) = fs.extentBytes first size contiguous := by
  have hlt : (fs.readDirBytes (.chain first size contiguous)).length < MAX_DIR_BYTES := by
    rw [MAX_DIR_BYTES]
    omega
  by_cases hcont : contiguous = true ∧ size > 0
  · obtain ⟨rfl, hsize⟩ := hcont
    have hcl : fs.clusters first size true = _ := clusters_contiguous h2 hsize
    have hfirst := first.toNat_lt
    rw [extentBytes, if_pos ⟨rfl, hsize⟩, readDirBytes]
    rw [readDirBytes] at hlt
    rw [readClusters_eq_flatMap ?_ hlt, hcl,
      flatMap_clusterBytes_range hvalid (UInt32.le_iff_toNat_le.mp h2) (by omega)]
    intro c hc
    rw [hvalid.clusterOffset_eq]
    · rfl
    · exact two_le_of_mem_clusters hvalid.clusterSize_pos hc
  · rw [extentBytes, if_neg hcont, ← readDirBytes_chain hvalid h2, readDirBytes, readDirBytes,
      clusters_of_not_contiguous first hcont]

/-! ## Nodes of exFAT directories -/

lemma nodeFromExfat_injective (marker : UInt32) : Function.Injective (nodeFromExfat marker) := by
  intro e e' h
  simp only [nodeFromExfat, Node.mk.injEq, FileId.entry.injEq] at h
  obtain ⟨⟨-, hindex⟩, hname, -, hdir, hdel, -, hsize, hattr, hfirst, hcont, hc, hm, ha⟩ := h
  have hattr := UInt16.toUInt32_inj.mp hattr
  cases e
  cases e'
  simp_all

/-- Resolving a handle finds the entry again exactly when the set stands at its slot. -/
lemma resolveEntry_exfat (hvar : fs.geom.variant = .exFat) (marker : UInt32)
    (e : Exfat.ExfatDirEntry) :
    fs.resolveEntry (nodeFromExfat marker e).id = .ok (nodeFromExfat marker e) ↔
      Exfat.setAt (fs.readDirBytes (parentSource marker)) e.index = some e := by
  have hid : (nodeFromExfat marker e).id = .entry marker e.index := rfl
  have hindex : hasIndex e.index ∘ nodeFromExfat marker
      = fun e' => decide (e'.index = e.index) := rfl
  rw [hid, resolveEntry_ok, listNodes, if_pos hvar, List.find?_map, hindex, Exfat.setAt]
  cases (Exfat.parseDirectory (fs.readDirBytes (parentSource marker))).find?
      fun e' => decide (e'.index = e.index) with
  | none => simp
  | some e' =>
    rw [Option.map_some, Option.some.injEq, Option.some.injEq]
    exact (nodeFromExfat_injective marker).eq_iff

/-- Where a handle resolves to its node, reading by the handle reads the data of the node. -/
lemma readsData_of_nodeMeta {img : List UInt8} (hopen : openImage img = .ok fs) {n : Node}
    {marker : UInt32} {i : UInt16} (hid : n.id = .entry marker i)
    (hmeta : fs.nodeMeta n.id = .ok n) : fs.ReadsData n := by
  intro chain total off buf he
  rw [hid, nodeMeta] at hmeta
  have hextent : fs.dataExtent n.id = .ok (chain, total) := by
    rw [hid]
    exact dataExtent_entry_ok.mpr ⟨n, hmeta, he⟩
  refine ⟨_, _, readAt_eq_run hopen hextent off buf, ?_⟩
  rw [overwrite_zero, List.take_left]

/-- The nodes of a directory resolve exactly when its sets stand at their slots where the
handles say. -/
lemma resolves_iff_setAt {img : List UInt8} (hopen : openImage img = .ok fs)
    (hvar : fs.geom.variant = .exFat) {dir : FileId} {source : DirSource}
    (hsource : fs.dirSource dir = .ok source) :
    fs.Resolves dir ↔ ∀ e ∈ Exfat.parseDirectory (fs.readDirBytes source),
      Exfat.setAt (fs.readDirBytes (parentSource (sourceMarker source))) e.index = some e := by
  have hnodes : fs.listNodes (fs.readDirBytes source) (sourceMarker source)
      = (Exfat.parseDirectory (fs.readDirBytes source)).map
          (nodeFromExfat (sourceMarker source)) := by
    rw [listNodes, if_pos hvar]
  constructor
  · intro h e he
    rw [← resolveEntry_exfat hvar]
    exact (h _ (readDir_ok.mpr ⟨source, hsource, rfl⟩) _
      (hnodes ▸ List.mem_map_of_mem he)).1
  · intro h nodes hlist n hn
    obtain ⟨source', hsource', rfl⟩ := readDir_ok.mp hlist
    obtain rfl : source = source' := Except.ok.inj (hsource.symm.trans hsource')
    rw [hnodes, List.mem_map] at hn
    obtain ⟨e, he, rfl⟩ := hn
    have hmeta : fs.nodeMeta (nodeFromExfat (sourceMarker source) e).id
        = .ok (nodeFromExfat (sourceMarker source) e) :=
      (resolveEntry_exfat hvar _ e).mpr (h e he)
    exact ⟨hmeta, fun _ => readsData_of_nodeMeta hopen rfl hmeta⟩

/-! ## Chained directories -/

/-- In a directory of at most 65536 slots, every set stands at its own slot. -/
lemma setAt_of_mem {data : List UInt8} (h : data.length / 32 ≤ 65536) {e : Exfat.ExfatDirEntry}
    (he : e ∈ Exfat.parseDirectory data) : Exfat.setAt data e.index = some e := by
  have hnodup : ((Exfat.parseDirectory data).map Exfat.ExfatDirEntry.index).Nodup := by
    refine List.pairwise_map.mpr ((Exfat.pairwise_index_parseDirectory h).imp fun hlt heq => ?_)
    rw [heq] at hlt
    exact lt_irrefl _ hlt
  rw [Exfat.setAt]
  cases hfind : (Exfat.parseDirectory data).find? fun e' => decide (e'.index = e.index) with
  | none => exact absurd (List.find?_eq_none.mp hfind e he) (by simp)
  | some e' =>
    have hindex : e'.index = e.index := by simpa using List.find?_some hfind
    rw [List.inj_on_of_nodup_map hnodup (List.mem_of_find?_eq_some hfind) he hindex]

/-- The fixed root region of an exFAT volume is empty. -/
lemma readDirBytes_fixedRoot_exfat {img : List UInt8} (hopen : openImage img = .ok fs)
    (hvar : fs.geom.variant = .exFat) : fs.readDirBytes .fixedRoot = [] := by
  obtain ⟨b, s, hg⟩ := Geometry.parseBoot_ok (parseBoot_of_openImage hopen hvar)
  rw [readDirBytes, readRegionVec_eq, hg.rootDirBytes, slice_zero_len]

/-- **Handle resolution on exFAT.**  The nodes that `read_dir` lists for a directory of at most
65536 slots all resolve to themselves, and their data is read by their handles, exactly when the
sets of the directory stand on the chain that the FAT leads to from its first cluster. -/
theorem resolves_iff {img : List UInt8} (hopen : openImage img = .ok fs)
    (hvar : fs.geom.variant = .exFat) {dir : FileId} {source : DirSource}
    (hsource : fs.dirSource dir = .ok source)
    (hslots : (fs.readDirBytes source).length / 32 ≤ 65536) :
    fs.Resolves dir ↔ fs.SetsOnChain source := by
  have hfixed := readDirBytes_fixedRoot_exfat hopen hvar
  have hvalid := openImage_valid hopen
  rw [resolves_iff_setAt hopen hvar hsource]
  cases source with
  | fixedRoot => simp [SetsOnChain, hfixed]
  | chain first size contiguous =>
    rw [SetsOnChain, sourceMarker]
    by_cases h2 : first < 2
    · simp [h2, readDirBytes, clusters, readClusters]
    have h2' := UInt32.not_lt.mp h2
    rw [or_iff_right h2, ← readDirBytes_extent hvalid h2' hslots, ← readDirBytes_chain hvalid h2']
    refine forall₂_congr fun e he => ?_
    by_cases hfirst : first = FIXED_ROOT
    · -- the first cluster is taken for the marker of the fixed root, where nothing is found
      rw [parentSource, if_pos hfirst, hfixed]
      simp [hfirst, Exfat.setAt]
    rw [parentSource, if_neg hfirst, and_iff_right hfirst]
    by_cases hcont : contiguous ∧ size > 0
    · rw [imp_iff_right hcont]
    · -- listing and resolving follow the same chain
      have hbytes : fs.readDirBytes (.chain first 0 false)
          = fs.readDirBytes (.chain first size contiguous) := by
        rw [readDirBytes, readDirBytes, clusters_of_not_contiguous first hcont]
      rw [hbytes]
      exact iff_of_true (setAt_of_mem hslots he) fun h => absurd h hcont

/-- The entry set of a node named by one letter. -/
def letterRecord (letter attributes : UInt16) (firstCluster : UInt32) (size : UInt64)
    (noFatChain : Bool) : Exfat.FileRecord where
  deleted := false
  attributes
  created := 0
  modified := 0
  accessed := 0
  createdTenths := 0
  modifiedTenths := 0
  firstCluster
  size
  noFatChain
  units := [letter]
  length_le := Exfat.length_letter_le letter

/-- An exFAT volume whose root lists a contiguous directory in the clusters 3 and 4.  The FAT
holds nothing for them; the second one lists a file. -/
def unchained : Synth.Volume where
  image := Synth.exfatBoot 3 ++ Synth.table 4 [0, 0, 0xFFFFFFFF]
    ++ Synth.sectors 1 (letterRecord 0x44 0x10 3 1024 true).slots.flatten
    ++ List.replicate 512 1 ++ Synth.sectors 1 (letterRecord 0x46 0x20 0 0 false).slots.flatten
  opens := by decide +kernel

/-- The root of `unchained` is a chain, so the directory it lists resolves. -/
theorem resolves_unchained_root : unchained.reader.Resolves .root := by
  have hvolume : unchained.reader.geom.variant = .exFat ∧
      unchained.reader.dirSource .root = .ok (.chain 2 0 false) ∧
      (unchained.reader.readDirBytes (.chain 2 0 false)).length / 32 ≤ 65536 := by
    decide +kernel
  obtain ⟨hvar, hsource, hslots⟩ := hvolume
  refine (resolves_iff unchained.openImage_image hvar hsource hslots).mpr ?_
  exact Or.inr fun e _ => ⟨by decide, fun h => absurd h.1 (by simp)⟩

/-- **A listed node need not resolve.**  The file in the second cluster of the directory of
`unchained` is listed, but not found by its handle. -/
theorem not_resolves_unchained :
    ¬ ∀ (img : List UInt8) (fs : FatFs), openImage img = .ok fs → fs.geom.variant = .exFat →
      ∀ dir source, Reachable fs dir → fs.dirSource dir = .ok source →
        (fs.readDirBytes source).length / 32 ≤ 65536 → fs.Resolves dir := by
  intro h
  have hvolume : unchained.reader.geom.variant = .exFat ∧
      unchained.reader.readDir .root = .ok (unchained.listing .root) ∧
      (∃ n ∈ unchained.listing .root, n.isDir = true ∧ n.id = .entry 2 0) ∧
      unchained.reader.dirSource (.entry 2 0) = .ok (.chain 3 1024 true) ∧
      (unchained.reader.readDirBytes (.chain 3 1024 true)).length / 32 ≤ 65536 ∧
      unchained.reader.readDir (.entry 2 0) = .ok (unchained.listing (.entry 2 0)) ∧
      ∃ n ∈ unchained.listing (.entry 2 0), unchained.reader.nodeMeta n.id ≠ .ok n := by
    decide +kernel
  obtain ⟨hvar, hroot, ⟨d, hd, hisDir, hid⟩, hsource, hslots, hdir, n, hn, hne⟩ := hvolume
  have hreach : Reachable unchained.reader (.entry 2 0) :=
    hid ▸ Reachable.step Reachable.root hroot hd hisDir
  have hresolves := h _ _ unchained.openImage_image hvar _ _ hreach hsource hslots
  exact hne (hresolves _ hdir n hn).1

end FatFs
end FatForensic
