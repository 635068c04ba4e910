import FatForensic.Volume.Runs

/-!
# When content stays in the cluster heap

Cluster numbers enter an extent from a directory entry, from the FAT, and from the length of
a contiguous run.  None of them is checked against the cluster count, and the cap on a chain
bounds its length only.  The content of a node lies in the cluster heap exactly when the
numbers stored for it do: the cap leaves a chain enough room to leave the heap whenever its
pointers do.
-/

namespace FatForensic

open PointerWalk Extent StateTransition Window

/-- The clusters of the volume, `2..=count_of_clusters + 1`. -/
def Geometry.InHeap (g : Geometry) (c : UInt32) : Prop :=
  2 ≤ c.toNat ∧ c.toNat ≤ g.countOfClusters + 1

lemma Geometry.InHeap.two_le {g : Geometry} {c : UInt32} (h : g.InHeap c) : 2 ≤ c :=
  UInt32.le_iff_toNat_le.mpr h.1

lemma Geometry.InHeap.mul_add_le {g : Geometry} {c : UInt32} (h : g.InHeap c) :
    (c.toNat - 2) * g.clusterSize + g.clusterSize ≤ g.countOfClusters * g.clusterSize := by
  rw [← Nat.succ_mul]
  obtain ⟨h2, hle⟩ := h
  exact Nat.mul_le_mul_right _ (by omega)

/-- The image offsets of the clusters of the volume. -/
def Geometry.InRegion (g : Geometry) (o : ℕ) : Prop :=
  g.dataStart ≤ o ∧ o < g.dataStart + g.countOfClusters * g.clusterSize

namespace FatFs

/-- Where `id` has a cluster list, its clusters, its runs and the bytes that `read_at`
delivers of it lie in the cluster heap. -/
def Contained (fs : FatFs) (id : FileId) : Prop :=
  ∀ chain total, fs.dataExtent id = .ok (chain, total) → chain ≠ [] →
    (∀ c ∈ chain, fs.geom.InHeap c) ∧
    (∀ runs, fs.runs id = .ok runs → ∀ r ∈ runs, fs.geom.dataStart ≤ r.1 ∧
      r.1 + r.2 ≤ fs.geom.dataStart + fs.geom.countOfClusters * fs.geom.clusterSize) ∧
    ∀ off buf n out, fs.readAt id off buf = .ok (n, out) → ∀ k < n, ∃ o,
      fs.position chain (off + k) = some o ∧ fs.geom.InRegion o ∧ out[k]? = fs.image[o]?

/-- The numbers stored for a source stay in the cluster heap: the end of a contiguous run, and
the first cluster of a chain with every pointer the FAT holds for a cluster reached from it. -/
def StaysInHeap (fs : FatFs) : DirSource → Prop
  | .fixedRoot => True
  | .chain first size contiguous =>
    first < 2 ∨
      if contiguous ∧ size > 0 then
        min (first.toNat + divCeil size.toNat fs.geom.clusterSize) (2 ^ 32)
          ≤ fs.geom.countOfClusters + 2
      else
        first.toNat ≤ fs.geom.countOfClusters + 1 ∧
          ∀ c next, Reaches (link fs.fat fs.geom.variant) first c →
            link fs.fat fs.geom.variant c = some next →
            next.toNat ≤ fs.geom.countOfClusters + 1

variable {fs : FatFs}

/-! ## Clusters in the heap -/

/-- A set of at most `count` clusters that holds those from 2 to `count + 1`. -/
lemma exists_heap (count : ℕ) :
    ∃ s : Finset UInt32, s.card ≤ count ∧
      ∀ c : UInt32, 2 ≤ c → (c ∈ s ↔ c.toNat ≤ count + 1) := by
  classical
  refine ⟨((Finset.Icc 2 (count + 1)).image UInt32.ofNat).filter (·.toNat ≤ count + 1), ?_, ?_⟩
  · calc _ ≤ ((Finset.Icc 2 (count + 1)).image UInt32.ofNat).card := Finset.card_filter_le _ _
      _ ≤ (Finset.Icc 2 (count + 1)).card := Finset.card_image_le
      _ = count := by rw [Nat.card_Icc]; omega
  · intro c h2
    rw [Finset.mem_filter, Finset.mem_image, and_iff_right_iff_imp]
    intro hle
    exact ⟨c.toNat, Finset.mem_Icc.mpr ⟨UInt32.le_iff_toNat_le.mp h2, hle⟩, UInt32.ofNat_toNat⟩

/-- A chain stays in the heap exactly when its first cluster and all pointers reached do. -/
lemma forall_mem_followChain_iff {fat : List UInt8} {variant : FatVariant} {first : UInt32}
    (h2 : 2 ≤ first) (count : ℕ) :
    (∀ c ∈ followChain fat variant first (count + 2), c.toNat ≤ count + 1) ↔
      first.toNat ≤ count + 1 ∧ ∀ c next, Reaches (link fat variant) first c →
        link fat variant c = some next → next.toNat ≤ count + 1 := by
  obtain ⟨s, hcard, hs⟩ := exists_heap count
  have hwalk : (∀ c ∈ walk (link fat variant) (count + 2) first, c ∈ s) ↔
      ∀ c, Reaches (link fat variant) first c → c ∈ s := forall_mem_walk_iff (by omega)
  have hreach : ∀ c, Reaches (link fat variant) first c → (c ∈ s ↔ c.toNat ≤ count + 1) :=
    fun c hc => hs c (two_le_of_reaches hc h2)
  rw [followChain_eq_walk _ _ h2]
  constructor
  · intro hall
    have hin : ∀ c, Reaches (link fat variant) first c → c.toNat ≤ count + 1 := by
      intro c hc
      rw [← hreach c hc]
      refine hwalk.mp (fun d hd => ?_) c hc
      rw [hreach d (reaches_of_mem_walk hd)]
      exact hall d hd
    exact ⟨hin first .refl, fun c next hc hnext => hin next (hc.tail hnext)⟩
  · rintro ⟨hfirst, hnext⟩ c hc
    cases reaches_of_mem_walk hc with
    | refl => exact hfirst
    | tail hb hlink => exact hnext _ _ hb hlink

/-- A contiguous run stays in the heap exactly when its end does. -/
lemma forall_mem_contiguous_iff {first : UInt32} {n count : ℕ} (hn : 0 < n) (h2 : 2 ≤ first) :
    (∀ c ∈ (List.range' first.toNat (min (min n (count + 2)) (2 ^ 32 - first.toNat))).map
        UInt32.ofNat, c.toNat ≤ count + 1) ↔
      min (first.toNat + n) (2 ^ 32) ≤ count + 2 := by
  have hfirst := first.toNat_lt
  rw [UInt32.le_iff_toNat_le] at h2
  have h2 : 2 ≤ first.toNat := h2
  generalize hm : min (min n (count + 2)) (2 ^ 32 - first.toNat) = m
  constructor
  · intro hall
    have hlast := hall (UInt32.ofNat (first.toNat + (m - 1)))
      (List.mem_map_of_mem (List.mem_range'_1.mpr (by omega)))
    rw [UInt32.toNat_ofNat_of_lt' (show first.toNat + (m - 1) < 2 ^ 32 by omega)] at hlast
    omega
  · intro hend c hc
    obtain ⟨x, hx, rfl⟩ := List.mem_map.mp hc
    rw [List.mem_range'_1] at hx
    rw [UInt32.toNat_ofNat_of_lt' (show x < 2 ^ 32 by omega)]
    omega

/-- **The clusters of a source lie in the heap exactly when its numbers stay there.** -/
lemma forall_mem_sourceExtent_iff (hcs : 0 < fs.geom.clusterSize)
    (hmax : fs.maxClusters = fs.geom.countOfClusters + 2) (source : DirSource) :
    (∀ c ∈ (fs.sourceExtent source).1, fs.geom.InHeap c) ↔ fs.StaysInHeap source := by
  have hheap : (∀ c ∈ (fs.sourceExtent source).1, fs.geom.InHeap c) ↔
      ∀ c ∈ (fs.sourceExtent source).1, c.toNat ≤ fs.geom.countOfClusters + 1 := by
    refine forall₂_congr fun c hc => and_iff_right ?_
    exact UInt32.le_iff_toNat_le.mp (two_le_of_mem_sourceExtent hcs hc)
  rw [hheap]
  cases source with
  | fixedRoot => simp [sourceExtent, StaysInHeap]
  | chain first size contiguous =>
    rw [sourceExtent, extentOf, StaysInHeap]
    dsimp only
    by_cases h2 : first < 2
    · simp [clusters, h2]
    rw [or_iff_right h2]
    have h2 := UInt32.not_lt.mp h2
    by_cases hcont : contiguous = true ∧ size > 0
    · obtain ⟨rfl, hsize⟩ := hcont
      have hpos : 0 < divCeil size.toNat fs.geom.clusterSize :=
        divCeil_pos hcs (size_pos.mp hsize)
      rw [if_pos ⟨rfl, hsize⟩, clusters_contiguous h2 hsize, hmax,
        forall_mem_contiguous_iff hpos h2]
    · rw [if_neg hcont, clusters, if_neg (UInt32.not_lt.mpr h2), if_neg hcont, hmax,
        forall_mem_followChain_iff h2]

/-! ## Offsets in the region -/

/-- Positions along clusters of the heap have offsets in the region. -/
lemma inRegion_of_position (hvalid : fs.geom.Valid) {chain : List UInt32}
    (hchain : ∀ c ∈ chain, fs.geom.InHeap c) {p o : ℕ} (h : fs.position chain p = some o) :
    fs.geom.InRegion o := by
  rw [position, Option.bind_eq_some_iff] at h
  obtain ⟨c, hc, ho⟩ := h
  have hheap := hchain c (List.mem_of_getElem? hc)
  have hle := hheap.mul_add_le
  have hmod := Nat.mod_lt p hvalid.clusterSize_pos
  rw [hvalid.clusterOffset_eq hheap.two_le, Option.map_some, Option.some.injEq] at ho
  subst ho
  constructor <;> omega

/-- Clusters of the heap have runs in the region. -/
lemma runsFrom_mem_region (hvalid : fs.geom.Valid) {chain : List UInt32}
    (hchain : ∀ c ∈ chain, fs.geom.InHeap c) {total : ℕ} {r : ℕ × ℕ}
    (hr : r ∈ fs.runsFrom chain total []) :
    fs.geom.dataStart ≤ r.1 ∧
      r.1 + r.2 ≤ fs.geom.dataStart + fs.geom.countOfClusters * fs.geom.clusterSize := by
  have h2 : ∀ c ∈ chain, 2 ≤ c := fun c hc => (hchain c hc).two_le
  refine range_mem_of_addresses (fun a ha => ?_) hr
    (pos_of_mem_runsFrom hvalid.clusterSize_pos r hr)
  have hsome : some a ∈ (addresses (fs.runsFrom chain total [])).map some :=
    List.mem_map_of_mem ha
  rw [addresses_runsFrom hvalid h2, addresses_nil, List.map_nil, List.nil_append,
    List.mem_map] at hsome
  obtain ⟨p, -, hp⟩ := hsome
  exact inRegion_of_position hvalid hchain hp

/-- **Containment.**  On every opened image, the content of a node lies in the cluster heap
exactly when the numbers stored for its extent stay there. -/
theorem contained_iff {img : List UInt8} (hopen : openImage img = .ok fs) (id : FileId) :
    fs.Contained id ↔ ∀ source, fs.dataSource id = .ok source → fs.StaysInHeap source := by
  have hvalid := openImage_valid hopen
  have hstays := forall_mem_sourceExtent_iff hvalid.clusterSize_pos (openImage_ok hopen).maxClusters
  constructor
  · intro h source hsource
    rw [← hstays]
    by_cases hnil : (fs.sourceExtent source).1 = []
    · simp [hnil]
    · exact (h _ _ (dataExtent_ok.mpr ⟨source, hsource, rfl⟩) hnil).1
  · intro h chain total hextent hne
    obtain ⟨source, hsource, he⟩ := dataExtent_ok.mp hextent
    have hchain := (hstays source).mpr (h source hsource)
    rw [he] at hchain
    refine ⟨hchain, ?_, ?_⟩
    · intro runs hruns r hr
      rw [runs_eq hextent, if_neg hne, Except.ok.injEq] at hruns
      subst hruns
      exact runsFrom_mem_region hvalid hchain hr
    · intro off buf n out hread k hk
      rw [readAt_eq_run hopen hextent, Except.ok.injEq, Prod.mk.injEq] at hread
      obtain ⟨rfl, rfl⟩ := hread
      have hbyte := getElem?_run hk
      rw [List.getElem?_eq_getElem hk, eq_comm, byteAt, Option.bind_eq_some_iff] at hbyte
      obtain ⟨o, ho, hbyte⟩ := hbyte
      refine ⟨o, ho, inRegion_of_position hvalid hchain ho, ?_⟩
      rw [getElem?_overwrite_zero hk, hbyte, List.getElem?_eq_getElem hk]

/-- The two-cluster file lies in the heap. -/
theorem contained_twoClusterFile : twoClusterFile.reader.Contained (.entry 2 0) := by
  have hvolume : twoClusterFile.reader.dataSource (.entry 2 0) = .ok (.chain 4 521 false) ∧
      (followChain twoClusterFile.reader.fat twoClusterFile.reader.geom.variant
        4 (twoClusterFile.reader.geom.countOfClusters + 2)).all
        (fun c => c.toNat ≤ twoClusterFile.reader.geom.countOfClusters + 1) = true := by
    decide +kernel
  obtain ⟨hchain, hall⟩ := hvolume
  refine (contained_iff twoClusterFile.openImage_image _).mpr fun source hsource => ?_
  rw [hchain, Except.ok.injEq] at hsource
  subst hsource
  refine Or.inr ((forall_mem_followChain_iff (by decide) _).mp fun c hc => ?_)
  exact of_decide_eq_true (List.all_eq_true.mp hall c hc)

/-- A FAT12 volume of one cluster, number 2, whose FAT entry points to cluster 3: the sector
behind the declared volume. -/
def spill : Synth.Volume where
  image := Synth.bpb 1 16 4 0 ++ Synth.sectors 1 [0xF8, 0xFF, 0xFF, 3, 0]
    ++ Synth.sectors 1 (Synth.shortEntry (Synth.name 0x41) 0x20 2 1024)
    ++ List.replicate 512 8 ++ List.replicate 512 9
  opens := by decide +kernel

/-- **Content can come from outside the cluster heap.**  The file of `spill` continues in the
sector behind the volume. -/
theorem not_contained_spill :
    ¬ ∀ (img : List UInt8) (fs : FatFs), openImage img = .ok fs →
      ∀ id, fs.Listed id → fs.Contained id := by
  intro h
  have hvolume : spill.reader.readDir .root = .ok (spill.listing .root) ∧
      .entry FIXED_ROOT 0 ∈ (spill.listing .root).map Node.id ∧
      spill.reader.dataExtent (.entry FIXED_ROOT 0) = .ok ([2, 3], 1024) ∧
      spill.reader.geom.countOfClusters = 1 := by
    decide +kernel
  obtain ⟨hdir, hmem, hextent, hcount⟩ := hvolume
  have hlisted : spill.reader.Listed (.entry FIXED_ROOT 0) := Or.inr ⟨.root, _, hdir, hmem⟩
  have hheap := (h _ _ spill.openImage_image _ hlisted _ _ hextent
    (by simp)).1 3 (by simp)
  exact absurd (hcount ▸ hheap.2) (by decide)

end FatFs
end FatForensic
