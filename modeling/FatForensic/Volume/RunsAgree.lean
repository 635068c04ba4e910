import FatForensic.Volume.Containment

/-!
# When the runs of a node hold its bytes

`runs` lists where the bytes of a node lie, `read_at` delivers them.  The two read the same
extent, but `runs` claims the root region for everything without a cluster list, and goes on
behind a cluster that the image does not hold, where `read_at` stops.
-/

namespace FatForensic
namespace FatFs

open Extent Window

/-- The image bytes of a run list. -/
def runBytes (fs : FatFs) (runs : List (ℕ × ℕ)) : List UInt8 :=
  runs.flatMap fun r => slice fs.image r.1 r.2

/-- Reading `id` whole delivers the image bytes of its runs. -/
def RunsAgree (fs : FatFs) (id : FileId) : Prop :=
  ∀ runs chain total buf, fs.runs id = .ok runs → fs.dataExtent id = .ok (chain, total) →
    buf.length = total →
    ∃ n out, fs.readAt id 0 buf = .ok (n, out) ∧ out.take n = fs.runBytes runs

/-- Whether a cluster starts inside the image. -/
def startsCluster (fs : FatFs) (c : UInt32) : Bool :=
  (fs.geom.clusterOffset c).any (· < fs.image.length)

/-- What lies at the root region is claimed for no source, and no cluster of the extent that
starts inside the image and the size comes after one that the image does not hold whole. -/
def HasNoGap (fs : FatFs) : DirSource → Prop
  | .fixedRoot => fs.geom.rootDirBytes = 0 ∨ fs.image.length ≤ fs.geom.rootDirStart
  | .chain first size contiguous =>
    if first < 2 then size = 0 ∨ fs.image.length ≤ fs.geom.rootDirStart
    else ∀ i j c d, i < j → (size = 0 ∨ j * fs.geom.clusterSize < size.toNat) →
      fs.clusterAt (.chain first size contiguous) i = some c →
      fs.clusterAt (.chain first size contiguous) j = some d →
      fs.startsCluster d → fs.holdsCluster c

variable {fs : FatFs}

/-! ## Bytes and clusters -/

lemma startsCluster_eq {c : UInt32} {base : ℕ} (h : fs.geom.clusterOffset c = some base) :
    fs.startsCluster c = true ↔ base < fs.image.length := by
  rw [startsCluster, h, Option.any_some, decide_eq_true_iff]

/-- No byte is stored behind a missing one exactly when no cluster that starts inside the image
comes after one that the image does not hold whole. -/
lemma forall_byteAt_iff (hvalid : fs.geom.Valid) {chain : List UInt32}
    (hchain : ∀ c ∈ chain, 2 ≤ c) (total : ℕ) :
    (∀ p q, p < q → q < min total (chain.length * fs.geom.clusterSize) →
      (fs.byteAt chain q).isSome → (fs.byteAt chain p).isSome) ↔
      ∀ i j c d, i < j → j * fs.geom.clusterSize < total → chain[i]? = some c →
        chain[j]? = some d → fs.startsCluster d → fs.holdsCluster c := by
  have hcs := hvalid.clusterSize_pos
  have hbase : ∀ i c, chain[i]? = some c → ∃ base, fs.geom.clusterOffset c = some base :=
    fun i c hc => ⟨_, hvalid.clusterOffset_eq (hchain c (List.mem_of_getElem? hc))⟩
  constructor
  · intro h i j c d hij hj hc hd hstarts
    obtain ⟨base, hbc⟩ := hbase i c hc
    obtain ⟨base', hbd⟩ := hbase j d hd
    rw [holdsCluster_eq hbc]
    rw [startsCluster_eq hbd] at hstarts
    -- the first byte of `d` comes after the last one of `c`
    have hmul : (i + 1) * fs.geom.clusterSize ≤ j * fs.geom.clusterSize :=
      Nat.mul_le_mul_right _ hij
    have hlen : j * fs.geom.clusterSize < chain.length * fs.geom.clusterSize :=
      Nat.mul_lt_mul_of_pos_right (List.getElem?_eq_some_iff.mp hd).1 hcs
    rw [Nat.succ_mul] at hmul
    have hdiv : (i * fs.geom.clusterSize + (fs.geom.clusterSize - 1)) / fs.geom.clusterSize
        = i := by
      rw [Nat.mul_comm, Nat.mul_add_div hcs, Nat.div_eq_of_lt (by omega), Nat.add_zero]
    have hmod : (i * fs.geom.clusterSize + (fs.geom.clusterSize - 1)) % fs.geom.clusterSize
        = fs.geom.clusterSize - 1 := by
      rw [Nat.mul_comm, Nat.mul_add_mod, Nat.mod_eq_of_lt (by omega)]
    have hlast := h (i * fs.geom.clusterSize + (fs.geom.clusterSize - 1))
      (j * fs.geom.clusterSize) (by omega) (by omega) ?_
    · rw [byteAt_eq (by rw [hdiv, hc]) hbc, hmod, isSome_getElem?] at hlast
      omega
    · rw [byteAt_eq (by rw [Nat.mul_div_cancel _ hcs, hd]) hbd, Nat.mul_mod_left, Nat.add_zero,
        isSome_getElem?]
      exact hstarts
  · intro h p q hpq hq hsome
    obtain ⟨c, hc⟩ : ∃ c, chain[p / fs.geom.clusterSize]? = some c :=
      ⟨_, List.getElem?_eq_getElem ((Nat.div_lt_iff_lt_mul hcs).mpr (by omega))⟩
    obtain ⟨d, hd⟩ : ∃ d, chain[q / fs.geom.clusterSize]? = some d :=
      ⟨_, List.getElem?_eq_getElem ((Nat.div_lt_iff_lt_mul hcs).mpr (by omega))⟩
    obtain ⟨base, hbc⟩ := hbase _ c hc
    obtain ⟨base', hbd⟩ := hbase _ d hd
    rw [byteAt_eq hd hbd, isSome_getElem?] at hsome
    rw [byteAt_eq hc hbc, isSome_getElem?]
    have hp := Nat.div_add_mod p fs.geom.clusterSize
    have hq' := Nat.div_add_mod q fs.geom.clusterSize
    have hpmod := Nat.mod_lt p hcs
    rcases Nat.eq_or_lt_of_le (Nat.div_le_div_right (c := fs.geom.clusterSize) hpq.le) with
      heq | hlt
    · -- both lie in one cluster
      rw [heq, hd, Option.some.injEq] at hc
      subst hc
      rw [hbd, Option.some.injEq] at hbc
      subst hbc
      rw [heq] at hp
      omega
    · have hholds := h _ _ c d hlt (by rw [Nat.mul_comm]; omega) hc hd
        ((startsCluster_eq hbd).mpr (by omega))
      rw [holdsCluster_eq hbc] at hholds
      omega

/-! ## Both readings of an extent -/

/-- `read_at` delivers the run of the whole extent. -/
lemma readAt_whole {img : List UInt8} (hopen : openImage img = .ok fs) {id : FileId}
    {chain : List UInt32} {total : ℕ} (h : fs.dataExtent id = .ok (chain, total))
    {buf : List UInt8} (hbuf : buf.length = total) :
    ∃ n out, fs.readAt id 0 buf = .ok (n, out) ∧ out.take n = run (fs.byteAt chain) 0 total := by
  have hread := readAt_eq_run hopen h 0 buf
  rw [hbuf, Nat.zero_add, Nat.min_self, Nat.sub_zero] at hread
  refine ⟨_, _, hread, ?_⟩
  rw [overwrite_zero, List.take_left]

/-- The runs of clusters hold all bytes that are stored along them. -/
lemma runBytes_runsFrom (hvalid : fs.geom.Valid) {chain : List UInt32}
    (hchain : ∀ c ∈ chain, 2 ≤ c) (total : ℕ) :
    fs.runBytes (fs.runsFrom chain total []) =
      (List.range' 0 (min total (chain.length * fs.geom.clusterSize))).filterMap
        (fs.byteAt chain) := by
  have haddr := addresses_runsFrom hvalid hchain total []
  rw [addresses_nil, List.map_nil, List.nil_append] at haddr
  rw [runBytes, flatMap_slice_eq_filterMap, ← List.range_eq_range']
  calc (addresses (fs.runsFrom chain total [])).filterMap (fs.image[·]?)
      = ((addresses (fs.runsFrom chain total [])).map some).filterMap
          (·.bind (fs.image[·]?)) := by rw [List.filterMap_map]; rfl
    _ = _ := by rw [haddr, List.filterMap_map]; rfl

lemma slice_eq_nil_iff {xs : List UInt8} {off len : ℕ} :
    slice xs off len = [] ↔ len = 0 ∨ xs.length ≤ off := by
  rw [← List.length_eq_zero_iff, length_slice]
  omega

/-- Without clusters nothing is read, and the root region is claimed. -/
lemma run_eq_runBytes_root_iff (total : ℕ) :
    run (fs.byteAt []) 0 total =
      fs.runBytes (if total = 0 then [] else [(fs.geom.rootDirStart, total)]) ↔
      total = 0 ∨ fs.image.length ≤ fs.geom.rootDirStart := by
  rw [run_succ_none rfl total, eq_comm]
  by_cases hn : total = 0
  · simp [hn, runBytes]
  · rw [if_neg hn, runBytes, List.flatMap_singleton, slice_eq_nil_iff]

/-- Behind the last cluster there is nothing to read. -/
lemma run_byteAt_min (hcs : 0 < fs.geom.clusterSize) (chain : List UInt32) (total : ℕ) :
    run (fs.byteAt chain) 0 total =
      run (fs.byteAt chain) 0 (min total (chain.length * fs.geom.clusterSize)) := by
  have hend : fs.byteAt chain (0 + chain.length * fs.geom.clusterSize) = none := by
    refine byteAt_of_getElem?_eq_none (List.getElem?_eq_none ?_)
    rw [Nat.zero_add, Nat.mul_div_cancel _ hcs]
  by_cases hle : total ≤ chain.length * fs.geom.clusterSize
  · rw [Nat.min_eq_left hle]
  · rw [Nat.min_eq_right (by omega), run_eq_of_none hend (by omega)]

/-- Along clusters, reading an extent and its runs gives the same bytes exactly when no cluster
that starts inside the image comes after one that the image does not hold whole. -/
lemma run_eq_runBytes_iff (hvalid : fs.geom.Valid) {chain : List UInt32}
    (hchain : ∀ c ∈ chain, 2 ≤ c) (total : ℕ) :
    run (fs.byteAt chain) 0 total = fs.runBytes (fs.runsFrom chain total []) ↔
      ∀ i j c d, i < j → j * fs.geom.clusterSize < total → chain[i]? = some c →
        chain[j]? = some d → fs.startsCluster d → fs.holdsCluster c := by
  rw [runBytes_runsFrom hvalid hchain, run_byteAt_min hvalid.clusterSize_pos, eq_comm,
    filterMap_range'_eq_run_iff, ← forall_byteAt_iff hvalid hchain total]
  simp only [Nat.zero_add, Nat.zero_le, forall_const]

/-! ## Sources -/

/-- A position in the cluster list lies inside the length of the extent exactly when the size,
if there is one, goes so far. -/
lemma mul_lt_total_iff (hcs : 0 < fs.geom.clusterSize) {first : UInt32} {size : UInt64}
    {contiguous : Bool} {j : ℕ} {d : UInt32}
    (hd : (fs.extentOf first size contiguous).1[j]? = some d) :
    j * fs.geom.clusterSize < (fs.extentOf first size contiguous).2 ↔
      size = 0 ∨ j * fs.geom.clusterSize < size.toNat := by
  have hlt : j * fs.geom.clusterSize < (fs.clusters first size contiguous).length
      * fs.geom.clusterSize :=
    Nat.mul_lt_mul_of_pos_right (List.getElem?_eq_some_iff.mp hd).1 hcs
  rw [extentOf, if_congr size_pos rfl rfl, size_eq_zero]
  dsimp only
  split <;> omega

/-- Reading a source and its runs gives the same bytes exactly when it has no gap. -/
lemma sourceRuns_agree_iff (hvalid : fs.geom.Valid) (hmax : 0 < fs.maxClusters)
    (source : DirSource) {chain : List UInt32} {total : ℕ}
    (he : fs.sourceExtent source = (chain, total)) :
    run (fs.byteAt chain) 0 total = fs.runBytes (if chain = [] then
      if total = 0 then [] else [(fs.geom.rootDirStart, total)]
      else fs.runsFrom chain total []) ↔ fs.HasNoGap source := by
  have hcs := hvalid.clusterSize_pos
  cases source with
  | fixedRoot =>
    obtain ⟨rfl, rfl⟩ := Prod.mk.injEq _ _ _ _ ▸ he
    rw [if_pos rfl, HasNoGap, run_eq_runBytes_root_iff]
  | chain first size contiguous =>
    have hchain : ∀ c ∈ chain, 2 ≤ c := by
      intro c hc
      have hmem : c ∈ (fs.sourceExtent (.chain first size contiguous)).1 := by rwa [he]
      exact two_le_of_mem_sourceExtent hcs hmem
    have hclusters := getElem?_sourceExtent hcs (.chain first size contiguous)
    have hinside : ∀ j d, chain[j]? = some d → (j * fs.geom.clusterSize < total ↔
        size = 0 ∨ j * fs.geom.clusterSize < size.toNat) := by
      intro j d hd
      have hext : fs.extentOf first size contiguous = (chain, total) := he
      have hj : (fs.extentOf first size contiguous).1[j]? = some d := by rwa [hext]
      have hiff := mul_lt_total_iff hcs hj
      rwa [hext] at hiff
    rw [he] at hclusters
    dsimp only at hclusters
    rw [HasNoGap]
    by_cases h2 : first < 2
    · rw [sourceExtent, extentOf, clusters, if_pos h2, Prod.mk.injEq] at he
      obtain ⟨rfl, rfl⟩ := he
      rw [if_pos rfl, if_pos h2, run_eq_runBytes_root_iff, List.length_nil, Nat.zero_mul,
        if_congr size_pos rfl rfl, size_eq_zero]
      refine or_congr_left ?_
      split <;> omega
    · have hne : chain ≠ [] := by
        rw [show chain = fs.clusters first size contiguous from (congrArg Prod.fst he).symm]
        exact clusters_ne_nil hmax h2 hcs
      rw [if_neg hne, if_neg h2, run_eq_runBytes_iff hvalid hchain]
      simp only [← hclusters]
      constructor
      · intro h i j c d hij hj hc hd
        exact h i j c d hij ((hinside j d hd).mpr hj) hc hd
      · intro h i j c d hij hj hc hd
        exact h i j c d hij ((hinside j d hd).mp hj) hc hd

/-- **Runs and reads.**  On every opened image, reading a node whole delivers the image bytes of
its runs exactly when its extent has no gap. -/
theorem runsAgree_iff {img : List UInt8} (hopen : openImage img = .ok fs) (id : FileId) :
    fs.RunsAgree id ↔ ∀ source, fs.dataSource id = .ok source → fs.HasNoGap source := by
  have hvalid := openImage_valid hopen
  have hmax : 0 < fs.maxClusters := by rw [(openImage_ok hopen).maxClusters]; omega
  constructor
  · intro h source hsource
    obtain ⟨⟨chain, total⟩, he⟩ : ∃ e, fs.sourceExtent source = e := ⟨_, rfl⟩
    have hextent := dataExtent_ok.mpr ⟨source, hsource, he⟩
    rw [← sourceRuns_agree_iff hvalid hmax source he]
    obtain ⟨n, out, hread, hout⟩ := readAt_whole hopen hextent (List.length_replicate (a := 0))
    obtain ⟨n', out', hread', hout'⟩ := h _ _ _ _ (runs_eq hextent) hextent
      (List.length_replicate (a := 0))
    rw [hread, Except.ok.injEq, Prod.mk.injEq] at hread'
    obtain ⟨rfl, rfl⟩ := hread'
    rw [← hout, hout']
  · intro h runs chain total buf hruns hextent hbuf
    obtain ⟨source, hsource, he⟩ := dataExtent_ok.mp hextent
    obtain ⟨n, out, hread, hout⟩ := readAt_whole hopen hextent hbuf
    refine ⟨n, out, hread, ?_⟩
    rw [runs_eq hextent, Except.ok.injEq] at hruns
    rw [hout, (sourceRuns_agree_iff hvalid hmax source he).mpr (h source hsource), hruns]

/-! ## Extents without a gap -/

/-- Clusters that the image holds whole leave no gap. -/
lemma hasNoGap_of_holdsCluster (hcs : 0 < fs.geom.clusterSize) {first : UInt32} {size : UInt64}
    {contiguous : Bool} (h2 : 2 ≤ first)
    (hall : ∀ c ∈ (fs.sourceExtent (.chain first size contiguous)).1, fs.holdsCluster c) :
    fs.HasNoGap (.chain first size contiguous) := by
  rw [HasNoGap, if_neg (UInt32.not_lt.mpr h2)]
  intro i _ c _ _ _ hc _ _
  exact hall c ((mem_sourceExtent hcs).mpr ⟨i, hc⟩)

/-- The runs of the two-cluster file hold its bytes. -/
theorem runsAgree_twoClusterFile : twoClusterFile.reader.RunsAgree (.entry 2 0) := by
  have hvolume : twoClusterFile.reader.dataSource (.entry 2 0) = .ok (.chain 4 521 false) ∧
      0 < twoClusterFile.reader.geom.clusterSize ∧
      (twoClusterFile.reader.sourceExtent (.chain 4 521 false)).1.all
        twoClusterFile.reader.holdsCluster = true := by
    decide +kernel
  obtain ⟨hchain, hcs, hall⟩ := hvolume
  refine (runsAgree_iff twoClusterFile.openImage_image _).mpr fun source hsource => ?_
  rw [hchain, Except.ok.injEq] at hsource
  subst hsource
  exact hasNoGap_of_holdsCluster hcs (by decide) (List.all_eq_true.mp hall)

/-- A FAT12 volume of one cluster whose root lists a file without a cluster, of size 5. -/
def hollow : Synth.Volume where
  image := Synth.bpb 1 16 4 0 ++ Synth.sectors 1 [0xF8, 0xFF, 0xFF]
    ++ Synth.sectors 1 (Synth.shortEntry (Synth.name 0x41) 0x20 0 5) ++ Synth.sectors 1 []
  opens := by decide +kernel

/-- **Runs can claim bytes that are not the node's data.**  The file of `hollow` has the first
five bytes of the root directory as its run, and none of them is read. -/
theorem not_runsAgree_hollow :
    ¬ ∀ (img : List UInt8) (fs : FatFs), openImage img = .ok fs →
      fs.geom.dataStart + fs.geom.countOfClusters * fs.geom.clusterSize ≤ img.length →
      fs.geom.rootDirStart + fs.geom.rootDirBytes ≤ img.length →
      ∀ id, fs.Listed id → fs.RunsAgree id := by
  intro h
  have hvolume : hollow.reader.readDir .root = .ok (hollow.listing .root) ∧
      .entry FIXED_ROOT 0 ∈ (hollow.listing .root).map Node.id ∧
      hollow.reader.geom.dataStart
        + hollow.reader.geom.countOfClusters * hollow.reader.geom.clusterSize
          ≤ hollow.image.length ∧
      hollow.reader.geom.rootDirStart + hollow.reader.geom.rootDirBytes ≤ hollow.image.length ∧
      hollow.reader.runs (.entry FIXED_ROOT 0) = .ok [(1024, 5)] ∧
      hollow.reader.dataExtent (.entry FIXED_ROOT 0) = .ok ([], 5) ∧
      hollow.reader.readAt (.entry FIXED_ROOT 0) 0 (List.replicate 5 0)
        = .ok (0, List.replicate 5 0) ∧
      hollow.reader.runBytes [(1024, 5)] = [0x41, 0x41, 0x41, 0x41, 0x41] := by
    decide +kernel
  obtain ⟨hdir, hmem, hdata, hroot, hruns, hextent, hread, hbytes⟩ := hvolume
  have hlisted : hollow.reader.Listed (.entry FIXED_ROOT 0) := Or.inr ⟨.root, _, hdir, hmem⟩
  obtain ⟨n, out, hread', hout⟩ := h _ _ hollow.openImage_image hdata hroot _ hlisted _ _ _
    (List.replicate 5 0) hruns hextent rfl
  rw [hread, Except.ok.injEq, Prod.mk.injEq] at hread'
  obtain ⟨rfl, rfl⟩ := hread'
  rw [hbytes] at hout
  exact absurd hout (by simp)

end FatFs
end FatForensic
