import FatForensic.Lib.Extent
import FatForensic.Volume.Geometry
import FatForensic.Volume.Synth

/-!
# What `read_at` delivers

The bytes of a node are those of its extent: logical position `p` is byte `p % cs` of the
cluster `chain[p / cs]`.  `read_at` delivers the longest run of consecutive positions that
the chain reaches and the image holds, and touches nothing else of the buffer.
-/

namespace FatForensic
namespace FatFs

open Window Extent

variable (fs : FatFs)

/-- The image offset of logical position `p` along a cluster list. -/
def position (chain : List UInt32) (p : ℕ) : Option ℕ :=
  chain[p / fs.geom.clusterSize]?.bind fun c =>
    (fs.geom.clusterOffset c).map (· + p % fs.geom.clusterSize)

/-- The image byte at logical position `p` along a cluster list. -/
def byteAt (chain : List UInt32) (p : ℕ) : Option UInt8 :=
  (fs.position chain p).bind (fs.image[·]?)

variable {fs}

lemma readRegion_eq (off : ℕ) (buf : List UInt8) :
    fs.readRegion off buf =
      ((slice fs.image off buf.length).length,
        slice fs.image off buf.length ++ buf.drop (slice fs.image off buf.length).length) :=
  readFill_eq _ _ _

@[simp] lemma readRegionVec_eq (off len : ℕ) :
    fs.readRegionVec off len = slice fs.image off len :=
  readUpto_eq _ _ _

lemma byteAt_of_getElem?_eq_none {chain : List UInt32} {p : ℕ}
    (h : chain[p / fs.geom.clusterSize]? = none) : fs.byteAt chain p = none := by
  rw [byteAt, position, h]
  rfl

lemma byteAt_of_clusterOffset_eq_none {chain : List UInt32} {p : ℕ} {c : UInt32}
    (h : chain[p / fs.geom.clusterSize]? = some c) (ho : fs.geom.clusterOffset c = none) :
    fs.byteAt chain p = none := by
  rw [byteAt, position, h, Option.bind_some, ho]
  rfl

lemma byteAt_eq {chain : List UInt32} {p base : ℕ} {c : UInt32}
    (hc : chain[p / fs.geom.clusterSize]? = some c) (hbase : fs.geom.clusterOffset c = some base) :
    fs.byteAt chain p = fs.image[base + p % fs.geom.clusterSize]? := by
  rw [byteAt, position, hc, Option.bind_some, hbase, Option.map_some, Option.bind_some]

/-- Inside one cluster the extent is the window of the image at the cluster's offset. -/
lemma run_byteAt_within {chain : List UInt32} {pos len base : ℕ} {c : UInt32}
    (hcs : 0 < fs.geom.clusterSize) (hc : chain[pos / fs.geom.clusterSize]? = some c)
    (hbase : fs.geom.clusterOffset c = some base)
    (hlen : len ≤ fs.geom.clusterSize - pos % fs.geom.clusterSize) :
    run (fs.byteAt chain) pos len =
      slice fs.image (base + pos % fs.geom.clusterSize) len := by
  have hstep : ∀ i < len, fs.byteAt chain (pos + i)
      = fs.image[base + pos % fs.geom.clusterSize + i]? := by
    intro i hi
    obtain ⟨hdiv, hmod⟩ := div_mod_add_of_lt (i := i) hcs (lt_of_lt_of_le hi hlen)
    rw [byteAt_eq (by rw [hdiv, hc]) hbase, hmod, Nat.add_assoc]
  rw [← run_getElem?]
  exact run_congr hstep

/-- **The loop of `read_at`.**  From `pos` on it delivers the run of the extent up to `stop`,
written behind what was written before. -/
lemma readAtFrom_eq (hcs : 0 < fs.geom.clusterSize) (chain : List UInt32) (stop : ℕ) :
    ∀ (fuel pos written : ℕ) (buf : List UInt8), stop - pos ≤ fuel →
      written + (stop - pos) ≤ buf.length →
      fs.readAtFrom chain stop fuel pos written buf =
        (written + (run (fs.byteAt chain) pos (stop - pos)).length,
          overwrite buf written (run (fs.byteAt chain) pos (stop - pos))) := by
  intro fuel
  induction fuel with
  | zero =>
    intro pos written buf hfuel _
    have hzero : stop - pos = 0 := by omega
    simp [readAtFrom, hzero]
  | succ fuel ih =>
    intro pos written buf hfuel hbuf
    rw [readAtFrom]
    by_cases hpos : pos < stop
    swap
    · have hzero : stop - pos = 0 := by omega
      simp [if_neg hpos, hzero]
    rw [if_pos hpos]
    cases hc : chain[pos / fs.geom.clusterSize]? with
    | none => simp [run_succ_none (byteAt_of_getElem?_eq_none hc)]
    | some cluster =>
    dsimp only
    cases hbase : fs.geom.clusterOffset cluster with
    | none => simp [run_succ_none (byteAt_of_clusterOffset_eq_none hc hbase)]
    | some base =>
    dsimp only
    generalize hwant :
      min (stop - pos) (fs.geom.clusterSize - pos % fs.geom.clusterSize) = want
    have hmod := Nat.mod_lt pos hcs
    have hwindow : (slice buf written want).length = want := by
      rw [length_slice]
      omega
    rw [readRegion_eq, hwindow]
    -- what this round delivers is the run over the rest of the cluster
    generalize hgot : slice fs.image (base + pos % fs.geom.clusterSize) want = got
    have hrun : run (fs.byteAt chain) pos want = got := by
      rw [← hgot, run_byteAt_within hcs hc hbase (by omega)]
    have hgotle : got.length ≤ want := by
      rw [← hrun]
      exact length_run_le _ _
    dsimp only
    rw [overwrite_window hgotle (by omega)]
    split
    next h0 =>
      -- nothing delivered: the image holds no byte at `pos`
      have hnil : got = [] := List.eq_nil_of_length_eq_zero h0
      have hnone : fs.byteAt chain pos = none := by
        have hend : fs.byteAt chain (pos + (run (fs.byteAt chain) pos want).length) = none :=
          get_length_run (by rw [hrun]; omega)
        rwa [hrun, h0, Nat.add_zero] at hend
      simp [run_succ_none hnone, hnil]
    next h0 =>
      have hgotrun : run (fs.byteAt chain) pos got.length = got := by
        rw [← hrun, run_length_run]
      have hlen : (overwrite buf written got).length = buf.length := length_overwrite (by omega)
      rw [ih (pos + got.length) (written + got.length) _ (by omega) (by omega)]
      have hrest : stop - pos = got.length + (stop - (pos + got.length)) := by omega
      have hfull : (run (fs.byteAt chain) pos got.length).length = got.length := by rw [hgotrun]
      have hall := run_add_of_length hfull (stop - (pos + got.length))
      rw [← hrest, hgotrun] at hall
      rw [hall, overwrite_overwrite (by omega), List.length_append, Nat.add_assoc]

/-- Whether the image holds a cluster whole. -/
def holdsCluster (fs : FatFs) (c : UInt32) : Bool :=
  (fs.geom.clusterOffset c).any fun base => base + fs.geom.clusterSize ≤ fs.image.length

lemma holdsCluster_eq {c : UInt32} {base : ℕ} (h : fs.geom.clusterOffset c = some base) :
    fs.holdsCluster c = true ↔ base + fs.geom.clusterSize ≤ fs.image.length := by
  rw [holdsCluster, h, Option.any_some, decide_eq_true_iff]

/-- An extent is backed as far as the image holds its clusters whole. -/
lemma byteAt_isSome_of_holdsCluster (hcs : 0 < fs.geom.clusterSize) {chain : List UInt32} {p : ℕ}
    (hp : p < chain.length * fs.geom.clusterSize) (hall : ∀ c ∈ chain, fs.holdsCluster c) :
    (fs.byteAt chain p).isSome := by
  have hlt : p / fs.geom.clusterSize < chain.length := (Nat.div_lt_iff_lt_mul hcs).mpr hp
  have hholds := hall _ (List.getElem_mem hlt)
  obtain ⟨base, hbase, -⟩ := (Option.any_eq_true _ _).mp hholds
  rw [holdsCluster_eq hbase] at hholds
  have hmod := Nat.mod_lt p hcs
  rw [byteAt_eq (List.getElem?_eq_getElem hlt) hbase, isSome_getElem?]
  omega

/-! ## The extent of a node -/

lemma length_followChainFrom_le (fat : List UInt8) (variant : FatVariant) (fuel : ℕ)
    (start : UInt32) : (followChainFrom fat variant fuel start).length ≤ fuel := by
  induction fuel generalizing start with
  | zero => simp [followChainFrom]
  | succ fuel ih =>
    rw [followChainFrom]
    split
    · simp
    · dsimp only
      split
      · simp
      · exact Nat.succ_le_succ (ih _)

lemma length_clusters_le (firstCluster : UInt32) (size : UInt64) (contiguous : Bool) :
    (fs.clusters firstCluster size contiguous).length ≤ fs.maxClusters := by
  unfold clusters
  split
  · simp
  · split
    · refine (List.length_filterMap_le _ _).trans ?_
      simp
    · exact length_followChainFrom_le _ _ _ _

lemma dataExtent_root :
    fs.dataExtent .root =
      .ok (if fs.rootIsClustered then fs.extentOf fs.geom.rootCluster 0 false
        else ([], fs.geom.rootDirBytes)) := by
  rw [dataExtent, dirSource]
  by_cases h : fs.rootIsClustered = true
  · rw [if_pos h, if_pos h]
    rfl
  · rw [if_neg h, if_neg h]
    rfl

lemma dataExtent_entry_ok {d : UInt32} {i : UInt16} {e : List UInt32 × ℕ} :
    fs.dataExtent (.entry d i) = .ok e ↔
      ∃ node, fs.resolveEntry (.entry d i) = .ok node ∧
        fs.extentOf node.firstCluster node.size node.contiguous = e := by
  rw [dataExtent, bind_eq_ok]
  simp only [Except.ok.injEq]

/-- An extent is the fixed root region or one of `extent_of`. -/
lemma dataExtent_cases {id : FileId} {chain : List UInt32} {total : ℕ}
    (h : fs.dataExtent id = .ok (chain, total)) :
    (chain = [] ∧ total = fs.geom.rootDirBytes) ∨
      ∃ firstCluster size contiguous,
        fs.extentOf firstCluster size contiguous = (chain, total) := by
  cases id with
  | root =>
    rw [dataExtent_root, Except.ok.injEq] at h
    split at h
    · exact Or.inr ⟨_, _, _, h⟩
    · exact Or.inl (Prod.mk.injEq _ _ _ _ ▸ h.symm)
  | entry d i =>
    obtain ⟨node, -, he⟩ := dataExtent_entry_ok.mp h
    exact Or.inr ⟨_, _, _, he⟩

/-- The length of an extent fits the 64 bits the source computes it in. -/
lemma dataExtent_total_lt {img : List UInt8} (hopen : openImage img = .ok fs) {id : FileId}
    {chain : List UInt32} {total : ℕ} (h : fs.dataExtent id = .ok (chain, total)) :
    total < 2 ^ 64 := by
  have hvalid := openImage_valid hopen
  rcases dataExtent_cases h with ⟨-, rfl⟩ | ⟨first, size, contiguous, he⟩
  · have := hvalid.rootDirBytes_lt
    omega
  · rw [extentOf, Prod.mk.injEq] at he
    obtain ⟨rfl, rfl⟩ := he
    split
    · exact size.toNat_lt
    · have hlen : (fs.clusters first size contiguous).length ≤ fs.maxClusters :=
        length_clusters_le first size contiguous
      rw [(openImage_ok hopen).maxClusters] at hlen
      have hcount := hvalid.countOfClusters_lt
      calc (fs.clusters first size contiguous).length * fs.geom.clusterSize
          ≤ (2 ^ 32 + 2) * 2 ^ 25 := Nat.mul_le_mul (by omega) hvalid.clusterSize_le
        _ < 2 ^ 64 := by norm_num

/-- `read_at` delivers the run of the extent from `off` on, below the end of the buffer and
of the extent. -/
lemma readAt_eq_run_of_lt (hcs : 0 < fs.geom.clusterSize) {id : FileId} {chain : List UInt32}
    {total : ℕ} (htotal : total < 2 ^ 64) (h : fs.dataExtent id = .ok (chain, total)) (off : ℕ)
    (buf : List UInt8) :
    fs.readAt id off buf =
      .ok ((run (fs.byteAt chain) off (min (off + buf.length) total - off)).length,
        overwrite buf 0 (run (fs.byteAt chain) off (min (off + buf.length) total - off))) := by
  have hsat : min (saturatingAdd off buf.length) total = min (off + buf.length) total := by
    unfold saturatingAdd
    omega
  rw [readAt, h]
  simp only [bind, Except.bind]
  split
  next hoff =>
    have hzero : min (off + buf.length) total - off = 0 := by omega
    rw [hzero, run_zero, overwrite_nil, List.length_nil]
  next hoff =>
    rw [hsat, readAtFrom_eq hcs _ _ _ _ _ _ (le_refl _) (by omega), Nat.zero_add]

lemma readAt_eq_run {img : List UInt8} (hopen : openImage img = .ok fs) {id : FileId}
    {chain : List UInt32} {total : ℕ} (h : fs.dataExtent id = .ok (chain, total)) (off : ℕ)
    (buf : List UInt8) :
    fs.readAt id off buf =
      .ok ((run (fs.byteAt chain) off (min (off + buf.length) total - off)).length,
        overwrite buf 0 (run (fs.byteAt chain) off (min (off + buf.length) total - off))) :=
  readAt_eq_run_of_lt (openImage_valid hopen).clusterSize_pos (dataExtent_total_lt hopen h) h off
    buf

/-- **Exactness of `read_at`.**  On every opened image, `read_at` returns the length of the
longest run of consecutive logical positions from `off` on, below the end of the buffer and
of the extent, that the chain reaches and the image holds; it writes these image bytes to the
front of the buffer and leaves the rest of the buffer alone.  Where the whole extent is
backed, a read of `a + b` bytes delivers what a read of `a` bytes and a read of `b` bytes
after it deliver. -/
theorem readAt_exact {img : List UInt8} (hopen : openImage img = .ok fs) {id : FileId}
    {chain : List UInt32} {total : ℕ} (h : fs.dataExtent id = .ok (chain, total)) (off : ℕ)
    (buf : List UInt8) :
    (∃ n buf', fs.readAt id off buf = .ok (n, buf') ∧
      IsLongestRun (fun p => p < min (off + buf.length) total ∧ (fs.byteAt chain p).isSome)
        off n ∧
      (∀ k < n, buf'[k]? = fs.byteAt chain (off + k)) ∧
      ∀ k, n ≤ k → buf'[k]? = buf[k]?) ∧
    ((∀ p < total, (fs.byteAt chain p).isSome) →
      ∀ bufA bufB : List UInt8, buf.length = bufA.length + bufB.length →
        ∃ n m k out outA outB, fs.readAt id off buf = .ok (n, out) ∧
          fs.readAt id off bufA = .ok (m, outA) ∧
          fs.readAt id (off + bufA.length) bufB = .ok (k, outB) ∧
          out.take n = outA.take m ++ outB.take k) := by
  constructor
  · refine ⟨_, _, readAt_eq_run hopen h off buf, ?_, ?_, ?_⟩
    · have hrun : IsLongestRun (fun p => p < off + (min (off + buf.length) total - off) ∧
          (fs.byteAt chain p).isSome) off _ := isLongestRun_run off _
      refine ⟨fun i hi => ?_, fun hnot => hrun.2 ?_⟩
      · obtain ⟨hlt, hsome⟩ := hrun.1 i hi
        exact ⟨by omega, hsome⟩
      · exact ⟨by omega, hnot.2⟩
    · intro k hk
      rw [getElem?_overwrite_zero hk, getElem?_run hk]
    · intro k hk
      exact getElem?_overwrite_of_ge (Nat.zero_le _) (by omega)
  · intro hbacked bufA bufB hlen
    refine ⟨_, _, _, _, _, _, readAt_eq_run hopen h off buf, readAt_eq_run hopen h off bufA,
      readAt_eq_run hopen h (off + bufA.length) bufB, ?_⟩
    simp only [overwrite_zero, List.take_left]
    rw [hlen]
    -- the first read delivers all it asks for below `total`; the second goes on from there
    have hA : (run (fs.byteAt chain) off (min (off + bufA.length) total - off)).length
        = min (off + bufA.length) total - off := by
      apply length_run_of_isSome
      intro i hi
      exact hbacked _ (by omega)
    by_cases hend : off + bufA.length ≤ total
    · have h1 : min (off + bufA.length) total - off = bufA.length := by omega
      have h2 : min (off + (bufA.length + bufB.length)) total - off
          = bufA.length + (min (off + bufA.length + bufB.length) total - (off + bufA.length)) := by
        omega
      rw [h1] at hA ⊢
      rw [h2, run_add_of_length hA]
    · have h1 : min (off + bufA.length) total - off
          = min (off + (bufA.length + bufB.length)) total - off := by omega
      have h2 : min (off + bufA.length + bufB.length) total - (off + bufA.length) = 0 := by omega
      rw [h1, h2, run_zero, List.append_nil]

/-- A FAT32 volume whose root lists one file of 521 bytes in the clusters 4 and 5. -/
def twoClusterFile : Synth.Volume where
  image := Synth.bpb 1 0 70000 2 ++ Synth.table 4 [0, 0, 0x0FFFFFFF, 0, 5, 0x0FFFFFFF]
    ++ Synth.sectors 1 (Synth.shortEntry (Synth.name 0x41) 0x20 4 521)
    ++ Synth.sectors 1 [] ++ List.replicate 512 8 ++ List.replicate 512 9
  opens := by decide +kernel

/-- Reading over the cluster boundary of `twoClusterFile`, at once and in two parts. -/
theorem readAt_exact_twoClusterFile :
    ∃ n m k out outA outB,
      twoClusterFile.reader.readAt (.entry 2 0) 510 (List.replicate 5 0) = .ok (n, out) ∧
      twoClusterFile.reader.readAt (.entry 2 0) 510 (List.replicate 3 0) = .ok (m, outA) ∧
      twoClusterFile.reader.readAt (.entry 2 0) (510 + 3) (List.replicate 2 0)
        = .ok (k, outB) ∧
      out.take n = outA.take m ++ outB.take k := by
  have hvolume : twoClusterFile.reader.dataExtent (.entry 2 0) = .ok ([4, 5], 521) ∧
      0 < twoClusterFile.reader.geom.clusterSize ∧
      521 ≤ ([4, 5] : List UInt32).length * twoClusterFile.reader.geom.clusterSize ∧
      ([4, 5] : List UInt32).all twoClusterFile.reader.holdsCluster = true := by
    decide +kernel
  obtain ⟨hextent, hcs, hlen, hall⟩ := hvolume
  exact (readAt_exact twoClusterFile.openImage_image hextent 510 (List.replicate 5 0)).2
    (fun p hp => byteAt_isSome_of_holdsCluster hcs (lt_of_lt_of_le hp hlen)
      (List.all_eq_true.mp hall))
    (List.replicate 3 0) (List.replicate 2 0) rfl

end FatFs
end FatForensic
