import FatForensic.Core.CheckedFs
import FatForensic.Volume.FatTable
import FatForensic.Volume.Handles
import FatForensic.Volume.Runs

/-!
# The reader does not fault

The checked reader returns what the model of the reader returns, on every geometry that one of
the two boot parsers accepts, every FAT, and every extent that a directory can name.  The one
arm marked as unreachable that is not dead is the 64 MiB cap on the bytes of a directory.
-/

namespace FatForensic

open Window

/-! ## FAT chains -/

lemma checkedIsBad_eq (variant : FatVariant) (value : UInt32) :
    checkedIsBad variant value = .ok (isBad variant value) := by
  have hone : 1 ≤ (eocThreshold variant).toNat := by cases variant <;> decide
  have hnat : (eocThreshold variant - 1).toNat = (eocThreshold variant).toNat - 1 := by
    cases variant <;> rfl
  rw [checkedIsBad, Checked.sub_eq hone, Checked.ok_bind, isBad, ← hnat]
  congr 1
  rw [Bool.eq_iff_iff, beq_iff_eq, beq_iff_eq, UInt32.toNat_inj]

lemma checkedFollowChain_eq (fat : List UInt8) (variant : FatVariant) (start : UInt32)
    (maxClusters : ℕ) : checkedFollowChain fat variant maxClusters start
      = .ok (followChain fat variant start maxClusters) := by
  rw [followChain]
  induction maxClusters generalizing start with
  | zero => rfl
  | succ fuel ih =>
    rw [checkedFollowChain, followChainFrom]
    split
    · rfl
    · simp only [checkedIsBad_eq, Checked.ok_bind]
      split
      · rfl
      · rw [ih, Checked.ok_bind]

/-! ## Reads -/

lemma checkedReadFill_eq {img buf : List UInt8} {fuel pos filled : ℕ}
    (hfuel : buf.length - filled ≤ fuel) (hbuf : buf.length < 2 ^ 64) :
    checkedReadFill img fuel pos buf filled = .ok (readFillFrom img fuel pos buf filled) := by
  induction fuel generalizing pos buf filled with
  | zero => rw [checkedReadFill, if_neg (by omega), readFillFrom]
  | succ fuel ih =>
    rw [checkedReadFill, readFillFrom]
    by_cases hlt : filled < buf.length
    swap
    · rw [if_neg hlt, if_neg hlt]
    have hwindow : (slice buf filled (buf.length - filled)).length = buf.length - filled := by
      rw [length_slice]
      omega
    rw [if_pos hlt, if_pos hlt, Checked.range_eq hlt.le le_rfl, Checked.ok_bind]
    simp only [hwindow]
    -- a call never delivers more than there is room for
    have hgot : (cursorRead img pos (buf.length - filled)).length ≤ buf.length - filled := by
      rw [cursorRead, length_slice]
      omega
    generalize cursorRead img pos (buf.length - filled) = got at hgot
    by_cases hzero : got.length = 0
    · rw [if_pos hzero, if_pos hzero]
    · have hlen : (overwrite buf filled got).length = buf.length := length_overwrite (by omega)
      rw [if_neg hzero, if_neg hzero, Checked.add_eq (by omega), Checked.ok_bind,
        if_neg (by omega), ih (by omega) (by omega)]

namespace FatFs

variable {fs : FatFs}

/-- The read of a region fills a part of the buffer, whose length it keeps. -/
lemma readRegion_length (fs : FatFs) (off : ℕ) (buf : List UInt8) :
    (fs.readRegion off buf).1 ≤ buf.length ∧ (fs.readRegion off buf).2.length = buf.length := by
  rw [readRegion_eq]
  simp only [List.length_append, length_slice, List.length_drop]
  omega

lemma checkedReadFill_eq_readRegion {buf : List UInt8} {n : ℕ} (hn : buf.length = n)
    (hbuf : n < 2 ^ 64) (off : ℕ) :
    checkedReadFill fs.image n off buf 0 = .ok (fs.readRegion off buf) := by
  rw [checkedReadFill_eq (by omega) (by omega), readRegion, readFill, hn]

/-! ## Extents -/

/-- The bounds that acceptance puts on a reader. -/
structure Bounded (fs : FatFs) : Prop where
  valid : fs.geom.Valid
  maxClusters_le : fs.maxClusters ≤ 2 ^ 32 + 2

lemma Bounded.sector_le_clusterSize (h : fs.Bounded) : 512 ≤ fs.geom.clusterSize := by
  have hmem := h.valid.bytesPerSector_mem
  rw [h.valid.clusterSize_eq]
  simp only [List.mem_cons, List.not_mem_nil, or_false] at hmem
  calc 512 ≤ fs.geom.bytesPerSector := by omega
    _ ≤ _ := Nat.le_mul_of_pos_right _ h.valid.sectorsPerCluster_pos

/-- The end of a cluster fits 64 bits with room to spare. -/
lemma Bounded.clusterOffset (h : fs.Bounded) {c : UInt32} (hc : 2 ≤ c) :
    ∃ off, fs.geom.clusterOffset c = some off ∧ off + fs.geom.clusterSize < 2 ^ 60 := by
  refine ⟨_, h.valid.clusterOffset_eq hc, ?_⟩
  have hcs := h.valid.clusterSize_le
  have hds := h.valid.dataStart_lt
  have hmul : (c.toNat - 2) * fs.geom.clusterSize ≤ 2 ^ 32 * 2 ^ 25 :=
    Nat.mul_le_mul (by have := c.toNat_lt; omega) hcs
  omega

lemma Bounded.checkedClusters_eq (h : fs.Bounded) (first : UInt32) (size : UInt64)
    (contiguous : Bool) :
    fs.checkedClusters first size contiguous = .ok (fs.clusters first size contiguous) := by
  have hcs := h.sector_le_clusterSize
  have hsize := size.toNat_lt
  have hfirst := first.toNat_lt
  rw [checkedClusters, clusters]
  split
  · rfl
  split
  swap
  · exact checkedFollowChain_eq _ _ _ _
  -- clusters of 512 bytes and more leave a quotient of 55 bits at most
  have hquotient : size.toNat / fs.geom.clusterSize ≤ 2 ^ 55 := by
    rw [Nat.div_le_iff_le_mul_add_pred (by omega)]
    have := Nat.mul_le_mul_right (2 ^ 55) hcs
    omega
  have hceil : Checked.divCeil 64 size.toNat fs.geom.clusterSize
      = (.ok (divCeil size.toNat fs.geom.clusterSize) : Run ℕ) := by
    rw [Checked.divCeil, Checked.div_eq (by omega), Checked.ok_bind, Checked.rem_eq (by omega),
      Checked.ok_bind, divCeil]
    split
    · rfl
    · exact Checked.add_eq (by omega)
  have hle : divCeil size.toNat fs.geom.clusterSize ≤ 2 ^ 55 + 1 := by
    unfold divCeil
    split <;> omega
  rw [hceil, Checked.ok_bind, Checked.add_eq (by omega), Checked.ok_bind, Nat.add_sub_cancel_left]

lemma Bounded.length_mul_lt (h : fs.Bounded) (first : UInt32) (size : UInt64)
    (contiguous : Bool) :
    (fs.clusters first size contiguous).length * fs.geom.clusterSize < 2 ^ 64 := by
  have hlen : (fs.clusters first size contiguous).length ≤ fs.maxClusters :=
    length_clusters_le first size contiguous
  have hmax := h.maxClusters_le
  calc (fs.clusters first size contiguous).length * fs.geom.clusterSize
      ≤ (2 ^ 32 + 2) * 2 ^ 25 := Nat.mul_le_mul (by omega) h.valid.clusterSize_le
    _ < 2 ^ 64 := by norm_num

lemma Bounded.checkedExtentOf_eq (h : fs.Bounded) (first : UInt32) (size : UInt64)
    (contiguous : Bool) :
    fs.checkedExtentOf first size contiguous = .ok (fs.extentOf first size contiguous) := by
  rw [checkedExtentOf, h.checkedClusters_eq, Checked.ok_bind, extentOf]
  split
  · rfl
  · rw [Checked.mul_eq (h.length_mul_lt _ _ _), Checked.ok_bind]

lemma Bounded.checkedExtent_eq (h : fs.Bounded) (source : DirSource) :
    fs.checkedExtent source = .ok (fs.sourceExtent source) := by
  cases source with
  | fixedRoot => rfl
  | chain first size contiguous => exact h.checkedExtentOf_eq first size contiguous

lemma Bounded.sourceExtent_lt (h : fs.Bounded) (source : DirSource) :
    (fs.sourceExtent source).2 < 2 ^ 64 := by
  cases source with
  | fixedRoot =>
    have hlt : fs.geom.rootDirBytes < 2 ^ 32 := h.valid.rootDirBytes_lt
    rw [sourceExtent]
    omega
  | chain first size contiguous =>
    rw [sourceExtent, extentOf]
    dsimp only
    split
    · exact size.toNat_lt
    · exact h.length_mul_lt first size contiguous

/-! ## Runs -/

/-- The last run ends where the data of the last cluster ends. -/
lemma checkedPushRun_eq {runs : List (ℕ × ℕ)} {off len : ℕ} (hoff : off + len < 2 ^ 60)
    (hlast : ∀ last ∈ runs.getLast?, last.1 + last.2 < 2 ^ 60) :
    checkedPushRun runs off len = .ok (pushRun runs off len) ∧
      ∀ last ∈ (pushRun runs off len).getLast?, last.1 + last.2 < 2 ^ 60 := by
  rw [checkedPushRun, pushRun]
  cases hruns : runs.getLast? with
  | none =>
    refine ⟨rfl, ?_⟩
    simpa using hoff
  | some last =>
    have hend := hlast last hruns
    dsimp only
    rw [Checked.add_eq (by omega), Checked.ok_bind]
    split
    next hmeet =>
      rw [Checked.add_eq (by omega), Checked.ok_bind]
      refine ⟨rfl, ?_⟩
      simp only [List.getLast?_concat, Option.mem_def, Option.some.injEq]
      rintro _ rfl
      omega
    next =>
      refine ⟨rfl, ?_⟩
      simpa using hoff

lemma Bounded.checkedRunsFrom_eq (h : fs.Bounded) {chain : List UInt32}
    (hchain : ∀ c ∈ chain, 2 ≤ c) {remaining : ℕ} {runs : List (ℕ × ℕ)}
    (hlast : ∀ last ∈ runs.getLast?, last.1 + last.2 < 2 ^ 60) :
    fs.checkedRunsFrom chain remaining runs = .ok (fs.runsFrom chain remaining runs) := by
  induction chain generalizing remaining runs with
  | nil => rfl
  | cons c rest ih =>
    rw [List.forall_mem_cons] at hchain
    obtain ⟨off, hoff, hlt⟩ := h.clusterOffset hchain.1
    rw [checkedRunsFrom, runsFrom]
    split
    · rfl
    · simp only [hoff]
      have hend : off + min fs.geom.clusterSize remaining < 2 ^ 60 := by omega
      obtain ⟨hpush, hnext⟩ := checkedPushRun_eq hend hlast
      rw [Checked.sub_eq (Nat.min_le_right _ _), Checked.ok_bind, hpush, Checked.ok_bind]
      exact ih hchain.2 hnext

/-! ## The loop of `read_at` -/

lemma Bounded.checkedReadAtFrom_eq (h : fs.Bounded) {chain : List UInt32}
    (hchain : ∀ c ∈ chain, 2 ≤ c) {stop : ℕ} (hstop : stop < 2 ^ 64) {fuel pos written : ℕ}
    {buf : List UInt8} (hfuel : stop - pos ≤ fuel) (hroom : written + (stop - pos) ≤ buf.length)
    (hbuf : buf.length < 2 ^ 64) :
    fs.checkedReadAtFrom chain stop fuel pos written buf
      = .ok (fs.readAtFrom chain stop fuel pos written buf) := by
  have hcs := h.sector_le_clusterSize
  induction fuel generalizing pos written buf with
  | zero => rw [checkedReadAtFrom, if_neg (by omega), readAtFrom]
  | succ fuel ih =>
    rw [checkedReadAtFrom, readAtFrom]
    by_cases hpos : pos < stop
    swap
    · rw [if_neg hpos, if_neg hpos]
    rw [if_pos hpos, if_pos hpos, Checked.div_eq (by omega), Checked.ok_bind]
    cases hc : chain[pos / fs.geom.clusterSize]? with
    | none => rfl
    | some cluster =>
    obtain ⟨base, hbase, hlt⟩ := h.clusterOffset (hchain cluster (List.mem_of_getElem? hc))
    simp only [hbase]
    have hmod := Nat.mod_lt pos (by omega : 0 < fs.geom.clusterSize)
    rw [Checked.rem_eq (by omega), Checked.ok_bind, Checked.sub_eq hmod.le, Checked.ok_bind,
      Checked.sub_eq hpos.le, Checked.ok_bind]
    generalize hwant :
      min (stop - pos) (fs.geom.clusterSize - pos % fs.geom.clusterSize) = want
    rw [Checked.add_eq (by omega), Checked.ok_bind, Checked.add_eq (by omega), Checked.ok_bind,
      Checked.range_eq (by omega) (by omega), Checked.ok_bind, Nat.add_sub_cancel_left]
    have hwindow : (slice buf written want).length = want := by
      rw [length_slice]
      omega
    rw [checkedReadFill_eq_readRegion rfl (by omega), Checked.ok_bind]
    obtain ⟨hgot, hout⟩ :=
      fs.readRegion_length (base + pos % fs.geom.clusterSize) (slice buf written want)
    generalize fs.readRegion (base + pos % fs.geom.clusterSize) (slice buf written want) = r
      at hgot hout
    have hlen : (overwrite buf written r.2).length = buf.length := length_overwrite (by omega)
    by_cases hzero : r.1 = 0
    · rw [if_pos hzero, if_pos hzero]
    · rw [if_neg hzero, if_neg hzero, Checked.add_eq (by omega), Checked.ok_bind,
        Checked.add_eq (by omega), Checked.ok_bind, if_neg (by omega)]
      exact ih (by omega) (by omega) (by omega)

/-! ## Whole reads -/

/-- What `runs` returns for an extent. -/
def runsOf (fs : FatFs) (extent : List UInt32 × ℕ) : List (ℕ × ℕ) :=
  if extent.1.isEmpty then if extent.2 = 0 then [] else [(fs.geom.rootDirStart, extent.2)]
  else fs.runsFrom extent.1 extent.2 []

/-- What `read_at` returns for an extent. -/
def readAtOf (fs : FatFs) (extent : List UInt32 × ℕ) (off : ℕ) (buf : List UInt8) :
    ℕ × List UInt8 :=
  if off ≥ extent.2 then (0, buf)
  else
    let stop := min (saturatingAdd off buf.length) extent.2
    fs.readAtFrom extent.1 stop (stop - off) off 0 buf

/-- `runs` and `read_at` of a node are those of the extent where its data is stored. -/
lemma runs_eq_runsOf {id : FileId} {source : DirSource} (h : fs.dataSource id = .ok source) :
    fs.runs id = .ok (fs.runsOf (fs.sourceExtent source)) := by
  rw [runs, dataExtent_ok.mpr ⟨_, h, rfl⟩, runsOf]
  simp only [bind, Except.bind]
  split <;> rfl

lemma readAt_eq_readAtOf {id : FileId} {source : DirSource} (h : fs.dataSource id = .ok source)
    (off : ℕ) (buf : List UInt8) :
    fs.readAt id off buf = .ok (fs.readAtOf (fs.sourceExtent source) off buf) := by
  rw [readAt, dataExtent_ok.mpr ⟨_, h, rfl⟩, readAtOf]
  simp only [bind, Except.bind]
  split <;> rfl

lemma Bounded.checkedRuns_eq (h : fs.Bounded) (source : DirSource) :
    fs.checkedRuns source = .ok (fs.runsOf (fs.sourceExtent source)) := by
  rw [checkedRuns, h.checkedExtent_eq, Checked.ok_bind, runsOf]
  dsimp only
  split
  · rfl
  · exact h.checkedRunsFrom_eq
      (fun c hc => two_le_of_mem_sourceExtent h.valid.clusterSize_pos hc) (by simp)

lemma Bounded.checkedReadAt_eq (h : fs.Bounded) (source : DirSource) {off : ℕ}
    {buf : List UInt8} (hbuf : buf.length < 2 ^ 64) :
    fs.checkedReadAt source off buf = .ok (fs.readAtOf (fs.sourceExtent source) off buf) := by
  have htotal := h.sourceExtent_lt source
  rw [checkedReadAt, h.checkedExtent_eq, Checked.ok_bind, readAtOf]
  dsimp only
  split
  · rfl
  · refine h.checkedReadAtFrom_eq
      (fun c hc => two_le_of_mem_sourceExtent h.valid.clusterSize_pos hc) (by omega) le_rfl ?_ hbuf
    unfold saturatingAdd
    omega

/-! ## The bytes of a directory -/

/-- The loop of `read_dir_bytes` stops at no arm but its cap, with so many bytes read. -/
lemma Bounded.checkedReadClusters_eq (h : fs.Bounded) {chain : List UInt32}
    (hchain : ∀ c ∈ chain, 2 ≤ c) (out : List UInt8) :
    fs.checkedReadClusters chain out = .ok (fs.readClusters chain out) ∨
      fs.checkedReadClusters chain out = .error (.deadArm .readDirBytesCap) ∧
        MAX_DIR_BYTES ≤ (fs.readClusters chain out).length := by
  induction chain generalizing out with
  | nil => exact Or.inl rfl
  | cons c rest ih =>
    rw [List.forall_mem_cons] at hchain
    obtain ⟨off, hoff, -⟩ := h.clusterOffset hchain.1
    rw [checkedReadClusters, readClusters]
    by_cases hcap : MAX_DIR_BYTES ≤ out.length
    · rw [if_pos hcap, if_pos hcap]
      exact Or.inr ⟨rfl, hcap⟩
    · have hcs := h.valid.clusterSize_le
      simp only [if_neg hcap, hoff]
      rw [checkedReadFill_eq_readRegion (List.length_replicate ..) (by omega), Checked.ok_bind]
      exact ih hchain.2 _

lemma Bounded.of_accepts {boot : List UInt8} {g : Geometry} (h : Accepts boot g)
    (image fat : List UInt8) : (FatFs.mk image g fat (g.countOfClusters + 2)).Bounded := by
  have hvalid : g.Valid := by
    rcases h with h | h
    · exact .of_parse h
    · exact .of_parseBoot h
  have hcount := hvalid.countOfClusters_lt
  exact ⟨hvalid, by dsimp only; omega⟩

/-- **No arithmetic or indexing fault.** -/
theorem no_fault {boot : List UInt8} {g : Geometry} (h : Accepts boot g)
    (image fat : List UInt8) (fs : FatFs) (hfs : fs = ⟨image, g, fat, g.countOfClusters + 2⟩) :
    (∀ first maxClusters, checkedFollowChain fat g.variant maxClusters first
      = .ok (followChain fat g.variant first maxClusters)) ∧
    (∀ first size contiguous,
      fs.checkedClusters first size contiguous = .ok (fs.clusters first size contiguous) ∧
      (∀ c ∈ fs.clusters first size contiguous, (g.clusterOffset c).isSome) ∧
      fs.checkedExtentOf first size contiguous = .ok (fs.extentOf first size contiguous) ∧
      (fs.checkedReadDirBytes first size contiguous
          = .ok (fs.readDirBytes (.chain first size contiguous)) ∨
        fs.checkedReadDirBytes first size contiguous = .error (.deadArm .readDirBytesCap) ∧
          MAX_DIR_BYTES ≤ (fs.readDirBytes (.chain first size contiguous)).length)) ∧
    ∀ source,
      fs.checkedRuns source = .ok (fs.runsOf (fs.sourceExtent source)) ∧
      (∀ (off : UInt64) (buf : List UInt8), buf.length < 2 ^ 64 →
        fs.checkedReadAt source off.toNat buf
          = .ok (fs.readAtOf (fs.sourceExtent source) off.toNat buf)) ∧
      ∀ id, fs.dataSource id = .ok source →
        fs.runs id = .ok (fs.runsOf (fs.sourceExtent source)) ∧
        ∀ off buf, fs.readAt id off buf
          = .ok (fs.readAtOf (fs.sourceExtent source) off buf) := by
  subst hfs
  have hfs := Bounded.of_accepts h image fat
  refine ⟨fun first n => checkedFollowChain_eq _ _ _ _, ?_, ?_⟩
  · intro first size contiguous
    have hchain : ∀ c ∈ FatFs.clusters ⟨image, g, fat, g.countOfClusters + 2⟩ first size contiguous,
        2 ≤ c := fun c hc => two_le_of_mem_clusters hfs.valid.clusterSize_pos hc
    refine ⟨hfs.checkedClusters_eq _ _ _, ?_, hfs.checkedExtentOf_eq _ _ _, ?_⟩
    · intro c hc
      obtain ⟨off, hoff, -⟩ := hfs.clusterOffset (hchain c hc)
      exact Option.isSome_of_eq_some hoff
    · rw [checkedReadDirBytes, hfs.checkedClusters_eq, Checked.ok_bind]
      exact hfs.checkedReadClusters_eq hchain []
  · intro source
    refine ⟨hfs.checkedRuns_eq source, fun off buf hbuf => hfs.checkedReadAt_eq source hbuf, ?_⟩
    intro id hid
    exact ⟨runs_eq_runsOf hid, readAt_eq_readAtOf hid⟩

/-- A FAT32 volume of 199998 clusters of 512 bytes, whose root directory is one cluster that
points to itself. -/
def looped : Synth.Volume where
  image := Synth.bpb 1 0 200000 2 ++ Synth.table 4 [0, 0, 2]
    ++ Synth.sectors 1 (Synth.shortEntry (Synth.name 0x41) 0x20 3 7)
  opens := by decide +kernel

lemma looped_spec :
    looped.reader.geom.variant = .fat32 ∧ looped.reader.geom.countOfClusters = 199998 ∧
      looped.reader.geom.clusterSize = 512 ∧ looped.reader.geom.clusterOffset 2 = some 1024 ∧
      fatEntry looped.reader.fat .fat32 2 = 2 ∧ looped.reader.image.length = 1536 := by
  decide +kernel

lemma accepts_looped : Accepts (looped.image.take 512) looped.reader.geom :=
  Or.inl (parse_of_openImage looped.openImage_image (by
    rw [looped_spec.1]
    decide)).2

lemma looped_eq : FatFs.mk looped.reader.image looped.reader.geom looped.reader.fat
    (looped.reader.geom.countOfClusters + 2) = looped.reader := by
  rw [← (openImage_ok looped.openImage_image).maxClusters]

/-- The runs and the content of the root of `looped`. -/
theorem no_fault_looped :
    looped.reader.checkedRuns (.chain 2 5 false)
        = .ok (looped.reader.runsOf (looped.reader.sourceExtent (.chain 2 5 false))) ∧
      looped.reader.checkedReadAt (.chain 2 5 false) 3 [0, 0, 0, 0]
        = .ok (looped.reader.readAtOf (looped.reader.sourceExtent (.chain 2 5 false)) 3
            [0, 0, 0, 0]) := by
  obtain ⟨-, -, hsource⟩ := no_fault accepts_looped _ _ _ looped_eq.symm
  obtain ⟨hruns, hread⟩ := hsource (.chain 2 5 false)
  exact ⟨hruns, hread.1 3 [0, 0, 0, 0] (by norm_num)⟩

/-- A directory whose chain repeats one cluster is read without a fault only below the cap. -/
lemma Bounded.lt_of_checkedReadClusters (h : fs.Bounded) {c : UInt32} {off : ℕ}
    (hoff : fs.geom.clusterOffset c = some off)
    (hheld : off + fs.geom.clusterSize ≤ fs.image.length) {n : ℕ} {out bytes : List UInt8}
    (hok : fs.checkedReadClusters (List.replicate (n + 1) c) out = .ok bytes) :
    out.length + n * fs.geom.clusterSize < MAX_DIR_BYTES := by
  induction n generalizing out with
  | zero =>
    rw [List.replicate_succ, checkedReadClusters] at hok
    split at hok
    · exact absurd hok (by simp)
    next hcap => omega
  | succ n ih =>
    rw [List.replicate_succ, checkedReadClusters] at hok
    split at hok
    · exact absurd hok (by simp)
    have hcs := h.valid.clusterSize_le
    simp only [hoff] at hok
    rw [checkedReadFill_eq_readRegion (List.length_replicate ..) (by omega),
      Checked.ok_bind] at hok
    have hlt := ih hok
    have hbytes : ((fs.readRegion off (List.replicate fs.geom.clusterSize 0)).2.take
        (fs.readRegion off (List.replicate fs.geom.clusterSize 0)).1).length
          = fs.geom.clusterSize := by
      have hvec : (fs.readRegionVec off fs.geom.clusterSize).length = fs.geom.clusterSize := by
        rw [readRegionVec_eq, length_slice]
        omega
      exact hvec
    rw [List.length_append, hbytes] at hlt
    rw [Nat.succ_mul]
    omega

/-- **One arm marked as unreachable is not dead**: the root of `looped` reaches the cap of
`read_dir_bytes`. -/
theorem not_no_fault_readDirBytes :
    ¬ ∀ (boot : List UInt8) (g : Geometry), Accepts boot g → ∀ image fat first size contiguous,
      ∃ bytes, (FatFs.mk image g fat (g.countOfClusters + 2)).checkedReadDirBytes first size
        contiguous = .ok bytes := by
  intro hall
  obtain ⟨hvar, hcount, hsize, hoff, hentry, hlen⟩ := looped_spec
  obtain ⟨bytes, hok⟩ := hall _ _ accepts_looped looped.reader.image looped.reader.fat 2 0 false
  have hbounded := Bounded.of_accepts accepts_looped looped.reader.image looped.reader.fat
  rw [looped_eq] at hok hbounded
  have hmax : looped.reader.maxClusters = 199999 + 1 := by
    rw [(openImage_ok looped.openImage_image).maxClusters, hcount]
  have hchain : looped.reader.clusters 2 0 false = List.replicate (199999 + 1) 2 := by
    rw [clusters_eq_followChain (by decide), hvar, hmax]
    exact followChain_self (by decide) hentry (by decide) (by decide) _
  rw [checkedReadDirBytes, hbounded.checkedClusters_eq, Checked.ok_bind, hchain] at hok
  have hlt := hbounded.lt_of_checkedReadClusters hoff (by rw [hsize, hlen]) hok
  rw [hsize, MAX_DIR_BYTES] at hlt
  omega

end FatFs
end FatForensic
