import FatForensic.Volume.ExfatHandles
import FatForensic.Volume.FatTable
import FatForensic.Volume.Runs

/-!
# Contiguous extents

An exFAT file that is stored contiguously can do without a FAT chain.  Where the FAT holds the
chain nevertheless, following it gives the same clusters, and so the same runs and bytes.
-/

namespace FatForensic

open Extent Window

/-- The FAT chains `n` clusters from `first` on in sequence, and the chain ends with them. -/
def HoldsSequence (fat : List UInt8) (first n : ℕ) : Prop :=
  ∀ i < n, if i + 1 < n then (fatEntry fat .exFat (UInt32.ofNat (first + i))).toNat = first + i + 1
    else isEoc .exFat (fatEntry fat .exFat (UInt32.ofNat (first + i))) = true

instance (fat : List UInt8) (first n : ℕ) : Decidable (HoldsSequence fat first n) :=
  inferInstanceAs (Decidable (∀ i < n, _))

variable {fat : List UInt8} {first n : ℕ}

/-- A cached FAT holds the chain of clusters with numbers of 26 bits only. -/
lemma HoldsSequence.lt (h : HoldsSequence fat first n) (hfirst : first < 2 ^ 32)
    (hfat : fat.length ≤ MAX_FAT_BYTES) {i : ℕ} (hi : i < n) : first + i < 2 ^ 26 := by
  have hnum : first + i < 2 ^ 32 := by
    cases i with
    | zero => exact hfirst
    | succ i =>
      have hprev := h i (by omega)
      rw [if_pos hi] at hprev
      have := (fatEntry fat .exFat (UInt32.ofNat (first + i))).toNat_lt
      omega
  have hne : fatEntry fat .exFat (UInt32.ofNat (first + i)) ≠ 0 := by
    have hentry := h i hi
    split at hentry
    · rintro hzero
      rw [hzero] at hentry
      exact absurd hentry (by simp)
    · rintro hzero
      rw [hzero] at hentry
      exact absurd hentry (by decide)
  have hin := entryBits_mul_le_of_fatEntry_ne_zero hne
  rw [entryBits, UInt32.toNat_ofNat_of_lt' hnum] at hin
  rw [MAX_FAT_BYTES] at hfat
  omega

/-- **Following the sequence** lists its clusters. -/
lemma followChain_sequence (h : HoldsSequence fat first n) (hn : 0 < n) (h2 : 2 ≤ first)
    (hlt : ∀ i < n, first + i < 2 ^ 26) {k : ℕ} (hk : n ≤ k) :
    followChain fat .exFat (UInt32.ofNat first) k = (List.range' first n).map UInt32.ofNat := by
  induction n generalizing first k with
  | zero => omega
  | succ n ih =>
    obtain ⟨k, rfl⟩ : ∃ m, k = m + 1 := ⟨k - 1, by omega⟩
    have hnat : ∀ m, m < 2 ^ 26 → (UInt32.ofNat m).toNat = m := fun m hm =>
      UInt32.toNat_ofNat_of_lt' (show m < 2 ^ 32 by omega)
    have hfirst := hlt 0 (by omega)
    have hle : (2 : UInt32) ≤ UInt32.ofNat first := by
      rw [UInt32.le_iff_toNat_le, hnat first (by omega)]
      exact h2
    have hentry := h 0 (by omega)
    rw [List.range'_succ, List.map_cons]
    rcases Nat.eq_zero_or_pos n with rfl | hpos
    · -- the last cluster of the chain
      rw [if_neg (by omega), Nat.add_zero] at hentry
      rw [followChain, followChainFrom, if_neg (UInt32.not_lt.mpr hle)]
      dsimp only
      rw [if_pos (Or.inr (Or.inr hentry))]
      rfl
    · rw [if_pos (by omega), Nat.add_zero] at hentry
      have hnext := hlt 1 (by omega)
      have hv : fatEntry fat .exFat (UInt32.ofNat first) = UInt32.ofNat (first + 1) := by
        rw [← UInt32.toNat_inj, hentry, hnat _ hnext]
      have hend : (UInt32.ofNat (first + 1)).toNat + 1 < (eocThreshold .exFat).toNat := by
        rw [hnat _ hnext]
        show first + 1 + 1 < 0x0FFFFFF8
        omega
      obtain ⟨hbad, heoc⟩ := isBad_isEoc_eq_false hend
      have hle' : (2 : UInt32) ≤ UInt32.ofNat (first + 1) := by
        rw [UInt32.le_iff_toNat_le, hnat _ hnext]
        exact h2.trans (Nat.le_succ _)
      rw [followChain_succ hle hle' hv hbad heoc k, ih ?_ hpos (by omega) ?_ (by omega)]
      · intro i hi
        have hi' := h (i + 1) (by omega)
        rw [show first + (i + 1) = first + 1 + i by omega] at hi'
        simpa using hi'
      · intro i hi
        have := hlt (i + 1) (by omega)
        omega

namespace FatFs

variable {fs fs' : FatFs}

/-- The entry of `id` says where its data starts, how long it is, and whether it is stored
contiguously. -/
def HasExtent (fs : FatFs) (id : FileId) (first : UInt32) (size : UInt64) (contiguous : Bool) :
    Prop :=
  ∃ node, fs.nodeMeta id = .ok node ∧ node.firstCluster = first ∧ node.size = size ∧
    node.contiguous = contiguous

lemma any_nodeMeta_iff {id : FileId} {first : UInt32} {size : UInt64} {contiguous : Bool} :
    (fs.nodeMeta id).toOption.any (fun node =>
        node.firstCluster = first ∧ node.size = size ∧ node.contiguous = contiguous) = true ↔
      fs.HasExtent id first size contiguous := by
  rw [HasExtent]
  cases fs.nodeMeta id with
  | error e => simp [Except.toOption]
  | ok node => simp [Except.toOption]

instance (fs : FatFs) (id : FileId) (first : UInt32) (size : UInt64) (contiguous : Bool) :
    Decidable (fs.HasExtent id first size contiguous) :=
  decidable_of_iff _ any_nodeMeta_iff

lemma HasExtent.dataExtent {id : FileId} {first : UInt32} {size : UInt64} {contiguous : Bool}
    (h : fs.HasExtent id first size contiguous) (h2 : 2 ≤ first) :
    fs.dataExtent id = .ok (fs.extentOf first size contiguous) := by
  obtain ⟨node, hnode, rfl, rfl, rfl⟩ := h
  cases id with
  | root =>
    rw [nodeMeta, Except.ok.injEq] at hnode
    subst hnode
    exact absurd h2 (by decide)
  | entry d i => exact dataExtent_entry_ok.mpr ⟨node, hnode, rfl⟩

/-- A contiguous extent within the volume is its clusters. -/
lemma extentOf_contiguous {first : UInt32} (h2 : 2 ≤ first) {size : UInt64} (hsize : 0 < size)
    (hmax : divCeil size.toNat fs.geom.clusterSize ≤ fs.maxClusters)
    (hnum : first.toNat + divCeil size.toNat fs.geom.clusterSize ≤ 2 ^ 32) :
    fs.extentOf first size true =
      ((List.range' first.toNat (divCeil size.toNat fs.geom.clusterSize)).map UInt32.ofNat,
        size.toNat) := by
  rw [extentOf, clusters_contiguous h2 hsize, if_pos hsize, min_eq_left hmax,
    min_eq_left (by omega)]

/-- The byte at a logical position of a sequence of clusters is that many bytes behind the first
one. -/
lemma byteAt_sequence (hvalid : fs.geom.Valid) {first n : ℕ} (h2 : 2 ≤ first)
    (hnum : first + n ≤ 2 ^ 32) {p : ℕ} (hp : p < n * fs.geom.clusterSize) :
    fs.byteAt ((List.range' first n).map UInt32.ofNat) p
      = fs.image[fs.geom.dataStart + (first - 2) * fs.geom.clusterSize + p]? := by
  have hlt : p / fs.geom.clusterSize < n := (Nat.div_lt_iff_lt_mul hvalid.clusterSize_pos).mpr hp
  have htoNat : (UInt32.ofNat (first + p / fs.geom.clusterSize)).toNat
      = first + p / fs.geom.clusterSize :=
    UInt32.toNat_ofNat_of_lt' (show _ < 2 ^ 32 by omega)
  have hle : (2 : UInt32) ≤ UInt32.ofNat (first + p / fs.geom.clusterSize) := by
    rw [UInt32.le_iff_toNat_le, htoNat]
    exact h2.trans (Nat.le_add_right _ _)
  have hget : ((List.range' first n).map UInt32.ofNat)[p / fs.geom.clusterSize]?
      = some (UInt32.ofNat (first + p / fs.geom.clusterSize)) := by
    rw [List.getElem?_map, List.getElem?_range' hlt, Option.map_some, Nat.one_mul]
  rw [byteAt_eq hget (hvalid.clusterOffset_eq hle), htoNat]
  congr 1
  have hdm := Nat.div_add_mod' p fs.geom.clusterSize
  rw [Nat.sub_add_comm h2, Nat.add_mul]
  omega

/-- **Contiguous and chained extents agree.**  If the cached FAT of an exFAT volume chains the
clusters of an extent in sequence, then the extent is these clusters, whether it is taken as
contiguous or along the FAT.  So a file that is stored with this chain has the same runs as one
stored without, and where the images hold the same bytes there, every read is the same. -/
theorem contiguous_agrees_with_chained {boot : List UInt8}
    (hboot : Exfat.parseBoot boot = .ok fs.geom) (hfat : fs.fat.length ≤ MAX_FAT_BYTES)
    (hmax : fs.maxClusters = fs.geom.countOfClusters + 2) {first : UInt32} (h2 : 2 ≤ first)
    {size : UInt64} (hsize : 0 < size) {n : ℕ} (hn : n = divCeil size.toNat fs.geom.clusterSize)
    (hend : first.toNat + n - 1 ≤ fs.geom.countOfClusters + 1)
    (hseq : HoldsSequence fs.fat first.toNat n) :
    fs.extentOf first size true
        = ((List.range' first.toNat n).map UInt32.ofNat, size.toNat) ∧
      fs.extentOf first size false
        = ((List.range' first.toNat n).map UInt32.ofNat, size.toNat) ∧
      ∀ (fs' : FatFs) (id id' : FileId), fs'.geom = fs.geom → fs'.maxClusters = fs.maxClusters →
        fs'.HasExtent id' first size true → fs.HasExtent id first size false →
        fs'.runs id' = fs.runs id ∧
          ((∀ p < size.toNat,
              fs'.image[fs.geom.dataStart + (first.toNat - 2) * fs.geom.clusterSize + p]?
                = fs.image[fs.geom.dataStart + (first.toNat - 2) * fs.geom.clusterSize + p]?) →
            ∀ off buf, fs'.readAt id' off buf = fs.readAt id off buf) := by
  have hvalid := Geometry.Valid.of_parseBoot hboot
  have h2' : 2 ≤ first.toNat := UInt32.le_iff_toNat_le.mp h2
  have hpos : 0 < n := hn ▸ divCeil_pos hvalid.clusterSize_pos (UInt64.lt_iff_toNat_lt.mp hsize)
  have hlt : ∀ i < n, first.toNat + i < 2 ^ 26 := fun i hi => hseq.lt first.toNat_lt hfat hi
  have hlast := hlt (n - 1) (by omega)
  have hle : divCeil size.toNat fs.geom.clusterSize ≤ fs.maxClusters := by omega
  have hnum : first.toNat + divCeil size.toNat fs.geom.clusterSize ≤ 2 ^ 32 := by omega
  have hcontiguous := extentOf_contiguous h2 hsize hle hnum
  have hchained : fs.extentOf first size false
      = ((List.range' first.toNat n).map UInt32.ofNat, size.toNat) := by
    have hvar := Geometry.variant_of_parseBoot hboot
    have hwalk := followChain_sequence hseq hpos h2' hlt (k := fs.maxClusters) (by omega)
    rw [UInt32.ofNat_toNat] at hwalk
    rw [extentOf, if_pos hsize, clusters,
      if_neg (UInt32.not_lt.mpr h2), if_neg (by simp), hvar, hwalk]
  rw [← hn] at hcontiguous
  refine ⟨hcontiguous, hchained, fun fs' id id' hgeom hmax' hid' hid => ?_⟩
  have hextent := hid.dataExtent h2
  have hextent' := hid'.dataExtent h2
  rw [← hgeom, ← hmax'] at hle
  rw [← hgeom] at hnum
  rw [hchained] at hextent
  rw [extentOf_contiguous h2 hsize hle hnum, hgeom, ← hn] at hextent'
  refine ⟨?_, fun himage off buf => ?_⟩
  · rw [runs_eq hextent, runs_eq hextent', hgeom]
    simp only [runsFrom_congr hgeom]
  · have hsizelt := size.toNat_lt
    have hbyte : ∀ p < size.toNat,
        fs'.byteAt ((List.range' first.toNat n).map UInt32.ofNat) p
          = fs.byteAt ((List.range' first.toNat n).map UInt32.ofNat) p := by
      intro p hp
      have hcover : p < n * fs.geom.clusterSize := by
        have := (divCeil_le_iff hvalid.clusterSize_pos).mp hn.ge
        omega
      rw [byteAt_sequence hvalid h2' (by omega) hcover,
        byteAt_sequence (hgeom ▸ hvalid) h2' (by omega) (hgeom ▸ hcover), hgeom, himage p hp]
    have hrun : run (fs'.byteAt ((List.range' first.toNat n).map UInt32.ofNat)) off
        (min (off + buf.length) size.toNat - off)
          = run (fs.byteAt ((List.range' first.toNat n).map UInt32.ofNat)) off
            (min (off + buf.length) size.toNat - off) :=
      run_congr fun i hi => hbyte _ (by omega)
    rw [readAt_eq_run_of_lt hvalid.clusterSize_pos hsizelt hextent,
      readAt_eq_run_of_lt (hgeom ▸ hvalid.clusterSize_pos) hsizelt hextent', hrun]

/-- An exFAT volume whose root lists the data of the clusters 3 and 4 twice: along the FAT, and as
contiguous. -/
def twiceListed : Synth.Volume where
  image := Synth.exfatBoot 3 ++ Synth.table 4 [0, 0, 0xFFFFFFFF, 4, 0xFFFFFFFF]
    ++ Synth.sectors 1 ((letterRecord 0x41 0x20 3 521 false).slots.flatten
      ++ (letterRecord 0x42 0x20 3 521 true).slots.flatten)
    ++ List.replicate 512 8 ++ List.replicate 512 9
  opens := by decide +kernel

theorem contiguous_agrees_with_chained_twiceListed :
    twiceListed.reader.runs (.entry 2 3) = twiceListed.reader.runs (.entry 2 0) ∧
      ∀ off buf, twiceListed.reader.readAt (.entry 2 3) off buf
        = twiceListed.reader.readAt (.entry 2 0) off buf := by
  have hvolume : Exfat.parseBoot (Synth.exfatBoot 3) = .ok twiceListed.reader.geom ∧
      twiceListed.reader.fat.length ≤ MAX_FAT_BYTES ∧
      twiceListed.reader.maxClusters = twiceListed.reader.geom.countOfClusters + 2 ∧
      2 = divCeil (521 : UInt64).toNat twiceListed.reader.geom.clusterSize ∧
      (3 : UInt32).toNat + 2 - 1 ≤ twiceListed.reader.geom.countOfClusters + 1 ∧
      HoldsSequence twiceListed.reader.fat (3 : UInt32).toNat 2 ∧
      twiceListed.reader.HasExtent (.entry 2 0) 3 521 false ∧
      twiceListed.reader.HasExtent (.entry 2 3) 3 521 true := by
    decide +kernel
  obtain ⟨hboot, hfat, hmax, hn, hend, hseq, hchained, hcontiguous⟩ := hvolume
  obtain ⟨-, -, hall⟩ := contiguous_agrees_with_chained hboot hfat hmax (by decide) (by decide) hn
    hend hseq
  obtain ⟨hruns, hread⟩ := hall _ _ _ rfl rfl hcontiguous hchained
  exact ⟨hruns, hread fun _ _ => rfl⟩

end FatFs

end FatForensic
