import FatForensic.Lib.Allocation
import FatForensic.Volume.Hierarchies
import FatForensic.Volume.Layout

/-!
# Volumes that are written

A plan whose objects fit on a volume, no cluster being taken twice, is written to an image: the
boot region as it is given, the copies of a FAT that links the chains, the fixed root region, and
the clusters with the pieces of the contents.  The image opens with the geometry of the boot
sector and stores the plan, so that the reader finds in it what was written.
-/

namespace FatForensic

open Window LittleEndian Allocation Hierarchy

/-- The end mark that is written: all bits of a pointer. -/
def endMark (variant : FatVariant) : UInt32 := UInt32.ofNat (2 ^ pointerBits variant - 1)

/-- The regions of a volume that is written to: the boot region, one copy of the FAT, the fixed
root region and the clusters follow each other. -/
structure Geometry.Regions (g : Geometry) : Prop where
  le_fatStart : 512 ≤ g.fatStart
  fat_le : g.fatStart + g.fatSizeSectors * g.bytesPerSector + g.rootDirBytes ≤ g.dataStart
  rootDir : ¬ g.RootInHeap → g.rootDirStart + g.rootDirBytes = g.dataStart

namespace Plan

variable {ρ κ : Type} (P : Plan ρ κ) (F : DirFormat ρ)

/-- The bytes that an object has to hold. -/
def bytes (k : κ) : List UInt8 :=
  match P.content k with
  | .file bytes => bytes
  | .dir items tail => F.encode (items.map Prod.fst) tail

/-- The entry of a cluster in the FAT. -/
def pointer (objects : List κ) (variant : FatVariant) (c : UInt32) : UInt32 :=
  match owner objects P.chain c with
  | none => 0
  | some k => if P.contiguous k then 0 else (next (P.chain k) c).getD (endMark variant)

/-- One copy of the FAT. -/
def fatTable (objects : List κ) (g : Geometry) : List UInt8 :=
  toBytes (g.fatSizeSectors * g.bytesPerSector) (Nat.ofDigits (2 ^ entryBits g.variant)
    ((List.range (g.countOfClusters + 2)).map fun c =>
      (P.pointer objects g.variant (UInt32.ofNat c)).toNat))

/-- The copies of the FAT, and what fills up the space behind them. -/
def fatRegion (objects : List κ) (g : Geometry) : List UInt8 :=
  let room := g.dataStart - g.rootDirBytes - g.fatStart
  (List.replicate (g.numFats - 1 + 1) (P.fatTable objects g)
    ++ [List.replicate room 0]).flatten.take room

/-- The fixed root region. -/
def rootRegion (g : Geometry) : List UInt8 :=
  if g.RootInHeap then List.replicate g.rootDirBytes 0 else P.bytes F P.root

/-- What is written to a cluster. -/
def clusterPiece (objects : List κ) (g : Geometry) (c : UInt32) : List UInt8 :=
  piece objects P.chain (P.bytes F) 0 g.clusterSize c

/-- **The image of a plan**, over the objects in some order. -/
def write (boot : List UInt8) (g : Geometry) (objects : List κ) : List UInt8 :=
  (boot :: P.fatRegion objects g :: P.rootRegion F g ::
    (List.range g.countOfClusters).map fun i =>
      P.clusterPiece F objects g (UInt32.ofNat (i + 2))).flatten

/-- The plan fits on the volume that the boot region describes. -/
structure Fits (boot : List UInt8) (g : Geometry) (objects : List κ) : Prop where
  accepted : (if slice boot 3 8 = Exfat.SIGNATURE then Exfat.parseBoot (boot.take 512)
    else Geometry.parse (boot.take 512)) = .ok g
  length_boot : boot.length = g.fatStart
  /-- What the parser of exFAT boot sectors does not check. -/
  layout : g.variant = .exFat → g.SoundExfatLayout
  /-- The FAT can number the clusters. -/
  count_lt : g.countOfClusters < 0x0FFFFFF6
  mem_objects : ∀ k, k ∈ objects
  /-- No cluster is taken twice. -/
  nodup : (objects.flatMap P.chain).Nodup
  heap : ∀ k, ∀ c ∈ P.chain k, g.InHeap c
  /-- The part of the FAT that is cached has the entries of the chains. -/
  entries : ∀ k, P.contiguous k = false → ∀ c ∈ P.chain k,
    entryBits g.variant * (c.toNat + 1)
      ≤ 8 * min (g.fatSizeSectors * g.bytesPerSector) MAX_FAT_BYTES
  file : ∀ k bytes, P.content k = .file bytes →
    bytes.length ≤ g.clusterSize * (P.chain k).length ∧ (bytes = [] → P.chain k = []) ∧
      (P.contiguous k = true → P.chain k
        = consecutive ((P.chain k).headD 0) (divCeil bytes.length g.clusterSize))
  dir : ∀ k items tail, P.content k = .dir items tail → P.contiguous k = false ∧
    (F.slotsOf (items.map Prod.fst)).length ≤ 65536 ∧ Terminated tail ∧
    ((k = P.root ∧ ¬ g.RootInHeap ∧ (P.bytes F k).length = g.rootDirBytes) ∨
      ((k = P.root → g.RootInHeap) ∧ (P.bytes F k).length = g.clusterSize * (P.chain k).length))
  items : ∀ k items tail, P.content k = .dir items tail → ∀ r,
    (∀ j, (r, some j) ∈ items → ∃ n, F.body r = some n ∧ P.Names n j) ∧
    ((r, none) ∈ items → ∀ n, F.body r = some n →
      n.isDeleted = true ∨ n.isVolumeLabel = true ∨ n.IsDot)
  root_dir : ∃ items tail, P.content P.root = .dir items tail
  root_chain : g.RootInHeap → (P.chain P.root).head? = some g.rootCluster

end Plan

/-! ## The regions -/

/-- The copies of the FAT and the fixed root region that an accepted BPB describes lie behind the
boot sector, before the clusters. -/
lemma Geometry.mirrorEnd_add_le {boot : List UInt8} {g : Geometry}
    (h : Geometry.parse boot = .ok g) : g.mirrorEnd + g.rootDirBytes ≤ g.dataStart ∧
      (¬ g.RootInHeap → g.rootDirStart + g.rootDirBytes = g.dataStart) := by
  obtain ⟨-, -, hend⟩ := Geometry.regions_of_parse h
  obtain ⟨f, hg⟩ := Geometry.parse_ok h
  by_cases hvar : g.variant = .fat32
  · have hzero : g.rootDirBytes = 0 := by
      obtain ⟨f', -, hparse⟩ := bind_eq_ok.mp h
      dsimp only at hparse
      split at hparse
      · exact absurd hparse (by simp)
      rw [Except.ok.injEq] at hparse
      subst hparse
      exact if_pos (beq_iff_eq.mpr hvar)
    exact ⟨by omega, fun hroot => absurd (Or.inl hvar) hroot⟩
  · obtain ⟨hrootstart, hrootbytes, -⟩ := Geometry.rootDir_of_parse h hvar hg.fields
    rw [u32OrMax, if_pos (Geometry.noOverflow_of_readFields hg.fields
      hg.metaSectors_le).rootDirSize] at hrootbytes
    have hroot : g.rootDirStart + g.rootDirBytes = g.dataStart := by
      rw [hrootstart, hrootbytes, hg.dataStart, Geometry.metaSectors]
      ring
    have hmirror : g.mirrorEnd = g.rootDirStart := by
      rw [hrootstart, Geometry.mirrorEnd, hg.fatStart, hg.numFats, hg.fatSizeSectors,
        hg.bytesPerSector]
      ring
    exact ⟨by omega, fun _ => hroot⟩

/-- The regions that an accepted BPB describes follow each other. -/
lemma Geometry.Regions.of_parse {boot : List UInt8} {g : Geometry}
    (h : Geometry.parse boot = .ok g) : g.Regions := by
  obtain ⟨f, hg⟩ := Geometry.parse_ok h
  obtain ⟨hend, hroot⟩ := Geometry.mirrorEnd_add_le h
  have hone : g.fatSizeSectors * g.bytesPerSector
      ≤ g.numFats * (g.fatSizeSectors * g.bytesPerSector) :=
    Nat.le_mul_of_pos_left _ (hg.numFats ▸ hg.checked.numFats_pos)
  rw [Geometry.mirrorEnd, Nat.mul_assoc] at hend
  exact ⟨(Geometry.regions_of_parse h).1, by omega, hroot⟩

/-- Those of an exFAT boot sector do where its fields do not contradict each other. -/
lemma Geometry.Regions.of_parseBoot {boot : List UInt8} {g : Geometry}
    (h : Exfat.parseBoot boot = .ok g) (hlayout : g.SoundExfatLayout) : g.Regions := by
  obtain ⟨b, s, hg⟩ := Geometry.parseBoot_ok h
  have hle := (Geometry.Valid.of_parseBoot h).le_bytesPerSector
  have hstart := hlayout.le_fatStart
  have hfat := hlayout.fat_le
  have hzero := hg.rootDirBytes
  exact ⟨by omega, by omega, fun hroot => absurd (Or.inr hg.variant) hroot⟩

namespace Plan

variable {ρ κ : Type} {P : Plan ρ κ} {F : DirFormat ρ} {boot : List UInt8} {g : Geometry}
  {objects : List κ} {k : κ} {c : UInt32}

lemma Fits.accepts (h : P.Fits F boot g objects) : Accepts (boot.take 512) g := by
  have haccepted := h.accepted
  split at haccepted
  · exact Or.inr haccepted
  · exact Or.inl haccepted

lemma Fits.valid (h : P.Fits F boot g objects) : g.Valid := by
  rcases h.accepts with hparse | hparse
  · exact Geometry.Valid.of_parse hparse
  · exact Geometry.Valid.of_parseBoot hparse

lemma Fits.regions (h : P.Fits F boot g objects) : g.Regions := by
  rcases h.accepts with hparse | hparse
  · exact Geometry.Regions.of_parse hparse
  · exact Geometry.Regions.of_parseBoot hparse (h.layout (Geometry.variant_of_parseBoot hparse))

lemma length_fatRegion (P : Plan ρ κ) (objects : List κ) :
    (P.fatRegion objects g).length = g.dataStart - g.rootDirBytes - g.fatStart := by
  rw [fatRegion, List.length_take, List.flatten_append, List.length_append,
    List.flatten_singleton, List.length_replicate]
  omega

lemma Fits.length_rootRegion (h : P.Fits F boot g objects) :
    (P.rootRegion F g).length = g.rootDirBytes := by
  rw [rootRegion]
  split
  · rw [List.length_replicate]
  next hroot =>
    obtain ⟨items, tail, hcontent⟩ := h.root_dir
    rcases (h.dir P.root items tail hcontent).2.2.2 with ⟨-, -, hlen⟩ | ⟨hheap, -⟩
    · exact hlen
    · exact absurd (hheap rfl) hroot

/-- What is written before the cluster with index `i`. -/
lemma Fits.length_before (h : P.Fits F boot g objects) (i : ℕ) :
    (boot :: P.fatRegion objects g :: P.rootRegion F g ::
      (List.range i).map fun i => P.clusterPiece F objects g (UInt32.ofNat (i + 2))).flatten.length
      = g.dataStart + i * g.clusterSize := by
  have hfat := h.regions.fat_le
  have hlen : ∀ xs ∈ (List.range i).map fun i => P.clusterPiece F objects g (UInt32.ofNat (i + 2)),
      xs.length = g.clusterSize := by
    intro xs hxs
    obtain ⟨j, -, rfl⟩ := List.mem_map.mp hxs
    exact length_piece _
  rw [List.flatten_cons, List.flatten_cons, List.flatten_cons, List.length_append,
    List.length_append, List.length_append, h.length_boot, length_fatRegion, h.length_rootRegion,
    List.length_flatten, List.map_congr_left hlen, List.map_const', List.sum_replicate,
    List.length_map, List.length_range, smul_eq_mul]
  omega

lemma Fits.length_write (h : P.Fits F boot g objects) :
    (P.write F boot g objects).length = g.dataStart + g.countOfClusters * g.clusterSize :=
  h.length_before _

lemma Fits.take_write (h : P.Fits F boot g objects) {n : ℕ} (hn : n ≤ g.fatStart) :
    (P.write F boot g objects).take n = boot.take n := by
  rw [write, List.flatten_cons, List.take_append_of_le_length (h.length_boot ▸ hn)]

/-- The region of the FAT copies. -/
lemma Fits.slice_fatRegion (h : P.Fits F boot g objects) :
    slice (P.write F boot g objects) g.fatStart (g.dataStart - g.rootDirBytes - g.fatStart)
      = P.fatRegion objects g := by
  rw [← length_fatRegion P objects]
  refine slice_flatten (k := 1) rfl ?_
  rw [List.take_succ_cons, List.take_zero, List.flatten_singleton, h.length_boot]

/-- **The copies of the FAT**, as many as there is space for. -/
lemma Fits.slice_fatTable (h : P.Fits F boot g objects) {j : ℕ} (hj : j ≤ g.numFats - 1)
    (hroom : (j + 1) * (g.fatSizeSectors * g.bytesPerSector)
      ≤ g.dataStart - g.rootDirBytes - g.fatStart) :
    slice (P.write F boot g objects) (g.fatStart + j * (g.fatSizeSectors * g.bytesPerSector))
      (g.fatSizeSectors * g.bytesPerSector) = P.fatTable objects g := by
  have hlen : (P.fatTable objects g).length = g.fatSizeSectors * g.bytesPerSector :=
    length_toBytes _ _
  rw [Nat.succ_mul] at hroom
  rw [← slice_slice _ _ _ _ _ hroom, h.slice_fatRegion, fatRegion, slice_take _ hroom]
  conv_lhs => rw [← hlen]
  refine slice_flatten (k := j) ?_ ?_
  · rw [List.getElem?_append_left (by rw [List.length_replicate]; omega),
      List.getElem?_replicate_of_lt (by omega)]
  · rw [List.take_append_of_le_length (by rw [List.length_replicate]; omega), List.take_replicate,
      Nat.min_eq_left (by omega), List.length_flatten, List.map_replicate, List.sum_replicate, hlen,
      smul_eq_mul]

/-- **The clusters** hold what is written to them. -/
lemma Fits.clusterWindow_write (h : P.Fits F boot g objects) (hc : g.InHeap c) :
    g.clusterWindow (P.write F boot g objects) c = P.clusterPiece F objects g c := by
  obtain ⟨h2, hle⟩ := hc
  have hlen : (P.clusterPiece F objects g c).length = g.clusterSize := length_piece _
  rw [Geometry.clusterWindow, ← hlen, write]
  refine slice_flatten (k := c.toNat - 2 + 3) ?_ ?_
  · rw [List.getElem?_cons_succ, List.getElem?_cons_succ, List.getElem?_cons_succ,
      List.getElem?_map, List.getElem?_range (by omega), Option.map_some]
    rw [Nat.sub_add_cancel h2, UInt32.ofNat_toNat]
  · rw [List.take_succ_cons, List.take_succ_cons, List.take_succ_cons, ← List.map_take,
      List.take_range, Nat.min_eq_left (by omega), hlen]
    exact h.length_before _

/-- **The fixed root region.** -/
lemma Fits.slice_rootDir (h : P.Fits F boot g objects) (hroot : ¬ g.RootInHeap) :
    slice (P.write F boot g objects) g.rootDirStart g.rootDirBytes = P.bytes F P.root := by
  have hregion : P.rootRegion F g = P.bytes F P.root := if_neg hroot
  have hstart := h.regions.rootDir hroot
  have hfat := h.regions.fat_le
  rw [← hregion, ← h.length_rootRegion, write]
  refine slice_flatten (k := 2) rfl ?_
  rw [List.take_succ_cons, List.take_succ_cons, List.take_zero, List.flatten_cons,
    List.flatten_singleton, List.length_append, h.length_boot, length_fatRegion]
  omega

/-- The image opens with the geometry of the boot sector. -/
lemma Fits.openImage_write (h : P.Fits F boot g objects) :
    ∃ fs, FatFs.openImage (P.write F boot g objects) = .ok fs ∧ fs.geom = g := by
  have hstart := h.regions.le_fatStart
  have hfat := h.regions.fat_le
  have htake := h.take_write hstart
  have hlen : 512 ≤ (P.write F boot g objects).length := by
    rw [h.length_write]
    omega
  have hsig : slice (P.write F boot g objects) 3 8 = slice boot 3 8 := by
    rw [← slice_take _ (by norm_num : 3 + 8 ≤ 512), htake, slice_take _ (by norm_num)]
  have haccepted := h.accepted
  rw [← htake, ← hsig] at haccepted
  split at haccepted
  · exact FatFs.exists_openImage_of_parseBoot hlen haccepted
  next hne => exact FatFs.exists_openImage_of_parse hlen hne haccepted

/-! ## The chains -/

/-- The bits of an entry that are below a bound are not changed by cutting the number off there. -/
lemma mod_two_pow_div_mod {m n p q : ℕ} (h : p + q ≤ m) :
    n % 2 ^ m / 2 ^ p % 2 ^ q = n / 2 ^ p % 2 ^ q := by
  obtain ⟨r, rfl⟩ := Nat.exists_eq_add_of_le h
  rw [Nat.add_assoc, pow_add, Nat.mod_mul_right_div_self,
    Nat.mod_mod_of_dvd _ (pow_dvd_pow 2 (Nat.le_add_right q r))]

lemma pointerBits_le (variant : FatVariant) : pointerBits variant ≤ entryBits variant := by
  cases variant <;> decide

lemma toNat_endMark (variant : FatVariant) :
    (endMark variant).toNat = 2 ^ pointerBits variant - 1 := by
  cases variant <;> rfl

lemma marksEnd_endMark (variant : FatVariant) : MarksEnd variant (endMark variant) := by
  cases variant <;> decide

/-- What is written to the FAT fits in the bits of a pointer. -/
lemma Fits.pointer_lt (h : P.Fits F boot g objects) (c : UInt32) :
    (P.pointer objects g.variant c).toNat < 2 ^ pointerBits g.variant := by
  have hmark : (endMark g.variant).toNat < 2 ^ pointerBits g.variant := by
    rw [toNat_endMark]
    exact Nat.sub_lt (by positivity) Nat.one_pos
  have hzero : (0 : UInt32).toNat < 2 ^ pointerBits g.variant := by
    rw [UInt32.toNat_zero]
    positivity
  rw [pointer]
  split
  · exact hzero
  next k hk =>
    split
    · exact hzero
    · cases hnext : next (P.chain k) c with
      | none => exact hmark
      | some d =>
        have hd := h.heap k d (List.mem_of_getElem? hnext)
        have hlt := hd.lt_eocThreshold h.accepts h.count_lt
        have hthreshold : (eocThreshold g.variant).toNat < 2 ^ pointerBits g.variant := by
          cases g.variant <;> decide
        rw [Option.getD_some]
        omega

/-- **The FAT stores the pointer of every cluster** whose entry is cached. -/
lemma Fits.storesPointer (h : P.Fits F boot g objects) (hc : c.toNat ≤ g.countOfClusters + 1)
    (hcached : entryBits g.variant * (c.toNat + 1)
      ≤ 8 * min (g.fatSizeSectors * g.bytesPerSector) MAX_FAT_BYTES) :
    StoresPointer (cachedFat (P.write F boot g objects) g) g.variant c
      (P.pointer objects g.variant c) := by
  have hbits := entryBits_pos g.variant
  have hptr := pointerBits_le g.variant
  have hpow := Nat.pow_le_pow_right (n := 2) (by norm_num) hptr
  have hfat : diskFat (P.write F boot g objects) g = P.fatTable objects g := by
    have hroom := h.regions.fat_le
    have hslice := h.slice_fatTable (Nat.zero_le _) (by omega)
    rwa [Nat.zero_mul, Nat.add_zero] at hslice
  have hdigits : ∀ x ∈ (List.range (g.countOfClusters + 2)).map fun c =>
      (P.pointer objects g.variant (UInt32.ofNat c)).toNat, x < 2 ^ entryBits g.variant := by
    intro x hx
    obtain ⟨i, -, rfl⟩ := List.mem_map.mp hx
    exact (h.pointer_lt _).trans_le hpow
  have hdigit := ofDigits_div_pow_mod (Nat.one_lt_two_pow hbits.ne') hdigits c.toNat
  rw [List.getD_eq_getElem?_getD, List.getElem?_map, List.getElem?_range (by omega),
    Option.map_some, Option.getD_some, UInt32.ofNat_toNat, ← pow_mul] at hdigit
  rw [cachedFat, hfat]
  refine ⟨?_, ?_⟩
  · rw [List.length_take, fatTable, length_toBytes, Nat.min_comm]
    exact hcached
  · have hmul : ∀ m, 256 ^ m = 2 ^ (8 * m) := fun m => by rw [pow_mul]; norm_num
    rw [Nat.mul_succ] at hcached
    rw [ofBytes_take, fatTable, ofBytes_toBytes, hmul, hmul, mod_two_pow_div_mod (by omega),
      mod_two_pow_div_mod (by omega), ← Nat.mod_mod_of_dvd _ (pow_dvd_pow 2 hptr), hdigit,
      Nat.mod_eq_of_lt (h.pointer_lt c)]

/-- A chain is stored when each entry points to the next cluster and the last one to none. -/
lemma storesChain_of_pointers {fat : List UInt8} {variant : FatVariant} {e : UInt32}
    (he : MarksEnd variant e) {chain : List UInt32}
    (hall : ∀ i c, chain[i]? = some c → StoresPointer fat variant c (chain[i + 1]?.getD e)) :
    StoresChain fat variant chain := by
  induction chain with
  | nil => trivial
  | cons c rest ih =>
    have hfirst := hall 0 c rfl
    have hrest := ih fun i d hd => hall (i + 1) d hd
    cases rest with
    | nil => exact ⟨e, hfirst, he⟩
    | cons d rest => exact ⟨hfirst, hrest⟩

lemma Fits.storesChain (h : P.Fits F boot g objects) (hcont : P.contiguous k = false) :
    StoresChain (cachedFat (P.write F boot g objects) g) g.variant (P.chain k) := by
  refine storesChain_of_pointers (marksEnd_endMark _) fun i c hi => ?_
  have hmem := List.mem_of_getElem? hi
  have hpointer : P.pointer objects g.variant c
      = (P.chain k)[i + 1]?.getD (endMark g.variant) := by
    rw [pointer, owner_eq h.nodup (h.mem_objects k) hmem]
    dsimp only
    rw [if_neg (by rw [hcont]; exact Bool.false_ne_true),
      next_eq (nodup_chain h.nodup (h.mem_objects k)) hi]
  rw [← hpointer]
  exact h.storesPointer (h.heap k c hmem).2 (h.entries k hcont c hmem)

/-! ## What is stored -/

/-- The clusters of an object hold its bytes, filled up. -/
lemma Fits.extent_write (h : P.Fits F boot g objects) (k : κ) :
    P.extent (P.write F boot g objects) g k
      = (P.bytes F k ++ List.replicate (g.clusterSize * (P.chain k).length) 0).take
        (g.clusterSize * (P.chain k).length) := by
  rw [extent, List.flatMap_congr fun c hc => h.clusterWindow_write (h.heap k c hc)]
  exact flatMap_piece h.nodup (h.mem_objects k)

/-- **What is written is stored.** -/
lemma Fits.storedIn (h : P.Fits F boot g objects) :
    P.StoredIn F (P.write F boot g objects) g := by
  refine ⟨h.count_lt, h.heap, fun k c hc => ?_, fun k => h.storesChain, fun k bytes hk => ?_,
    fun k items tail hk => ?_, h.items, h.root_dir, h.root_chain⟩
  · have hin := (h.heap k c hc).mul_add_le
    rw [h.length_write]
    omega
  · obtain ⟨hlen, hrest⟩ := h.file k bytes hk
    have hbytes : P.bytes F k = bytes := by rw [Plan.bytes, hk]
    refine ⟨?_, hrest⟩
    rw [h.extent_write, hbytes, List.take_append, List.take_of_length_le hlen]
    exact List.prefix_append _ _
  · obtain ⟨hcont, hslots, htail, hdir⟩ := h.dir k items tail hk
    have hbytes : P.bytes F k = F.encode (items.map Prod.fst) tail := by rw [Plan.bytes, hk]
    refine ⟨hcont, hslots, htail, ?_⟩
    rw [← hbytes]
    rcases hdir with ⟨rfl, hroot, -⟩ | ⟨hroot, hlen⟩
    · exact Or.inl ⟨rfl, hroot, h.slice_rootDir hroot⟩
    · refine Or.inr ⟨hroot, ?_⟩
      rw [h.extent_write, List.take_append_of_le_length hlen.ge, ← hlen, List.take_length]

/-- **Volumes are written and read back.**  The image that a plan is written to opens with the
geometry of the boot sector, and the reader finds in it the objects of the plan, along every path
of names but `.` and `..`. -/
theorem write_presents (h : P.Fits F boot g objects) :
    ∃ fs, FatFs.openImage (P.write F boot g objects) = .ok fs ∧ fs.geom = g ∧
      P.StoredIn F (P.write F boot g objects) g ∧
      (fs.HasFormat F → ∀ path : List (List UInt8), (∀ name ∈ path, IsPlain name) →
        Option.Rel (P.Presents F fs) (fs.resolvePath path)
          (resolve (P.store F) P.root path)) := by
  obtain ⟨fs, hopen, rfl⟩ := h.openImage_write
  refine ⟨fs, hopen, rfl, h.storedIn, fun hF path hpath => ?_⟩
  have hrel := h.storedIn.resolvePath hopen hF.reads hpath
  generalize fs.resolvePath path = r, resolve (P.store F) P.root path = r' at hrel
  cases hrel with
  | none => exact .none
  | some hid => exact .some (hid.presents h.storedIn hopen hF.reads)

/-! ## The samples -/

/-- The FAT sample fits on the volume of its boot sector. -/
lemma fits_sample :
    samplePlan.Fits fatFormat (Synth.bpb 1 16 7 0) sampleVolume.reader.geom (List.finRange 5) := by
  have hvolume : (if slice (Synth.bpb 1 16 7 0) 3 8 = Exfat.SIGNATURE
        then Exfat.parseBoot ((Synth.bpb 1 16 7 0).take 512)
        else Geometry.parse ((Synth.bpb 1 16 7 0).take 512)) = .ok sampleVolume.reader.geom ∧
      (Synth.bpb 1 16 7 0).length = sampleVolume.reader.geom.fatStart ∧
      sampleVolume.reader.geom.clusterSize = 512 ∧
      sampleVolume.reader.geom.rootDirBytes = 512 ∧
      (∀ k, (samplePlan.chain k).all fun c =>
        entryBits sampleVolume.reader.geom.variant * (c.toNat + 1)
          ≤ 8 * min (sampleVolume.reader.geom.fatSizeSectors
            * sampleVolume.reader.geom.bytesPerSector) MAX_FAT_BYTES) ∧
      (samplePlan.bytes fatFormat 0).length = 512 ∧
      (samplePlan.bytes fatFormat 2).length = 512 := by
    decide +kernel
  obtain ⟨haccepted, hboot, hcs, hrootBytes, hentries, hlen0, hlen2⟩ := hvolume
  have hstored := storedIn_sample
  simp only [List.all_eq_true, decide_eq_true_eq] at hentries
  refine ⟨haccepted, hboot, fun hvar => ?_, hstored.count_lt, List.mem_finRange, by decide,
    hstored.heap, fun k _ => hentries k, fun k bytes hk => ?_, fun k items tail hk => ?_,
    hstored.items, hstored.root_dir, hstored.root_chain⟩
  · rw [storage_sample.2.2.1] at hvar
    exact absurd hvar (by decide)
  · obtain ⟨-, hempty, hcons⟩ := hstored.file k bytes hk
    refine ⟨?_, hempty, hcons⟩
    rw [hcs]
    fin_cases k <;> cases hk <;> decide +kernel
  · obtain ⟨hcont, hslots, htail, -⟩ := hstored.dir k items tail hk
    refine ⟨hcont, hslots, htail, ?_⟩
    obtain ⟨rfl, -⟩ | ⟨rfl, -⟩ := dirs_sample hk
    · exact Or.inl ⟨rfl, storage_sample.2.1, hlen0.trans hrootBytes.symm⟩
    · exact Or.inr ⟨by decide, by rw [hlen2, hcs]; rfl⟩

/-- The FAT sample is written and read back. -/
theorem write_presents_sample :
    ∃ fs, FatFs.openImage (samplePlan.write fatFormat (Synth.bpb 1 16 7 0)
        sampleVolume.reader.geom (List.finRange 5)) = .ok fs ∧
      fs.geom = sampleVolume.reader.geom ∧
      samplePlan.StoredIn fatFormat (samplePlan.write fatFormat (Synth.bpb 1 16 7 0)
        sampleVolume.reader.geom (List.finRange 5)) sampleVolume.reader.geom ∧
      (fs.HasFormat fatFormat → ∀ path : List (List UInt8), (∀ name ∈ path, IsPlain name) →
        Option.Rel (samplePlan.Presents fatFormat fs) (fs.resolvePath path)
          (resolve (samplePlan.store fatFormat) samplePlan.root path)) :=
  write_presents fits_sample

end Plan
end FatForensic
