import FatForensic.Directory.ExfatScan
import FatForensic.Directory.FatEntries
import FatForensic.Volume.ExfatHandles
import FatForensic.Volume.FatTable

/-!
# Slot indices and slot positions

The index of an entry has 16 bits, and a larger position is stored as the largest index.  The
entries of a directory are told apart by their indices exactly when none of them starts at slot
65536 or later.
-/

namespace FatForensic

open Window

/-- Positions are stored as they are exactly when they have 16 bits. -/
lemma map_toNat_u16OrMax_eq_iff {is : List ℕ} :
    (is.map u16OrMax).map UInt16.toNat = is ↔ ∀ i ∈ is, i < 2 ^ 16 := by
  rw [List.map_map]
  constructor
  · intro h i hi
    have hi' : (u16OrMax i).toNat = i := List.map_inj_left.mp (h.trans (List.map_id is).symm) i hi
    rw [← hi']
    exact (u16OrMax i).toNat_lt
  · intro h
    exact (List.map_congr_left fun i hi => toNat_u16OrMax_of_lt (h i hi)).trans (List.map_id is)

namespace FatFs

variable (fs : FatFs)

/-- The positions of the slots that the entries of a directory start at, in order. -/
def entryPositions (bytes : List UInt8) : List ℕ :=
  if fs.geom.variant = .exFat then Exfat.setStarts (chunksExact 32 bytes)
  else (Dirent.entrySlots (chunksExact 32 bytes) 0).map Prod.snd

/-- The index fields of the entries that the parser of the volume returns. -/
def entryIndices (bytes : List UInt8) : List UInt16 :=
  if fs.geom.variant = .exFat then (Exfat.parseDirectory bytes).map (·.index)
  else (Dirent.parseDirectory bytes).map (·.index)

/-- The entries of a directory are identified by their slots. -/
structure SlotsIdentify (source : DirSource) : Prop where
  /-- The index of every entry is the position of its slot. -/
  positions : (fs.entryIndices (fs.readDirBytes source)).map UInt16.toNat
    = fs.entryPositions (fs.readDirBytes source)
  increasing : (fs.entryIndices (fs.readDirBytes source)).Pairwise (· < ·)
  nodup : ((fs.listNodes (fs.readDirBytes source) (sourceMarker source)).map Node.id).Nodup
  /-- Where the bytes are read again, every handle resolves to its node. -/
  resolve : fs.readDirBytes (parentSource (sourceMarker source)) = fs.readDirBytes source →
    ∀ n ∈ fs.listNodes (fs.readDirBytes source) (sourceMarker source),
      fs.resolveEntry n.id = .ok n

variable {fs}

lemma entryIndices_eq (bytes : List UInt8) :
    fs.entryIndices bytes = (fs.entryPositions bytes).map u16OrMax := by
  rw [entryIndices, entryPositions]
  split
  · rw [Exfat.parseDirectory_eq, List.map_map]
    rfl
  · rw [Dirent.parseDirectory_eq, List.map_map, List.map_map]
    exact List.map_congr_left fun p _ => Dirent.index_slotEntry _ p

lemma map_id_listNodes (bytes : List UInt8) (marker : UInt32) :
    (fs.listNodes bytes marker).map Node.id
      = (fs.entryIndices bytes).map (FileId.entry marker) := by
  rw [listNodes, entryIndices]
  split <;> rw [List.map_map, List.map_map] <;> rfl

/-- Every slot starts one entry at most. -/
lemma pairwise_entryPositions (bytes : List UInt8) :
    (fs.entryPositions bytes).Pairwise (· < ·) := by
  rw [entryPositions]
  split
  · exact Exfat.pairwise_startsFrom _ _ _
  · have hall : ((Dirent.liveChunks (chunksExact 32 bytes)).zipIdx 0).Pairwise
        fun p q => p.2 < q.2 := by
      rw [← List.pairwise_map (f := Prod.snd), List.zipIdx_map_snd]
      exact List.pairwise_lt_range'
    exact List.pairwise_map.mpr (hall.filter _)

/-- **When slot indices identify entries**: exactly when no entry of the directory starts at slot
65536 or later. -/
theorem slotsIdentify_iff (fs : FatFs) (source : DirSource) :
    fs.SlotsIdentify source ↔
      ∀ i ∈ fs.entryPositions (fs.readDirBytes source), i < 2 ^ 16 := by
  have hpositions : (fs.entryIndices (fs.readDirBytes source)).map UInt16.toNat
      = fs.entryPositions (fs.readDirBytes source) ↔
        ∀ i ∈ fs.entryPositions (fs.readDirBytes source), i < 2 ^ 16 := by
    rw [entryIndices_eq, map_toNat_u16OrMax_eq_iff]
  refine ⟨fun h => hpositions.mp h.positions, fun hlt => ?_⟩
  have hmono : (fs.entryIndices (fs.readDirBytes source)).Pairwise (· < ·) := by
    rw [entryIndices_eq, List.pairwise_map]
    refine (pairwise_entryPositions _).imp_of_mem fun hi hj hij => ?_
    rwa [UInt16.lt_iff_toNat_lt, toNat_u16OrMax_of_lt (hlt _ hi), toNat_u16OrMax_of_lt (hlt _ hj)]
  have hnodup : ((fs.listNodes (fs.readDirBytes source) (sourceMarker source)).map
      Node.id).Nodup := by
    rw [map_id_listNodes]
    refine (hmono.imp UInt16.ne_of_lt).map _ fun i j hij heq => hij ?_
    rw [FileId.entry.injEq] at heq
    exact heq.2
  refine ⟨hpositions.mpr hlt, hmono, hnodup, fun hbytes n hn => ?_⟩
  obtain ⟨i, hid⟩ := exists_index_of_mem_listNodes hn
  rw [hid, resolveEntry_ok, hbytes]
  exact find?_hasIndex_of_nodup hnodup hn hid

/-! ## A directory without end -/

/-- Clusters whose bytes stay below the cap are all collected. -/
lemma readClusters_eq_of_length {cs : List UInt32}
    (hcs : ∀ c ∈ cs, (fs.geom.clusterOffset c).isSome)
    (hlt : (cs.flatMap fs.clusterBytes).length < MAX_DIR_BYTES) :
    fs.readClusters cs [] = cs.flatMap fs.clusterBytes := by
  have hnone : cs.inits.find? (fun p =>
      MAX_DIR_BYTES ≤ ([] : List UInt8).length + (p.flatMap fs.clusterBytes).length) = none := by
    rw [List.find?_eq_none]
    intro p hp
    obtain ⟨rest, rfl⟩ := (List.mem_inits _ _).mp hp
    rw [List.flatMap_append, List.length_append] at hlt
    rw [List.length_nil, Nat.zero_add, decide_eq_true_eq]
    omega
  rw [readClusters_eq hcs, hnone, Option.getD_none, List.nil_append]

/-- Two slots, of a file and of a read-only one. -/
def twoSlots : List (List UInt8) :=
  [Synth.shortEntry (Synth.name 0x41) 0x20 0 0, Synth.shortEntry (Synth.name 0x42) 0x21 3 7]

/-- A FAT32 volume whose root directory is one cluster, which points to itself. -/
def endless : Synth.Volume where
  image := Synth.bpb 1 0 70000 2 ++ Synth.table 4 [0, 0, 2]
    ++ (List.replicate 8 twoSlots).flatten.flatten
  opens := by decide +kernel

lemma readDirBytes_endless :
    endless.reader.readDirBytes (.chain 2 0 false)
      = (List.replicate 560000 twoSlots).flatten.flatten := by
  have hvolume : endless.reader.geom.variant = .fat32 ∧ endless.reader.maxClusters = 70000 ∧
      fatEntry endless.reader.fat .fat32 2 = 2 ∧
      (endless.reader.geom.clusterOffset 2).isSome ∧
      endless.reader.clusterBytes 2 = (List.replicate 8 twoSlots).flatten.flatten := by
    decide +kernel
  obtain ⟨hvar, hmax, hentry, hoff, hbytes⟩ := hvolume
  have hchain : endless.reader.clusters 2 0 false = List.replicate 70000 2 := by
    rw [clusters_eq_followChain (by decide), hvar, hmax]
    exact followChain_self (by decide) hentry (by decide) (by decide) _
  have hall : (List.replicate 70000 2).flatMap endless.reader.clusterBytes
      = (List.replicate 560000 twoSlots).flatten.flatten := by
    rw [List.flatMap_replicate, hbytes, ← List.map_replicate, ← List.flatten_flatten,
      ← List.map_replicate, ← List.flatten_flatten, List.flatten_replicate_replicate]
  have hlength : (List.replicate 560000 twoSlots).flatten.flatten.length < MAX_DIR_BYTES := by
    rw [List.flatten_flatten, List.map_replicate, List.length_flatten, List.map_replicate,
      List.sum_replicate]
    decide
  rw [readDirBytes, hchain, ← hall]
  refine readClusters_eq_of_length (fun c hc => ?_) (by rwa [hall])
  rw [List.eq_of_mem_replicate hc]
  exact hoff

/-- The two slots alternate. -/
lemma getElem?_twoSlots (k : ℕ) (hk : k < 560000) :
    (List.replicate 560000 twoSlots).flatten[2 * k]?
        = some (Synth.shortEntry (Synth.name 0x41) 0x20 0 0) ∧
      (List.replicate 560000 twoSlots).flatten[2 * k + 1]?
        = some (Synth.shortEntry (Synth.name 0x42) 0x21 3 7) := by
  generalize 560000 = n at hk ⊢
  obtain ⟨m, rfl⟩ : ∃ m, n = k + (m + 1) := ⟨n - k - 1, by omega⟩
  have hlength : (List.replicate k twoSlots).flatten.length = 2 * k := by
    rw [List.length_flatten, List.map_replicate, List.sum_replicate, smul_eq_mul, Nat.mul_comm]
    rfl
  rw [List.replicate_add, List.flatten_append, List.replicate_succ, List.flatten_cons]
  constructor
  · rw [List.getElem?_append_right hlength.le, hlength, Nat.sub_self]
    rfl
  · rw [List.getElem?_append_right (by omega), hlength, Nat.add_sub_cancel_left]
    rfl

/-- A slot of this directory has its entry. -/
lemma exists_mem_listNodes_endless {slot : List UInt8} {i : ℕ}
    (hslot : (List.replicate 560000 twoSlots).flatten[i]? = some slot) :
    ∃ n ∈ endless.reader.listNodes (endless.reader.readDirBytes (.chain 2 0 false)) 2,
      n.id = .entry 2 (u16OrMax i) ∧ n.attributes = (u8At slot 11).toUInt32 := by
  have hmem : ∀ s ∈ (List.replicate 560000 twoSlots).flatten, s ∈ twoSlots := by
    intro s hs
    obtain ⟨l, hl, hs⟩ := List.mem_flatten.mp hs
    rwa [List.eq_of_mem_replicate hl] at hs
  have htwo : ∀ s ∈ twoSlots,
      s.length = 32 ∧ u8At s 0 ≠ Dirent.END ∧ u8At s 11 ≠ Dirent.ATTR_LFN := by
    decide
  have hchunks : chunksExact 32 (List.replicate 560000 twoSlots).flatten.flatten
      = (List.replicate 560000 twoSlots).flatten := by
    have h := chunksExact_flatten_append (by norm_num) (fun s hs => (htwo s (hmem s hs)).1) []
    rwa [List.append_nil, chunksExact_nil, List.append_nil] at h
  have hlive : Dirent.liveChunks (List.replicate 560000 twoSlots).flatten
      = (List.replicate 560000 twoSlots).flatten :=
    List.takeWhile_eq_self_iff.mpr fun s hs => by simpa using (htwo s (hmem s hs)).2.1
  have hvar : endless.reader.geom.variant ≠ .exFat := by
    decide +kernel
  have hentry : (slot, i) ∈ Dirent.entrySlots (List.replicate 560000 twoSlots).flatten 0 := by
    rw [Dirent.entrySlots, hlive]
    refine List.mem_filter.mpr ⟨List.mk_mem_zipIdx_iff_getElem?.mpr hslot, ?_⟩
    simpa using (htwo slot (hmem slot (List.mem_of_getElem? hslot))).2.2
  rw [listNodes, if_neg hvar, readDirBytes_endless, Dirent.parseDirectory_eq, hchunks]
  refine ⟨_, List.mem_map_of_mem (List.mem_map_of_mem hentry), ?_⟩
  rw [nodeFrom, Dirent.index_slotEntry, Dirent.attributes_slotEntry]
  exact ⟨rfl, rfl⟩

/-- **A handle can return another entry**: in the root of `endless`, the files in the slots 65535
and 65536 share their handle. -/
theorem not_slotsIdentify_endless :
    ¬ ∀ (img : List UInt8) (fs : FatFs), openImage img = .ok fs → ∀ dir source,
      fs.dirSource dir = .ok source → fs.SlotsIdentify source := by
  intro h
  have hsource : endless.reader.dirSource .root = .ok (.chain 2 0 false) := by
    decide +kernel
  have hresolve : ∀ n ∈ endless.reader.listNodes (endless.reader.readDirBytes (.chain 2 0 false)) 2,
      endless.reader.resolveEntry n.id = .ok n :=
    (h _ _ endless.openImage_image _ _ hsource).resolve rfl
  obtain ⟨n, hn, hid, hattr⟩ :=
    exists_mem_listNodes_endless (getElem?_twoSlots 32768 (by norm_num)).1
  obtain ⟨m, hm, hid', hattr'⟩ :=
    exists_mem_listNodes_endless (getElem?_twoSlots 32767 (by norm_num)).2
  have hn := hresolve n hn
  have hm := hresolve m hm
  -- one handle for both files
  have hindex : u16OrMax (2 * 32768) = 0xFFFF ∧ u16OrMax (2 * 32767 + 1) = 0xFFFF := by
    decide
  rw [hid, hindex.1] at hn
  rw [hid', hindex.2, hn, Except.ok.injEq] at hm
  rw [← hm, hattr] at hattr'
  exact absurd hattr' (by decide)

end FatFs
end FatForensic
