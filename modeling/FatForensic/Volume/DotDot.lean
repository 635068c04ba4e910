import FatForensic.Volume.Handles
import FatForensic.Volume.Synth

/-!
# The way up

FAT records the parent of a subdirectory as the first cluster of its `..` entry, with cluster 0
for the root.  The reader takes that field at its word: a first cluster that is the parent's
leads to the parent, and cluster 0 leads to no data at all.
-/

namespace FatForensic
namespace FatFs

variable {fs : FatFs}

/-- The name of the entry that leads to the parent. -/
def dotDot : List UInt8 := [0x2E, 0x2E]

/-- A directory slot as FAT prescribes it for the `..` entry of a subdirectory of `P`. -/
structure FollowsConvention (fs : FatFs) (P : FileId) (slot : Node) : Prop where
  isDir : slot.isDir = true
  of_root : P = .root → slot.firstCluster = 0
  of_entry : ∀ p, P ≠ .root → fs.nodeMeta P = .ok p → slot.firstCluster = p.firstCluster

/-- `lookup` finds `id` as the `..` of the live subdirectory `D` of `P`, and the slot that `id`
addresses follows the convention. -/
structure DotDot (fs : FatFs) (P : FileId) (D : Node) (id : FileId) : Prop where
  reachable : fs.Reachable P
  listed : ∃ nodes, fs.readDir P = .ok nodes ∧ D ∈ nodes
  isDir : D.isDir = true
  live : D.isDeleted = false
  lookup : fs.lookup D.id dotDot = .ok (some id)
  slot : ∃ slot, fs.nodeMeta id = .ok slot ∧ fs.FollowsConvention P slot

/-! ## What `lookup` finds -/

lemma lookup_ok {dir id : FileId} {name : List UInt8} (h : fs.lookup dir name = .ok (some id)) :
    ∃ nodes, fs.readDir dir = .ok nodes ∧ ∃ n ∈ nodes, n.id = id ∧ n.isDeleted = false ∧
      n.isVolumeLabel = false ∧ n.name.toUTF8.data.toList = name := by
  obtain ⟨nodes, hnodes, h⟩ := bind_eq_ok.mp h
  rw [Except.ok.injEq, Option.map_eq_some_iff] at h
  obtain ⟨n, hfind, hid⟩ := h
  have hn := List.find?_some hfind
  simp only [Bool.and_eq_true, Bool.not_eq_true', beq_iff_eq] at hn
  exact ⟨nodes, hnodes, n, List.mem_of_find?_eq_some hfind, hid, hn.1.1, hn.1.2, hn.2⟩

/-- The handle that `lookup` finds is an entry's. -/
lemma exists_entry_of_lookup {dir id : FileId} {name : List UInt8}
    (h : fs.lookup dir name = .ok (some id)) : ∃ d i, id = .entry d i := by
  obtain ⟨nodes, hnodes, n, hn, rfl, -⟩ := lookup_ok h
  obtain ⟨source, -, rfl⟩ := readDir_ok.mp hnodes
  obtain ⟨i, hid⟩ := exists_index_of_mem_listNodes hn
  exact ⟨_, i, hid⟩

/-- **`lookup` finds what it was asked for**: in an image no longer than its declared volume, the
handle that it finds in a directory of at most 65536 slots addresses a live entry of that
name. -/
theorem nodeMeta_of_lookup {img : List UInt8} (hopen : openImage img = .ok fs)
    (hvar : fs.geom.variant ≠ .exFat)
    (hlen : img.length ≤ fs.geom.totalSectors * fs.geom.bytesPerSector) {dir : FileId}
    {source : DirSource} (hsource : fs.dirSource dir = .ok source)
    (hslots : (fs.readDirBytes source).length / 32 ≤ 65536) {name : List UInt8} {id : FileId}
    (h : fs.lookup dir name = .ok (some id)) :
    ∃ n, fs.nodeMeta id = .ok n ∧ n.isDeleted = false ∧ n.name.toUTF8.data.toList = name := by
  obtain ⟨nodes, hnodes, n, hn, rfl, hlive, -, hname⟩ := lookup_ok h
  exact ⟨n, nodeMeta_of_mem_readDir hopen hvar hlen hsource hslots hnodes hn, hlive, hname⟩

/-! ## Where the entry leads -/

/-- Two directory entries of a FAT volume with one first cluster list the same nodes. -/
lemma readDir_eq_of_firstCluster (hvar : fs.geom.variant ≠ .exFat) {d d' : UInt32}
    {i i' : UInt16} {n n' : Node} (hn : fs.nodeMeta (.entry d i) = .ok n)
    (hn' : fs.nodeMeta (.entry d' i') = .ok n') (hdir : n.isDir = true) (hdir' : n'.isDir = true)
    (hfirst : n.firstCluster = n'.firstCluster) :
    fs.readDir (.entry d i) = fs.readDir (.entry d' i') := by
  have hsource := dirSource_entry_ok.mpr ⟨n, hn, hdir, rfl⟩
  have hsource' := dirSource_entry_ok.mpr ⟨n', hn', hdir', rfl⟩
  rw [contiguous_of_resolveEntry hvar hn] at hsource
  rw [contiguous_of_resolveEntry hvar hn', ← hfirst] at hsource'
  have hread := readDir_ok.mpr ⟨_, hsource, rfl⟩
  rw [readDirBytes, clusters_chain n.firstCluster n.size n'.size] at hread
  rw [hread]
  exact (readDir_ok.mpr ⟨_, hsource', rfl⟩).symm

/-- A directory entry with first cluster 0 lists nothing. -/
lemma readDir_of_firstCluster_zero {d : UInt32} {i : UInt16} {n : Node}
    (hn : fs.nodeMeta (.entry d i) = .ok n) (hdir : n.isDir = true) (hfirst : n.firstCluster = 0) :
    fs.readDir (.entry d i) = .ok [] := by
  refine readDir_ok.mpr ⟨_, dirSource_entry_ok.mpr ⟨n, hn, hdir, rfl⟩, ?_⟩
  rw [readDirBytes, clusters, hfirst, if_pos (by decide), readClusters, listNodes_nil]

/-- **When `..` leads to the parent**: whenever the parent is not the root. -/
theorem DotDot.readDir_eq_iff (hvar : fs.geom.variant ≠ .exFat) {P id : FileId} {D : Node}
    (h : fs.DotDot P D id) : fs.readDir id = fs.readDir P ↔ P ≠ .root := by
  obtain ⟨slot, hslot, hconv⟩ := h.slot
  obtain ⟨d, i, rfl⟩ := exists_entry_of_lookup h.lookup
  obtain ⟨nodes, hnodes, hD⟩ := h.listed
  cases P with
  | root =>
    refine iff_of_false (fun heq => ?_) (by simp)
    rw [readDir_of_firstCluster_zero hslot hconv.isDir (hconv.of_root rfl), hnodes,
      Except.ok.injEq] at heq
    rw [← heq] at hD
    exact absurd hD (by simp)
  | entry d' i' =>
    refine iff_of_true ?_ (by simp)
    obtain ⟨source, hsource, -⟩ := readDir_ok.mp hnodes
    obtain ⟨p, hp, hdir, -⟩ := dirSource_entry_ok.mp hsource
    exact readDir_eq_of_firstCluster hvar hslot hp hconv.isDir hdir
      (hconv.of_entry p (by simp) hp)

/-- The name field of `.` and `..`. -/
def dots (n : ℕ) : List UInt8 := List.replicate n 0x2E ++ List.replicate (11 - n) 0x20

/-- A FAT12 volume whose root lists a directory in cluster 2 that lists one in cluster 3, both
with the entries of the convention. -/
def twoDeep : Synth.Volume where
  image := Synth.bpb 1 16 5 0 ++ Synth.table 1 [0xF8, 0xFF, 0xFF, 0xFF, 0xFF, 0xFF]
    ++ Synth.sectors 1 (Synth.shortEntry (Synth.name 0x41) 0x10 2 0)
    ++ Synth.sectors 1 (Synth.shortEntry (dots 1) 0x10 2 0 ++ Synth.shortEntry (dots 2) 0x10 0 0
      ++ Synth.shortEntry (Synth.name 0x42) 0x10 3 0)
    ++ Synth.sectors 1 (Synth.shortEntry (dots 1) 0x10 3 0 ++ Synth.shortEntry (dots 2) 0x10 2 0)
  opens := by decide +kernel

/-- What a listing says of the ids of live directories. -/
def liveDirs (nodes : List Node) : List FileId :=
  (nodes.filter fun n => n.isDir && !n.isDeleted).map Node.id

lemma exists_of_mem_liveDirs {nodes : List Node} {id : FileId} (h : id ∈ liveDirs nodes) :
    ∃ D ∈ nodes, D.id = id ∧ D.isDir = true ∧ D.isDeleted = false := by
  obtain ⟨D, hD, rfl⟩ := List.mem_map.mp h
  obtain ⟨hmem, hlive⟩ := List.mem_filter.mp hD
  rw [Bool.and_eq_true, Bool.not_eq_true'] at hlive
  exact ⟨D, hmem, rfl, hlive⟩

lemma listings_twoDeep :
    twoDeep.reader.readDir .root = .ok (twoDeep.listing .root) ∧
      .entry FIXED_ROOT 0 ∈ liveDirs (twoDeep.listing .root) ∧
      twoDeep.reader.readDir (.entry FIXED_ROOT 0)
        = .ok (twoDeep.listing (.entry FIXED_ROOT 0)) ∧
      .entry 2 2 ∈ liveDirs (twoDeep.listing (.entry FIXED_ROOT 0)) := by
  decide +kernel

lemma dotDots_twoDeep :
    twoDeep.reader.lookup (.entry FIXED_ROOT 0) dotDot = .ok (some (.entry 2 1)) ∧
      twoDeep.reader.lookup (.entry 2 2) dotDot = .ok (some (.entry 3 1)) ∧
      ((twoDeep.reader.nodeMeta (.entry 2 1)).map fun n => (n.isDir, n.firstCluster))
        = .ok (true, 0) ∧
      ((twoDeep.reader.nodeMeta (.entry 3 1)).map fun n => (n.isDir, n.firstCluster))
        = .ok (true, 2) ∧
      (twoDeep.reader.nodeMeta (.entry FIXED_ROOT 0)).map Node.firstCluster = .ok 2 := by
  decide +kernel

/-- The `..` of the directory of the root. -/
lemma dotDot_root_twoDeep :
    ∃ D, twoDeep.reader.DotDot .root D (.entry 2 1) := by
  obtain ⟨hread, hdir, -⟩ := listings_twoDeep
  obtain ⟨hlookup, -, hslot, -⟩ := dotDots_twoDeep
  obtain ⟨D, hD, hid, hisDir, hlive⟩ := exists_of_mem_liveDirs hdir
  obtain ⟨slot, hmeta, hslot⟩ := map_eq_ok.mp hslot
  rw [Prod.mk.injEq] at hslot
  exact ⟨D, .root, ⟨_, hread, hD⟩, hisDir, hlive, by rw [hid, hlookup], slot, hmeta, hslot.1,
    fun _ => hslot.2, fun _ hne => absurd rfl hne⟩

/-- The `..` of the directory below it. -/
lemma dotDot_entry_twoDeep :
    ∃ D, twoDeep.reader.DotDot (.entry FIXED_ROOT 0) D (.entry 3 1) := by
  obtain ⟨hroot, htop, hread, hdir⟩ := listings_twoDeep
  obtain ⟨-, hlookup, -, hslot, hparent⟩ := dotDots_twoDeep
  obtain ⟨P, hP, hPid, hPdir, -⟩ := exists_of_mem_liveDirs htop
  obtain ⟨D, hD, hid, hisDir, hlive⟩ := exists_of_mem_liveDirs hdir
  obtain ⟨slot, hmeta, hslot⟩ := map_eq_ok.mp hslot
  obtain ⟨p, hp, hfirst⟩ := map_eq_ok.mp hparent
  rw [Prod.mk.injEq] at hslot
  refine ⟨D, hPid ▸ .step .root hroot hP hPdir, ⟨_, hread, hD⟩, hisDir, hlive, by rw [hid, hlookup],
    slot, hmeta, hslot.1, fun h => absurd h (by simp), fun p' _ hp' => ?_⟩
  rw [hp, Except.ok.injEq] at hp'
  rw [hslot.2, ← hp', hfirst]

/-- The `..` entry in cluster 3 of `twoDeep` leads back to cluster 2. -/
theorem readDir_eq_iff_twoDeep :
    twoDeep.reader.readDir (.entry 3 1) = twoDeep.reader.readDir (.entry FIXED_ROOT 0) ↔
      FileId.entry FIXED_ROOT 0 ≠ .root := by
  obtain ⟨D, h⟩ := dotDot_entry_twoDeep
  exact h.readDir_eq_iff (by decide +kernel)

/-- **The way up ends below the root**: the `..` entry in cluster 2 of `twoDeep` follows the
convention, and lists nothing. -/
theorem not_readDir_eq_twoDeep :
    ¬ ∀ (img : List UInt8) (fs : FatFs), openImage img = .ok fs → fs.geom.variant ≠ .exFat →
      ∀ P D id, fs.DotDot P D id → fs.readDir id = fs.readDir P := by
  intro h
  obtain ⟨D, hdot⟩ := dotDot_root_twoDeep
  have heq := h _ _ twoDeep.openImage_image (by decide +kernel) _ _ _ hdot
  have hne : twoDeep.reader.readDir (.entry 2 1) ≠ twoDeep.reader.readDir .root := by
    decide +kernel
  exact hne heq

end FatFs
end FatForensic
