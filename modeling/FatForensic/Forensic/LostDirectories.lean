import FatForensic.Forensic.Walk
import FatForensic.Volume.SlotIndex
import FatForensic.Volume.Synth

/-!
# Directories that the walk loses

The walk enters a live directory by its handle, which is resolved again from the first cluster of
the directory that lists it.  Where that leads to something else, `read_dir` fails and the walk
returns without a finding.
-/

namespace FatForensic
namespace Audit

open DepthSearch Window

variable {fs : FatFs}

/-! ## Where a handle leads -/

/-- The bytes that a marker leads to: the fixed root region, or the FAT chain of a cluster. -/
def markerBytes (fs : FatFs) (marker : UInt32) : List UInt8 :=
  if marker = FIXED_ROOT then slice fs.image fs.geom.rootDirStart fs.geom.rootDirBytes
  else if marker < 2 then [] else fs.chainBytes marker

/-- Whether a slot that an entry starts at is one of a directory. -/
def isDirSlot (fs : FatFs) (slot : List UInt8) : Bool :=
  if fs.geom.variant = .exFat then leU16 slot 4 &&& 0x10 ≠ 0
  else u8At slot 11 &&& 0x10 ≠ 0 ∧ u8At slot 11 &&& 0x08 = 0

/-- Whether the first entry with a slot index in the bytes of a directory starts at the slot of a
directory. -/
def DirectoryAt (fs : FatFs) (bytes : List UInt8) (index : UInt16) : Prop :=
  ∃ i, (fs.entryPositions bytes).find? (fun i => u16OrMax i = index) = some i ∧
    ((chunksExact 32 bytes)[i]?.any (isDirSlot fs)) = true

/-- Whether a directory is read where its marker leads to. -/
def FollowsFat : DirSource → Prop
  | .fixedRoot => True
  | .chain first size contiguous => first ≠ FIXED_ROOT ∧ ¬ (contiguous ∧ size > 0)

/-- The walk keeps the directories that it enters, which are those at the ends of the first paths
below the cap: where the directory before the last step is not read where its marker leads to,
or the slot index is the largest one, the first entry with this index where the marker leads to
is one of a directory. -/
def KeepsDirectories (fs : FatFs) : Prop :=
  ∀ (path : List (Step UInt32 FileId)) (step : Step UInt32 FileId),
    path ++ [step] ∈ firstPaths (walkItems fs) MAX_DEPTH FatFs.root → path.length + 1 < MAX_DEPTH →
      ∀ source, fs.dirSource (target FatFs.root path) = .ok source →
        ∀ index, step.next = .entry (sourceMarker source) index →
          ¬ FollowsFat source ∨ index = 0xFFFF →
            DirectoryAt fs (markerBytes fs (sourceMarker source)) index

lemma readDirBytes_marker (hvalid : fs.geom.Valid) (marker : UInt32) :
    fs.readDirBytes (FatFs.parentSource marker) = markerBytes fs marker := by
  rw [FatFs.parentSource, markerBytes]
  split
  · rw [FatFs.readDirBytes, FatFs.readRegionVec_eq]
  split
  next h2 => rw [FatFs.readDirBytes, FatFs.clusters, if_pos h2, FatFs.readClusters]
  next h2 => exact FatFs.readDirBytes_chain hvalid (UInt32.not_lt.mp h2)

/-- A directory that follows the FAT is read where its marker leads to. -/
lemma markerBytes_of_followsFat (hvalid : fs.geom.Valid) {source : DirSource}
    (h : FollowsFat source) : markerBytes fs (sourceMarker source) = fs.readDirBytes source := by
  rw [← readDirBytes_marker hvalid]
  cases source with
  | fixedRoot => rfl
  | chain first size contiguous =>
    obtain ⟨hne, hcont⟩ := h
    rw [sourceMarker, FatFs.parentSource, if_neg hne, FatFs.readDirBytes, FatFs.readDirBytes,
      FatFs.clusters_of_not_contiguous first hcont]

/-! ## Slots of directories -/

/-- The nodes of a listing are those of the slots that entries start at. -/
lemma exists_nodeAt (fs : FatFs) (bytes : List UInt8) (marker : UInt32) :
    ∃ f : ℕ → Node, fs.listNodes bytes marker = (fs.entryPositions bytes).map f ∧
      ∀ i ∈ fs.entryPositions bytes, (f i).id = .entry marker (u16OrMax i) ∧
        (f i).isDir = (chunksExact 32 bytes)[i]?.any (isDirSlot fs) := by
  by_cases hvar : fs.geom.variant = .exFat
  · have hpos : fs.entryPositions bytes = Exfat.setStarts (chunksExact 32 bytes) := by
      rw [FatFs.entryPositions, if_pos hvar]
    refine ⟨fun i => nodeFromExfat marker (Exfat.setEntry (chunksExact 32 bytes) i), ?_, ?_⟩
    · rw [FatFs.listNodes, if_pos hvar, Exfat.parseDirectory_eq, List.map_map, hpos]
      rfl
    · intro i hi
      rw [hpos] at hi
      obtain ⟨s, hs, -⟩ := Exfat.isFileAt_eq_true.mp (Exfat.mem_setStarts.mp hi).2
      have hget : (chunksExact 32 bytes).getD i [] = s := by
        rw [List.getD_eq_getElem?_getD, hs, Option.getD_some]
      refine ⟨rfl, ?_⟩
      rw [hs, Option.any_some, isDirSlot, if_pos hvar, ← hget]
      rfl
  · have hpos : fs.entryPositions bytes
        = (Dirent.entrySlots (chunksExact 32 bytes) 0).map Prod.snd := by
      rw [FatFs.entryPositions, if_neg hvar]
    have hget : ∀ p ∈ Dirent.entrySlots (chunksExact 32 bytes) 0,
        (chunksExact 32 bytes)[p.2]? = some p.1 := fun p hp =>
      Dirent.getElem?_of_mem_entrySlots hp
    refine ⟨fun i => nodeFrom marker (Dirent.slotEntry (chunksExact 32 bytes)
      ((chunksExact 32 bytes).getD i [], i)), ?_, ?_⟩
    · rw [FatFs.listNodes, if_neg hvar, Dirent.parseDirectory_eq, List.map_map, hpos, List.map_map]
      refine List.map_congr_left fun p hp => ?_
      simp only [Function.comp_apply, List.getD_eq_getElem?_getD, hget p hp, Option.getD_some]
    · intro i hi
      rw [hpos] at hi
      obtain ⟨⟨slot, i⟩, hp, rfl⟩ := List.mem_map.mp hi
      have hslot := hget _ hp
      have hattr : u8At slot 11 ≠ Dirent.ATTR_LFN := by
        simpa using (List.mem_filter.mp hp).2
      have hfields := Dirent.hasFieldsOf_slotEntry (chunksExact 32 bytes) (slot, i)
      simp only [List.getD_eq_getElem?_getD, hslot, Option.getD_some, Option.any_some]
      refine ⟨congrArg (FileId.entry marker) (Dirent.index_slotEntry _ _), ?_⟩
      have hlabel : (Dirent.slotEntry (chunksExact 32 bytes) (slot, i)).isVolumeLabel = false ↔
          u8At slot 11 &&& 0x08 = 0 := by
        rw [← Bool.not_eq_true, hfields.isVolumeLabel]
        simp [hattr, Dirent.ATTR_VOLUME_ID]
      rw [isDirSlot, if_neg hvar, Bool.eq_iff_iff, decide_eq_true_eq, ← hlabel]
      exact hfields.isDir

/-- A listing has a directory at a slot index when its bytes have. -/
lemma find?_isDir_iff (fs : FatFs) (bytes : List UInt8) (marker : UInt32) (index : UInt16) :
    (∃ n, (fs.listNodes bytes marker).find? (FatFs.hasIndex index) = some n ∧ n.isDir = true) ↔
      DirectoryAt fs bytes index := by
  obtain ⟨f, hlist, hf⟩ := exists_nodeAt fs bytes marker
  have hfind : (fs.entryPositions bytes).find? (FatFs.hasIndex index ∘ f)
      = (fs.entryPositions bytes).find? fun i => u16OrMax i = index := by
    refine List.find?_congr fun i hi => ?_
    rw [Function.comp_apply, FatFs.hasIndex, (hf i hi).1]
  rw [hlist, List.find?_map, hfind, DirectoryAt]
  cases hi : (fs.entryPositions bytes).find? fun i => u16OrMax i = index with
  | none => simp
  | some i =>
    have := (hf i (List.mem_of_find?_eq_some hi)).2
    simp [this]

/-- A directory that is listed is found under its index, unless this is the largest one. -/
lemma directoryAt_of_mem_listNodes {bytes : List UInt8} {marker : UInt32} {n : Node}
    (hn : n ∈ fs.listNodes bytes marker) (hdir : n.isDir = true) {index : UInt16}
    (hid : n.id = .entry marker index) (hindex : index ≠ 0xFFFF) :
    DirectoryAt fs bytes index := by
  obtain ⟨f, hlist, hf⟩ := exists_nodeAt fs bytes marker
  rw [hlist] at hn
  obtain ⟨i, hi, rfl⟩ := List.mem_map.mp hn
  obtain ⟨hid', hdir'⟩ := hf i hi
  rw [hid', FileId.entry.injEq] at hid
  -- no other position is stored under this index
  have hinj : ∀ j, u16OrMax j = index → j = index.toNat := by
    rintro j rfl
    have hne : (u16OrMax j).toNat ≠ 65535 := fun h => hindex (UInt16.toNat_inj.mp h)
    rw [toNat_u16OrMax] at hne ⊢
    omega
  obtain ⟨j, hj⟩ := Option.isSome_iff_exists.mp (List.find?_isSome
    (p := fun i => decide (u16OrMax i = index)).mpr ⟨i, hi, decide_eq_true hid.2⟩)
  have hjindex : u16OrMax j = index := by simpa using List.find?_some hj
  have hji : j = i := (hinj j hjindex).trans (hinj i hid.2).symm
  exact ⟨j, hj, by rw [hji, ← hdir', hdir]⟩

/-! ## When the walk loses no directory -/

/-- `read_dir` succeeds for a handle when there is a directory where it leads to. -/
lemma readDir_ok_iff (hvalid : fs.geom.Valid) (marker : UInt32) (index : UInt16) :
    (∃ nodes, fs.readDir (.entry marker index) = .ok nodes) ↔
      DirectoryAt fs (markerBytes fs marker) index := by
  have hresolve : ∀ n, fs.resolveEntry (.entry marker index) = .ok n ↔
      (fs.listNodes (markerBytes fs marker) marker).find? (FatFs.hasIndex index) = some n := by
    intro n
    rw [FatFs.resolveEntry_ok, readDirBytes_marker hvalid]
  rw [← find?_isDir_iff fs _ marker]
  constructor
  · rintro ⟨nodes, hnodes⟩
    obtain ⟨source, hsource, -⟩ := FatFs.readDir_ok.mp hnodes
    obtain ⟨n, hn, hdir, -⟩ := FatFs.dirSource_entry_ok.mp hsource
    exact ⟨n, (hresolve n).mp hn, hdir⟩
  · rintro ⟨n, hn, hdir⟩
    exact ⟨_, FatFs.readDir_ok.mpr
      ⟨_, FatFs.dirSource_entry_ok.mpr ⟨n, (hresolve n).mpr hn, hdir, rfl⟩, rfl⟩⟩

/-- **When the walk loses no directory**: `read_dir` succeeds on every directory that the walk
calls it on exactly when the entries that it enters in directories that are not read where their
marker leads to, or under the largest index, are found as directories there. -/
theorem readDirCalls_ok_iff {img : List UInt8} (hopen : FatFs.openImage img = .ok fs) :
    auditReader img = .ok (findings (auditTrace img fs)) ∧
      ((∀ dir ∈ readDirCalls img fs, dir ≠ FatFs.root → ∃ nodes, fs.readDir dir = .ok nodes) ↔
        KeepsDirectories fs) := by
  have hvalid := FatFs.openImage_valid hopen
  refine ⟨auditReader_eq_findings hopen, fun hok => ?_, fun hkeeps => ?_⟩
  · intro path step hpath hlen source _ index hid _
    have hcall : step.next ∈ readDirCalls img fs := by
      rw [mem_readDirCalls, firstDirs, List.mem_map]
      exact ⟨path ++ [step], List.mem_filter.mpr ⟨hpath, by simpa using hlen⟩, target_concat _ _⟩
    rw [hid] at hcall
    exact (readDir_ok_iff hvalid _ _).mp (hok _ hcall FileId.noConfusion)
  · intro dir hcall hroot
    obtain ⟨p, hp, rfl⟩ := List.mem_map.mp (mem_readDirCalls.mp hcall)
    obtain ⟨hp, hlen⟩ := List.mem_filter.mp hp
    rcases List.eq_nil_or_concat' p with rfl | ⟨path, step, rfl⟩
    · exact absurd target_nil hroot
    obtain ⟨-, hitem⟩ := parent_of_mem_firstPaths hp
    obtain ⟨n, hn, hent, -, hnext⟩ := exists_node_of_descend hitem
    obtain ⟨source, hsource⟩ := dirSource_of_mem_nodesOf hn
    rw [nodesOf_eq (FatFs.readDir_ok.mpr ⟨source, hsource, rfl⟩)] at hn
    obtain ⟨index, hid⟩ := FatFs.exists_index_of_mem_listNodes hn
    have hdir : n.isDir = true := by
      simp only [isEntered, decide_eq_true_eq] at hent
      exact hent.2.2.2.1
    rw [target_concat, ← hnext, hid, readDir_ok_iff hvalid]
    by_cases hfat : FollowsFat source ∧ index ≠ 0xFFFF
    · rw [markerBytes_of_followsFat hvalid hfat.1]
      exact directoryAt_of_mem_listNodes hn hdir hid hfat.2
    · refine hkeeps path step hp (by simpa using hlen) source hsource index (hnext ▸ hid) ?_
      exact (not_and_or.mp hfat).imp_right not_not.mp

/-- The walk of the pruned volume loses no directory: all of them are FAT chains. -/
theorem readDirCalls_ok_pruned :
    FileId.entry 2 1 ∈ readDirCalls Synth.pruned.image Synth.pruned.reader ∧
      ∀ dir ∈ readDirCalls Synth.pruned.image Synth.pruned.reader, dir ≠ FatFs.root →
        ∃ nodes, Synth.pruned.reader.readDir dir = .ok nodes := by
  have hvolume : FileId.entry 2 1 ∈ firstDirs Synth.pruned.reader ∧
      ∀ p ∈ firstPaths (walkItems Synth.pruned.reader) MAX_DEPTH FatFs.root,
        (∀ s ∈ p.getLast?, s.next = .entry 2 1) ∧
          ∀ source ∈ (Synth.pruned.reader.dirSource (target FatFs.root p)).toOption,
            source = .chain 2 0 false ∨ source = .chain 3 0 false := by
    decide +kernel
  obtain ⟨hcall, hpaths⟩ := hvolume
  refine ⟨mem_readDirCalls.mpr hcall,
    (readDirCalls_ok_iff Synth.pruned.openImage_image).2.mpr ?_⟩
  intro path step hpath _ source hsource index hid hcase
  obtain ⟨hpath', -⟩ := parent_of_mem_firstPaths hpath
  have hnext := (hpaths _ hpath).1 step (by simp)
  have hchain := (hpaths _ hpath').2 source (by rw [hsource]; rfl)
  have hfat : FollowsFat source := by
    rcases hchain with rfl | rfl <;> exact ⟨by decide, by simp⟩
  obtain rfl := hcase.resolve_left (not_not.mpr hfat)
  rw [hid] at hnext
  simp at hnext

/-- An exFAT volume whose root lists a contiguous directory in the clusters 3 and 4.  The FAT
holds nothing for them; the second one lists a directory. -/
def buried : Synth.Volume where
  image := Synth.exfatBoot 4 ++ Synth.table 4 [0, 0, 0xFFFFFFFF]
    ++ Synth.sectors 1 (FatFs.letterRecord 0x44 0x10 3 1024 true).slots.flatten
    ++ List.replicate 512 1
    ++ Synth.sectors 1 (FatFs.letterRecord 0x46 0x10 5 512 true).slots.flatten
  opens := by decide +kernel

/-- **A live directory can be lost**: the walk calls `read_dir` on the directory in the second
cluster of the directory of `buried`, and it fails. -/
theorem not_readDirCalls_ok_buried :
    ¬ ∀ (img : List UInt8) (fs : FatFs), FatFs.openImage img = .ok fs →
      ∀ dir ∈ readDirCalls img fs, dir ≠ FatFs.root → ∃ nodes, fs.readDir dir = .ok nodes := by
  intro h
  have hcall : FileId.entry 3 16 ∈ firstDirs buried.reader ∧
      (buried.reader.readDir (.entry 3 16)).toOption = none := by
    decide +kernel
  obtain ⟨hmem, hnone⟩ := hcall
  obtain ⟨nodes, hnodes⟩ := h _ _ buried.openImage_image _ (mem_readDirCalls.mpr hmem)
    FileId.noConfusion
  rw [hnodes] at hnone
  exact absurd hnone (by simp [Except.toOption])

end Audit
end FatForensic
