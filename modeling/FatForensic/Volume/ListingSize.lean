import FatForensic.Volume.Handles
import FatForensic.Volume.Layout
import FatForensic.Volume.SlotIndex

/-!
# How large a listing can be

A directory is read up to a cap, and what a listing holds is linear in the bytes that were read:
no slot makes more than one node, and no slot adds more than 15 characters to the names.  So no
volume can make the reader hold more than a fixed amount.
-/

namespace FatForensic

open Window

/-! ## FAT directories -/

namespace Dirent

lemma length_trim_le (bytes : List UInt8) : (trim bytes).length ≤ bytes.length := by
  rw [trim, List.length_map]
  exact (List.rdropWhile_prefix _ bytes).length_le

/-- A short name has at most 12 characters. -/
lemma length_decodeShortName_le (raw : List UInt8) (ntFlags : UInt8)
    (isVolumeLabel deleted : Bool) :
    (decodeShortName raw ntFlags isVolumeLabel deleted).length ≤ 12 := by
  have hlower : ∀ (p : Prop) [Decidable p] (cs : List Char),
      (if p then cs.map Char.toLower else cs).length = cs.length := by
    intro p _ cs
    split
    · rw [List.length_map]
    · rfl
  have hdot : ∀ base ext : List Char, base.length ≤ 8 → ext.length ≤ 3 →
      (if ext.isEmpty then String.ofList base else String.ofList (base ++ '.' :: ext)).length
        ≤ 12 := by
    intro base ext hbase hext
    split
    · rw [String.length_ofList]
      omega
    · rw [String.length_ofList, List.length_append, List.length_cons]
      omega
  have hbytes : (renderedBytes raw deleted).length ≤ 11 := by
    rw [renderedBytes, List.length_cons, length_slice]
    omega
  have hbase := length_trim_le (slice (renderedBytes raw deleted) 0 8)
  have hext := length_trim_le (slice (renderedBytes raw deleted) 8 3)
  have hlabel := length_trim_le (renderedBytes raw deleted)
  rw [length_slice] at hbase hext
  rw [decodeShortName]
  dsimp only
  split
  · rw [String.length_ofList]
    omega
  · exact hdot _ _ (by rw [hlower]; omega) (by rw [hlower]; omega)

/-- A long name has no more characters than its parts have units. -/
lemma length_reassembleLong_le {parts : List (UInt8 × List UInt16)} {checksum : Option UInt8}
    {shortRaw : List UInt8} {name : String} (hparts : ∀ p ∈ parts, p.2.length ≤ 13)
    (h : reassembleLong parts checksum shortRaw = some name) :
    name.length ≤ 13 * parts.length := by
  have hunits : ((parts.insertionSort fun p q => p.1 ≤ q.1).flatMap fun p => partUnits p.2).length
      ≤ 13 * parts.length := by
    rw [List.length_flatMap, ← (List.perm_insertionSort (fun p q : UInt8 × List UInt16 =>
      p.1 ≤ q.1) parts).length_eq, Nat.mul_comm]
    refine (List.sum_le_card_nsmul _ 13 fun n hn => ?_).trans_eq (by rw [List.length_map]; rfl)
    obtain ⟨p, hp, rfl⟩ := List.mem_map.mp hn
    have hle := hparts p ((List.perm_insertionSort _ parts).mem_iff.mp hp)
    exact ((List.length_filter_le _ _).trans (List.takeWhile_prefix _).length_le).trans hle
  cases checksum with
  | none => exact absurd h (by simp [reassembleLong])
  | some checksum =>
    rw [reassembleLong] at h
    dsimp only at h
    split at h
    · exact absurd h (by simp)
    split at h
    · exact absurd h (by simp)
    · rw [Option.some.injEq] at h
      rw [← h]
      exact (Utf16.length_fromUtf16Lossy_le _).trans hunits

/-- **What is listed is linear in the slots**, those of the pending long name included. -/
lemma sum_length_parseFrom_le (chunks : List (List UInt8)) (idx : ℕ)
    (parts : List (UInt8 × List UInt16)) (checksum : Option UInt8)
    (hparts : ∀ p ∈ parts, p.2.length ≤ 13) :
    (parseFrom chunks idx parts checksum).length ≤ chunks.length ∧
      ((parseFrom chunks idx parts checksum).map fun e => e.name.length).sum
        ≤ 13 * (chunks.length + parts.length) := by
  induction chunks generalizing idx parts checksum with
  | nil => simp [parseFrom]
  | cons chunk rest ih =>
    have hnone : ∀ p ∈ ([] : List (UInt8 × List UInt16)), p.2.length ≤ 13 :=
      fun p hp => absurd hp List.not_mem_nil
    obtain ⟨hcount, hsum⟩ := ih (idx + 1) [] none hnone
    rw [List.length_nil] at hsum
    rw [parseFrom]
    dsimp only
    split
    · simp
    split
    · -- a deleted slot
      split
      · rw [List.length_cons]
        omega
      · have hshort := length_decodeShortName_le (slice chunk 0 11) (u8At chunk 12)
          (decide (u8At chunk 11 &&& ATTR_VOLUME_ID ≠ 0 ∧ u8At chunk 11 ≠ ATTR_LFN)) true
        have hname : (decodeShort chunk idx none true).name.length ≤ 12 := hshort
        rw [List.length_cons, List.length_cons, List.map_cons, List.sum_cons]
        omega
    split
    · -- a slot of a long name
      have hmore : ∀ p ∈ parts ++ [(u8At chunk 0 &&& 0x1F, lfnChars chunk)], p.2.length ≤ 13 := by
        intro p hp
        rcases List.mem_append.mp hp with hp | hp
        · exact hparts p hp
        · rw [List.mem_singleton.mp hp, lfnChars, List.length_map]
          decide
      obtain ⟨hcount, hsum⟩ := ih (idx + 1) _ (some (u8At chunk 13)) hmore
      rw [List.length_append, List.length_singleton] at hsum
      rw [List.length_cons]
      omega
    · -- a live short entry takes the pending name
      have hname : (decodeShort chunk idx (reassembleLong parts checksum (slice chunk 0 11))
          false).name.length ≤ 13 * (1 + parts.length) := by
        cases hlong : reassembleLong parts checksum (slice chunk 0 11) with
        | none =>
          have hshort := length_decodeShortName_le (slice chunk 0 11) (u8At chunk 12)
            (decide (u8At chunk 11 &&& ATTR_VOLUME_ID ≠ 0 ∧ u8At chunk 11 ≠ ATTR_LFN)) false
          have hle : (decodeShort chunk idx none false).name.length ≤ 12 := hshort
          omega
        | some name =>
          have hle := length_reassembleLong_le hparts hlong
          have heq : (decodeShort chunk idx (some name) false).name = name := rfl
          rw [heq]
          omega
      rw [List.length_cons, List.length_cons, List.map_cons, List.sum_cons]
      omega

end Dirent

/-! ## exFAT directories -/

namespace Exfat

/-- The units of a set come from its File Name entries. -/
lemma length_foldl_step_le (secondaries : List (List UInt8)) (st : SetState) :
    (secondaries.foldl SetState.step st).units.length
      ≤ st.units.length + 15 * secondaries.length := by
  induction secondaries generalizing st with
  | nil => exact Nat.le_add_right _ _
  | cons s rest ih =>
    have hstep : (st.step s).units.length ≤ st.units.length + 15 := by
      rw [SetState.step]
      split
      · exact Nat.le_add_right _ _
      split
      · rw [List.length_append, nameUnits, List.length_map, List.length_range]
      · exact Nat.le_add_right _ _
    have hrest := ih (st.step s)
    rw [List.foldl_cons, List.length_cons]
    omega

lemma length_decodeSet_le (slots : List (List UInt8)) (i secondaryCount : ℕ) (file : List UInt8) :
    (decodeSet slots i secondaryCount file).name.length
      ≤ 15 * min secondaryCount (slots.length - (i + 1)) := by
  have hunits := length_foldl_step_le ((slots.drop (i + 1)).take secondaryCount) {}
  rw [List.length_nil, List.length_take, List.length_drop] at hunits
  refine (Utf16.length_fromUtf16Lossy_le _).trans ?_
  rw [List.length_take]
  omega

/-- **What is listed is linear in the slots**, a set being passed over when it is decoded. -/
lemma sum_length_parseFrom_le (slots : List (List UInt8)) (fuel i : ℕ) :
    (parseFrom slots fuel i).length ≤ slots.length - i ∧
      ((parseFrom slots fuel i).map fun e => e.name.length).sum ≤ 15 * (slots.length - i) := by
  induction fuel generalizing i with
  | zero => simp [parseFrom]
  | succ fuel ih =>
    rw [parseFrom]
    cases he : slots[i]? with
    | none => simp
    | some e =>
      have hlt := (List.getElem?_eq_some_iff.mp he).1
      dsimp only
      split
      · simp
      split
      · obtain ⟨hcount, hsum⟩ := ih (i + 1)
        omega
      · have hname := length_decodeSet_le slots i (u8At e 1).toNat e
        obtain ⟨hcount, hsum⟩ := ih (i + 1 + (u8At e 1).toNat)
        rw [List.length_cons, List.map_cons, List.sum_cons]
        omega

end Exfat

/-! ## The bytes that are read -/

namespace FatFs

variable {img : List UInt8} {fs : FatFs}

/-- A listing of `n` bytes of a directory. -/
lemma length_listNodes_le (fs : FatFs) (bytes : List UInt8) (marker : UInt32) :
    (fs.listNodes bytes marker).length ≤ bytes.length / 32 ∧
      ((fs.listNodes bytes marker).map fun n => n.name.length).sum ≤ 15 * (bytes.length / 32) := by
  rw [listNodes]
  split
  · have hsize := Exfat.sum_length_parseFrom_le (chunksExact 32 bytes)
      (chunksExact 32 bytes).length 0
    rw [length_chunksExact, Nat.sub_zero] at hsize
    rw [Exfat.parseDirectory, length_chunksExact, List.length_map, List.map_map]
    exact hsize
  · have hsize := Dirent.sum_length_parseFrom_le (chunksExact 32 bytes) 0 [] none
      fun p hp => absurd hp List.not_mem_nil
    rw [length_chunksExact, List.length_nil] at hsize
    rw [List.length_map, List.map_map]
    exact ⟨hsize.1, hsize.2.trans (by omega)⟩

/-- The loop over the clusters of a directory goes past its cap by less than a cluster. -/
lemma length_readClusters_lt (cs : List UInt32) {out : List UInt8}
    (hout : out.length < MAX_DIR_BYTES + fs.geom.clusterSize) :
    (fs.readClusters cs out).length < MAX_DIR_BYTES + fs.geom.clusterSize := by
  induction cs generalizing out with
  | nil => exact hout
  | cons c cs ih =>
    rw [readClusters]
    split
    · exact hout
    next hcap =>
      cases fs.geom.clusterOffset c with
      | none => exact hout
      | some base =>
        refine ih ?_
        rw [readRegionVec_eq, List.length_append, length_slice]
        omega

/-- The fixed root region is small. -/
lemma rootDirBytes_lt (hopen : openImage img = .ok fs) : fs.geom.rootDirBytes < MAX_DIR_BYTES := by
  have hparsed := (openImage_ok hopen).parsed
  rw [MAX_DIR_BYTES]
  split at hparsed
  · obtain ⟨b, s, hg⟩ := Geometry.parseBoot_ok hparsed
    rw [hg.rootDirBytes]
    norm_num
  · obtain ⟨f, hf, hparse⟩ := bind_eq_ok.mp hparsed
    have hchecked := Geometry.readFields_ok hf
    have hentries := hchecked.rootEntryCount_lt
    have hbps : 0 < f.bytesPerSector ∧ f.bytesPerSector ≤ 4096 := by
      have hmem := hchecked.bytesPerSector_mem
      simp only [List.mem_cons, List.not_mem_nil, or_false] at hmem
      omega
    have hround : Geometry.rootDirSectors f * f.bytesPerSector
        < f.rootEntryCount * 32 + f.bytesPerSector := Geometry.divCeil_mul_lt hbps.1
    dsimp only at hparse
    split at hparse
    · exact absurd hparse (by simp)
    rw [Except.ok.injEq] at hparse
    rw [← hparse]
    dsimp only
    split
    · norm_num
    · rw [u32OrMax]
      split <;> omega

/-- The bytes read of a directory go past the cap by less than a cluster. -/
lemma length_readDirBytes_lt (hopen : openImage img = .ok fs) (source : DirSource) :
    (fs.readDirBytes source).length < MAX_DIR_BYTES + fs.geom.clusterSize := by
  have hcs := (openImage_valid hopen).clusterSize_pos
  cases source with
  | fixedRoot =>
    have hroot := rootDirBytes_lt hopen
    rw [readDirBytes, readRegionVec_eq, length_slice]
    omega
  | chain first size contiguous =>
    exact length_readClusters_lt _ (by rw [List.length_nil, MAX_DIR_BYTES]; omega)

/-- An entry starts at a slot that was read. -/
lemma lt_of_mem_entryPositions {bytes : List UInt8} {i : ℕ} (hi : i ∈ fs.entryPositions bytes) :
    i < bytes.length / 32 := by
  rw [← length_chunksExact 32 bytes]
  rw [entryPositions] at hi
  split at hi
  · exact Exfat.lt_length_of_isFileAt (Exfat.mem_setStarts.mp hi).2
  · obtain ⟨p, hp, rfl⟩ := List.mem_map.mp hi
    exact (List.getElem?_eq_some_iff.mp (Dirent.getElem?_of_mem_entrySlots hp)).1

/-- The listing that `bytes` of a directory give: each slot starts one node at most, in order, and
the names have at most 15 characters for each slot. -/
structure WithinSlots (fs : FatFs) (bytes : List UInt8) (marker : UInt32) (nodes : List Node) :
    Prop where
  length_le : nodes.length ≤ bytes.length / 32
  ids : nodes.map Node.id
    = (fs.entryPositions bytes).map fun i => .entry marker (u16OrMax i)
  positions : (fs.entryPositions bytes).Pairwise (· < ·)
  lt_slots : ∀ i ∈ fs.entryPositions bytes, i < bytes.length / 32
  names : (nodes.map fun n => n.name.length).sum ≤ 15 * (bytes.length / 32)

lemma withinSlots_listNodes (fs : FatFs) (bytes : List UInt8) (marker : UInt32) :
    fs.WithinSlots bytes marker (fs.listNodes bytes marker) where
  length_le := (length_listNodes_le fs bytes marker).1
  ids := by
    rw [map_id_listNodes, entryIndices_eq, List.map_map]
    rfl
  positions := pairwise_entryPositions bytes
  lt_slots _ := lt_of_mem_entryPositions
  names := (length_listNodes_le fs bytes marker).2

/-- **Listings are bounded.**  No volume makes the reader cache more than the cap of the FAT, or
read more of a directory than its cap and a cluster; and a listing has no more than a node for each
32-byte slot that was read, and 15 characters of names. -/
theorem readDir_size (hopen : openImage img = .ok fs) :
    fs.fat.length ≤ MAX_FAT_BYTES ∧
      ∀ id nodes, fs.readDir id = .ok nodes → ∃ source, fs.dirSource id = .ok source ∧
        (fs.readDirBytes source).length < MAX_DIR_BYTES + fs.geom.clusterSize ∧
          fs.WithinSlots (fs.readDirBytes source) (sourceMarker source) nodes := by
  refine ⟨?_, fun id nodes h => ?_⟩
  · rw [(openImage_ok hopen).fat, length_slice]
    omega
  · obtain ⟨source, hsource, rfl⟩ := readDir_ok.mp h
    exact ⟨source, hsource, length_readDirBytes_lt hopen source, withinSlots_listNodes fs _ _⟩

/-- The root of the nested volume is one cluster of 16 slots. -/
theorem readDir_size_nested : ∃ nodes, Synth.nested.reader.readDir .root = .ok nodes ∧
    nodes.length ≤ 16 ∧ (nodes.map fun n => n.name.length).sum ≤ 240 := by
  have hroot : (Synth.nested.reader.dirSource .root).toOption = some (.chain 2 0 false) ∧
      (Synth.nested.reader.readDirBytes (.chain 2 0 false)).length = 512 ∧
      (Synth.nested.reader.readDir .root).toOption.isSome = true := by
    decide +kernel
  obtain ⟨hchain, hlen, hread⟩ := hroot
  obtain ⟨nodes, hnodes⟩ : ∃ nodes, Synth.nested.reader.readDir .root = .ok nodes := by
    cases h : Synth.nested.reader.readDir .root with
    | error e =>
      rw [h] at hread
      exact absurd hread (by simp [Except.toOption])
    | ok nodes => exact ⟨nodes, rfl⟩
  obtain ⟨source, hsource, -, hwithin⟩ :=
    (readDir_size Synth.nested.openImage_image).2 .root nodes hnodes
  rw [hsource] at hchain
  obtain rfl := Option.some.inj hchain
  have hle := hwithin.length_le
  have hnames := hwithin.names
  rw [hlen] at hle hnames
  exact ⟨nodes, hnodes, hle, hnames⟩

end FatFs
end FatForensic
