import FatForensic.Directory.Scan

/-!
# What the slots of a FAT directory mean

The scan carries pending long-name slots along.  What it yields is nevertheless a matter of
each slot: an entry is decoded from its own slot, and a live one takes its name from the block
of live long-name slots directly before it.
-/

namespace FatForensic
namespace Dirent

open Window

/-- Whether a slot is a live long-name slot. -/
def isLiveLong (slot : List UInt8) : Bool :=
  u8At slot 0 ≠ END ∧ u8At slot 0 ≠ DELETED ∧ u8At slot 11 = ATTR_LFN

/-- The longest block of live long-name slots directly before slot `i`. -/
def longBlock (slots : List (List UInt8)) (i : ℕ) : List (List UInt8) :=
  (slots.take i).rtakeWhile isLiveLong

/-- The parts of a block of long-name slots. -/
def blockParts (block : List (List UInt8)) : List (UInt8 × List UInt16) :=
  block.map fun s => (u8At s 0 &&& 0x1F, lfnChars s)

/-- The checksum of the last slot of a block. -/
def blockChecksum (block : List (List UInt8)) : Option UInt8 :=
  block.getLast?.map fun s => u8At s 13

/-- The long name that a block spells for a short entry, if it does. -/
def blockName (block : List (List UInt8)) (slot : List UInt8) : Option String :=
  reassembleLong (blockParts block) (blockChecksum block) (slice slot 0 11)

/-- The entry of a slot and its position: decoded from the slot alone, but that a live entry
takes the long name that the block before it spells. -/
def slotEntry (slots : List (List UInt8)) (p : List UInt8 × ℕ) : DirEntry :=
  let e := decodeShort p.1 p.2 none (u8At p.1 0 = DELETED)
  if u8At p.1 0 = DELETED then e
  else { e with name := (blockName (longBlock slots p.2) p.1).getD e.shortName }

lemma isLiveLong_eq_true {slot : List UInt8} : isLiveLong slot = true ↔
    u8At slot 0 ≠ END ∧ u8At slot 0 ≠ DELETED ∧ u8At slot 11 = ATTR_LFN := by
  simp [isLiveLong]

/-- A live entry is decoded with the long name of its block. -/
lemma slotEntry_live {slots : List (List UInt8)} {slot : List UInt8} {i : ℕ}
    (h : u8At slot 0 ≠ DELETED) :
    slotEntry slots (slot, i)
      = decodeShort slot i (blockName (longBlock slots i) slot) false := by
  simp [slotEntry, decodeShort, h]

lemma slotEntry_deleted {slots : List (List UInt8)} {slot : List UInt8} {i : ℕ}
    (h : u8At slot 0 = DELETED) : slotEntry slots (slot, i) = decodeShort slot i none true := by
  simp [slotEntry, h]

@[simp] lemma index_slotEntry (slots : List (List UInt8)) (p : List UInt8 × ℕ) :
    (slotEntry slots p).index = u16OrMax p.2 := by
  by_cases hdel : u8At p.1 0 = DELETED <;> simp [slotEntry, decodeShort, hdel]

@[simp] lemma attributes_slotEntry (slots : List (List UInt8)) (p : List UInt8 × ℕ) :
    (slotEntry slots p).attributes = u8At p.1 11 := by
  by_cases hdel : u8At p.1 0 = DELETED <;> simp [slotEntry, decodeShort, hdel]

/-! ## The pending state -/

/-- A slot that is no live long-name slot ends every block before it. -/
lemma rtakeWhile_isLiveLong_neg {pre : List (List UInt8)} {slot : List UInt8}
    (h : ¬ isLiveLong slot = true) : (pre ++ [slot]).rtakeWhile isLiveLong = [] :=
  List.rtakeWhile_concat_neg _ _ _ h

lemma longBlock_append (pre rest : List (List UInt8)) :
    longBlock (pre ++ rest) pre.length = pre.rtakeWhile isLiveLong := by
  rw [longBlock, List.take_left]

/-- **The scan, slot by slot.**  Behind the slots `pre`, with their last block pending, the scan
yields the entries of the slots that follow. -/
lemma parseFrom_append (pre rest : List (List UInt8)) :
    parseFrom rest pre.length (blockParts (pre.rtakeWhile isLiveLong))
        (blockChecksum (pre.rtakeWhile isLiveLong))
      = (entrySlots rest pre.length).map (slotEntry (pre ++ rest)) := by
  induction rest generalizing pre with
  | nil => rfl
  | cons slot rest ih =>
    -- the state that the scan reaches behind `slot` is that of `pre ++ [slot]`
    have hnext := ih (pre ++ [slot])
    rw [List.length_append, List.length_singleton, List.append_assoc, List.singleton_append]
      at hnext
    have hclear : ¬ isLiveLong slot = true → parseFrom rest (pre.length + 1) [] none
        = (entrySlots rest (pre.length + 1)).map (slotEntry (pre ++ slot :: rest)) := by
      intro h
      rw [← hnext, rtakeWhile_isLiveLong_neg h]
      rfl
    rw [entrySlots_cons]
    simp only [parseFrom]
    by_cases hend : u8At slot 0 = END
    · rw [if_pos hend, if_pos hend, List.map_nil]
    rw [if_neg hend, if_neg hend]
    by_cases hdel : u8At slot 0 = DELETED
    · have hlive : ¬ isLiveLong slot = true := fun h => (isLiveLong_eq_true.mp h).2.1 hdel
      rw [if_pos hdel, hclear hlive]
      by_cases hlfn : u8At slot 11 = ATTR_LFN
      · rw [if_pos hlfn, if_pos hlfn]
      · rw [if_neg hlfn, if_neg hlfn, List.map_cons, slotEntry_deleted hdel]
    · rw [if_neg hdel]
      by_cases hlfn : u8At slot 11 = ATTR_LFN
      · have hlive : isLiveLong slot = true := isLiveLong_eq_true.mpr ⟨hend, hdel, hlfn⟩
        rw [if_pos hlfn, if_pos hlfn, ← hnext, List.rtakeWhile_concat_pos _ _ _ hlive]
        simp [blockParts, blockChecksum]
      · have hlive : ¬ isLiveLong slot = true := fun h => hlfn (isLiveLong_eq_true.mp h).2.2
        rw [if_neg hlfn, if_neg hlfn, hclear hlive, List.map_cons, slotEntry_live hdel,
          longBlock_append]
        rfl

/-- The entries of a directory are those of its slots. -/
lemma parseDirectory_eq (data : List UInt8) :
    parseDirectory data = (entrySlots (chunksExact 32 data) 0).map
      (slotEntry (chunksExact 32 data)) := by
  have h := parseFrom_append [] (chunksExact 32 data)
  rw [List.rtakeWhile_nil] at h
  exact h

/-! ## The end marker -/

/-- A slot before the end marker has its entry from the slots before the end marker. -/
lemma slotEntry_take {slots : List (List UInt8)} {m : ℕ} {p : List UInt8 × ℕ} (h : p.2 ≤ m) :
    slotEntry (slots.take m) p = slotEntry slots p := by
  have hblock : longBlock (slots.take m) p.2 = longBlock slots p.2 := by
    rw [longBlock, longBlock, List.take_take, Nat.min_eq_left h]
  rw [slotEntry, slotEntry, hblock]

lemma entrySlots_take (slots : List (List UInt8)) :
    entrySlots (slots.take (endSlot slots)) 0 = entrySlots slots 0 := by
  have hlive : liveChunks (slots.take (endSlot slots)) = liveChunks slots := by
    rw [← liveChunks_eq_take, liveChunks, liveChunks, List.takeWhile_takeWhile]
    simp
  rw [entrySlots, entrySlots, hlive]

/-! ## The fields of an entry -/

/-- The fields of an entry that stand in its slot, where they stand. -/
structure DirEntry.HasFieldsOf (e : DirEntry) (slot : List UInt8) : Prop where
  attributes : e.attributes = u8At slot 11
  isVolumeLabel : e.isVolumeLabel = true ↔
    u8At slot 11 &&& ATTR_VOLUME_ID ≠ 0 ∧ u8At slot 11 ≠ ATTR_LFN
  isDir : e.isDir = true ↔ u8At slot 11 &&& ATTR_DIRECTORY ≠ 0 ∧ e.isVolumeLabel = false
  firstCluster : e.firstCluster.toNat = (leU16 slot 20).toNat * 2 ^ 16 + (leU16 slot 26).toNat
  size : e.size.toNat = (leU16 slot 30).toNat * 2 ^ 16 + (leU16 slot 28).toNat
  created : e.created = (leU16 slot 16, leU16 slot 14, u8At slot 13)
  modified : e.modified = (leU16 slot 24, leU16 slot 22)
  accessed : e.accessed = leU16 slot 18
  shortName : e.shortName =
    decodeShortName (slice slot 0 11) (u8At slot 12) e.isVolumeLabel e.deleted

lemma hasFieldsOf_decodeShort (slot : List UInt8) (i : ℕ) (long : Option String) (deleted : Bool) :
    (decodeShort slot i long deleted).HasFieldsOf slot where
  attributes := rfl
  isVolumeLabel := decide_eq_true_iff
  isDir := decide_eq_true_iff.trans (and_congr_right' (by rw [Bool.not_eq_true]; rfl))
  firstCluster := toNat_words _ _
  size := by
    rw [← toNat_words, UInt32.or_comm]
    rfl
  created := rfl
  modified := rfl
  accessed := rfl
  shortName := rfl

/-- The name comes from elsewhere. -/
lemma DirEntry.HasFieldsOf.with_name {e : DirEntry} {slot : List UInt8} (h : e.HasFieldsOf slot)
    (name : String) : { e with name }.HasFieldsOf slot :=
  ⟨h.1, h.2, h.3, h.4, h.5, h.6, h.7, h.8, h.9⟩

lemma hasFieldsOf_slotEntry (slots : List (List UInt8)) (p : List UInt8 × ℕ) :
    (slotEntry slots p).HasFieldsOf p.1 := by
  have h := hasFieldsOf_decodeShort p.1 p.2 none (u8At p.1 0 = DELETED)
  by_cases hdel : u8At p.1 0 = DELETED
  · simpa only [slotEntry, if_pos hdel] using h
  · simpa only [slotEntry, if_neg hdel] using h.with_name _

/-- **The meaning of a FAT directory.**  The entries are those of the slots before the end marker
that are no long-name slots, in order; an entry is deleted just when its slot is marked so, has
the position of the slot, up to 65535, for its index and its fields but the name from its slot
alone, and its name from the slot when it is deleted, else from the block of live long-name slots
directly before it, where that spells a name.  What follows the end marker has no influence. -/
theorem parseDirectory_meaning (data : List UInt8) :
    parseDirectory data =
        ((((chunksExact 32 data).take (endSlot (chunksExact 32 data))).zipIdx).filter
          fun p => u8At p.1 11 ≠ ATTR_LFN).map (slotEntry (chunksExact 32 data)) ∧
      (∀ p, (slotEntry (chunksExact 32 data) p).deleted = true ↔ u8At p.1 0 = DELETED) ∧
      (∀ p, (slotEntry (chunksExact 32 data) p).index.toNat = min p.2 65535) ∧
      (∀ p, (slotEntry (chunksExact 32 data) p).HasFieldsOf p.1) ∧
      (∀ p name, { slotEntry (chunksExact 32 data) p with name } =
        { decodeShort p.1 p.2 none (u8At p.1 0 = DELETED) with name }) ∧
      (∀ p, (slotEntry (chunksExact 32 data) p).name =
        if u8At p.1 0 = DELETED then (slotEntry (chunksExact 32 data) p).shortName
        else (blockName (longBlock (chunksExact 32 data) p.2) p.1).getD
          (slotEntry (chunksExact 32 data) p).shortName) ∧
      parseDirectory (data.take (32 * endSlot (chunksExact 32 data))) = parseDirectory data := by
  refine ⟨?_, fun p => ?_, fun p => ?_, hasFieldsOf_slotEntry _, fun p name => ?_, fun p => ?_, ?_⟩
  · rw [parseDirectory_eq, entrySlots, liveChunks_eq_take]
  · by_cases hdel : u8At p.1 0 = DELETED <;> simp [slotEntry, decodeShort, hdel]
  · rw [index_slotEntry, toNat_u16OrMax]
  · by_cases hdel : u8At p.1 0 = DELETED <;> simp [slotEntry, hdel]
  · by_cases hdel : u8At p.1 0 = DELETED <;> simp [slotEntry, decodeShort, hdel]
  · rw [parseDirectory_eq, parseDirectory_eq, chunksExact_take (by norm_num), entrySlots_take]
    refine List.map_congr_left fun p hp => slotEntry_take ?_
    have hlt := (List.mem_zipIdx (List.mem_filter.mp hp).1).2.1
    rw [liveChunks_eq_take, List.length_take] at hlt
    omega

end Dirent
end FatForensic
