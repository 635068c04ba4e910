import FatForensic.Directory.ExfatSlots

/-!
# exFAT directories read back

A directory is a list of items: file records, in use or deleted, and primary slots of other
types.  Parsing the encoding yields one entry for each record, at the slot of its File entry.
-/

namespace FatForensic
namespace Exfat

open Window

/-- An item of a directory: a file record, or a primary slot that is no File entry. -/
inductive Item where
  | file (record : FileRecord)
  | other (slot : List UInt8) (length : slot.length = 32) (ne_end : u8At slot 0 ≠ 0x00)
      (ne_file : u8At slot 0 &&& 0x7F ≠ TYPE_FILE)

/-- The slots of an item. -/
def Item.slots : Item → List (List UInt8)
  | .file record => record.slots
  | .other slot _ _ _ => [slot]

/-- The entries that an item at slot `i` stands for. -/
def Item.entries (i : ℕ) : Item → List ExfatDirEntry
  | .file record => [record.entry i]
  | .other _ _ _ _ => []

/-- The entries that items from slot `i` on stand for. -/
def entriesFrom : ℕ → List Item → List ExfatDirEntry
  | _, [] => []
  | i, x :: xs => x.entries i ++ entriesFrom (i + x.slots.length) xs

/-- The bytes of a directory: the slots of its items, then what follows them. -/
def encode (items : List Item) (tail : List UInt8) : List UInt8 :=
  (items.flatMap Item.slots).flatten ++ tail

lemma length_of_mem_slots {x : Item} {s : List UInt8} (hs : s ∈ x.slots) : s.length = 32 := by
  cases x with
  | other slot length _ _ =>
    rw [List.mem_singleton.mp hs]
    exact length
  | file r =>
    rcases List.mem_cons.mp hs with rfl | hs
    · simp [FileRecord.fileFields]
    rcases List.mem_cons.mp hs with rfl | hs
    · simp [FileRecord.streamFields]
    · obtain ⟨k, -, rfl⟩ := List.mem_map.mp hs
      rw [FileRecord.nameFields, List.flatten_cons, List.flatten_cons, List.length_append,
        List.length_append,
        LittleEndian.length_flatten_map_toBytes, FileRecord.length_padded]
      rfl

lemma length_slots_pos (x : Item) : 0 < x.slots.length := by
  cases x with
  | other slot _ _ _ => exact Nat.one_pos
  | file r =>
    rw [Item.slots, FileRecord.length_slots]
    omega

/-- **One item reads back**, and the scan goes on right behind its slots. -/
lemma parseFrom_item (x : Item) (pre rest : List (List UInt8)) (fuel : ℕ)
    (h : pre.length + x.slots.length ≤ 2 ^ 16) :
    parseFrom (pre ++ (x.slots ++ rest)) (fuel + 1) pre.length
      = x.entries pre.length
        ++ parseFrom (pre ++ (x.slots ++ rest)) fuel (pre.length + x.slots.length) := by
  cases x with
  | other slot length ne_end ne_file =>
    have hget : (pre ++ ([slot] ++ rest))[pre.length]? = some slot := by simp
    simp only [Item.slots] at h ⊢
    rw [parseFrom, hget]
    dsimp only
    rw [if_neg ne_end, if_pos ne_file]
    rfl
  | file r =>
    simp only [Item.slots] at h ⊢
    have hget : (pre ++ (r.slots ++ rest))[pre.length]? = some r.fileFields.flatten := by
      simp [FileRecord.slots]
    have htype : u8At r.fileFields.flatten 0 = typeByte r.deleted TYPE_FILE := rfl
    have hcount : (u8At r.fileFields.flatten 1).toNat = 1 + r.nameCount := by
      have hle := r.nameCount_le
      have hbyte : u8At r.fileFields.flatten 1 = UInt8.ofNat (1 + r.nameCount) := rfl
      rw [hbyte, UInt8.toNat_ofNat', Nat.mod_eq_of_lt (by omega)]
    have hlen := r.length_slots
    obtain ⟨hand, -, -, hne, -⟩ := FileRecord.typeByte_and r.deleted
    rw [parseFrom, hget]
    dsimp only
    rw [htype, if_neg hne, if_neg (not_not.mpr hand), hcount,
      FileRecord.decodeSet_slots (by omega), hlen, Item.entries, List.singleton_append]
    congr 2
    omega

/-- A list of items reads back, from any slot on. -/
lemma parseFrom_items (items : List Item) (pre rest : List (List UInt8)) (fuel : ℕ)
    (h : pre.length + (items.flatMap Item.slots).length ≤ 2 ^ 16) :
    parseFrom (pre ++ (items.flatMap Item.slots ++ rest)) (fuel + items.length) pre.length
      = entriesFrom pre.length items
        ++ parseFrom (pre ++ (items.flatMap Item.slots ++ rest)) fuel
          (pre.length + (items.flatMap Item.slots).length) := by
  induction items generalizing pre with
  | nil => simp [entriesFrom]
  | cons x xs ih =>
    rw [List.flatMap_cons, List.length_append] at h
    have hnext := ih (pre ++ x.slots) (by rw [List.length_append]; omega)
    rw [List.length_append, List.append_assoc] at hnext
    rw [List.flatMap_cons, List.length_cons, ← Nat.add_assoc, List.append_assoc,
      parseFrom_item x pre _ _ (by omega), hnext, entriesFrom, List.append_assoc,
      List.length_append, Nat.add_assoc]

/-- **exFAT directories read back.**  Parsing the encoding of a list of items of at most 65536
slots, followed by an end slot and any bytes, yields the entries that the file records stand
for. -/
theorem parseDirectory_encode_items (items : List Item) (tail : List UInt8)
    (hslots : (items.flatMap Item.slots).length ≤ 65536) (hlen : 32 ≤ tail.length)
    (hend : u8At tail 0 = 0x00) :
    parseDirectory (encode items tail) = entriesFrom 0 items := by
  have hall : ∀ s ∈ items.flatMap Item.slots, s.length = 32 := by
    intro s hs
    obtain ⟨x, -, hs⟩ := List.mem_flatMap.mp hs
    exact length_of_mem_slots hs
  -- every item takes a slot, and the end slot leaves fuel for one more round
  have hfuel : items.length ≤ (items.flatMap Item.slots).length := by
    rw [List.length_flatMap]
    calc items.length = (items.map fun _ => 1).sum := by simp
      _ ≤ (items.map fun x => x.slots.length).sum :=
          List.sum_le_sum fun x _ => length_slots_pos x
  have hchunks : chunksExact 32 (encode items tail)
      = items.flatMap Item.slots ++ chunksExact 32 tail := by
    rw [encode, chunksExact_flatten_append (by norm_num) hall]
  have htail : (chunksExact 32 tail)[0]? = some (slice tail 0 32) := by
    rw [getElem?_chunksExact, if_pos (by omega), Nat.mul_zero]
  have hrest : 0 < (chunksExact 32 tail).length := (List.getElem?_eq_some_iff.mp htail).1
  obtain ⟨fuel, hf⟩ : ∃ fuel, (items.flatMap Item.slots ++ chunksExact 32 tail).length
      = fuel + 1 + items.length := by
    rw [List.length_append]
    exact ⟨_, (by omega : _ = (items.flatMap Item.slots).length + (chunksExact 32 tail).length
      - items.length - 1 + 1 + items.length)⟩
  have hstop : parseFrom (items.flatMap Item.slots ++ chunksExact 32 tail) (fuel + 1)
      (items.flatMap Item.slots).length = [] := by
    have hget : (items.flatMap Item.slots ++
        chunksExact 32 tail)[(items.flatMap Item.slots).length]? = some (slice tail 0 32) := by
      rw [List.getElem?_append_right le_rfl, Nat.sub_self, htail]
    have hzero : u8At (slice tail 0 32) 0 = 0x00 := by
      rw [u8At, getElem?_slice_of_lt (by norm_num), Nat.add_zero]
      exact hend
    rw [parseFrom, hget]
    dsimp only
    rw [if_pos hzero]
  have hall := parseFrom_items items [] (chunksExact 32 tail) (fuel + 1) (by simpa using hslots)
  simp only [List.nil_append, List.length_nil, Nat.zero_add] at hall
  rw [parseDirectory, hchunks, hf, hall, hstop, List.append_nil]

/-- A directory of a volume label, a file with a name of 20 units and a deleted directory
without a name. -/
def sampleItems : List Item :=
  let record (deleted : Bool) (units : List UInt16) (h : units.length ≤ 255) : FileRecord :=
    { deleted, attributes := 0x10, created := 0x5821_0000, modified := 0, accessed := 0
      createdTenths := 0, modifiedTenths := 0, firstCluster := 0xFFFFFFFF, size := 3
      noFatChain := true, units, length_le := h, setChecksum := 0xBEEF
      utcOffsets := .replicate 3 0x80, flags := 0x03, nameHash := 0x1234, validDataLength := 2 }
  [.other (0x83 :: List.replicate 31 0) rfl (by decide) (by decide),
    .file (record false (List.replicate 20 0x61) (by decide)), .file (record true [] (by decide))]

example : (entriesFrom 0 sampleItems).map (fun e => (e.name, e.deleted, e.index))
    = [("aaaaaaaaaaaaaaaaaaaa", false, 1), ("", true, 5)] := by
  decide +kernel

theorem parseDirectory_encode_sampleItems :
    parseDirectory (encode sampleItems (List.replicate 40 0)) = entriesFrom 0 sampleItems :=
  parseDirectory_encode_items sampleItems (List.replicate 40 0) (by decide +kernel) (by decide)
    (by decide)

end Exfat
end FatForensic
