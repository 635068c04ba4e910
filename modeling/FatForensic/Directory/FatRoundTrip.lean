import FatForensic.Directory.FatSlots

/-!
# FAT directories read back

A directory is a list of records: live short entries with or without a long name, deleted
short entries, and deleted long-name slots.  Encoding the records as VFAT does and parsing
the slots yields one entry for each short record, with the record's fields.
-/

namespace FatForensic
namespace Dirent

open Window

/-! ## Records -/

/-- A long name of 1 to 255 units, none of them a terminator or a filler. -/
structure LongName where
  units : List UInt16
  length_pos : 0 < units.length
  length_le : units.length ≤ 255
  ne : ∀ u ∈ units, u ≠ 0x0000 ∧ u ≠ 0xFFFF

/-- A record of a directory. -/
inductive Record where
  | live (short : ShortFields) (ne_end : u8At short.name 0 ≠ END)
      (ne_deleted : u8At short.name 0 ≠ DELETED) (long : Option LongName)
  | deletedShort (short : ShortFields) (first : u8At short.name 0 = DELETED)
  | deletedLong (slot : List UInt8) (length : slot.length = 32)
      (first : u8At slot 0 = DELETED) (attr : u8At slot 11 = ATTR_LFN)

/-- The slots of a long name, in descending order of their sequence numbers, each with the
checksum of the short name; the first one stored is marked as the last part. -/
def LongName.slots (long : LongName) (checksum : UInt8) : List (List UInt8) :=
  let n := divCeil long.units.length 13
  (List.range n).reverse.map fun k =>
    lfnEntry (UInt8.ofNat (k + 1)) (k + 1 = n) checksum (slice long.units (13 * k) 13)

/-- The slots before the short entry of a live record. -/
def longSlots (short : ShortFields) : Option LongName → List (List UInt8)
  | none => []
  | some long => long.slots short.checksum

/-- The slots of a record. -/
def Record.slots : Record → List (List UInt8)
  | .live short _ _ long => longSlots short long ++ [short.slot]
  | .deletedShort short _ => [short.slot]
  | .deletedLong slot _ _ _ => [slot]

/-- The entries that a record at slot `idx` stands for. -/
def Record.entries (idx : ℕ) : Record → List DirEntry
  | .live short _ _ long =>
    [short.entry (idx + (longSlots short long).length)
      (long.map fun l => Utf16.fromUtf16Lossy l.units) false]
  | .deletedShort short _ => [short.entry idx none true]
  | .deletedLong _ _ _ _ => []

/-- The entries that records from slot `idx` on stand for. -/
def entriesFrom : ℕ → List Record → List DirEntry
  | _, [] => []
  | idx, r :: rs => r.entries idx ++ entriesFrom (idx + r.slots.length) rs

/-- The bytes of a directory: the slots of its records, then what follows them. -/
def encode (records : List Record) (tail : List UInt8) : List UInt8 :=
  (records.flatMap Record.slots).flatten ++ tail

/-! ## Long names -/

/-- The slots of one long name collect their parts. -/
lemma parseFrom_longSlots {slots : List (List UInt8)} {checksum : UInt8}
    (h : ∀ s ∈ slots, u8At s 0 ≠ END ∧ u8At s 0 ≠ DELETED ∧ u8At s 11 = ATTR_LFN ∧
      u8At s 13 = checksum) (rest : List (List UInt8)) (idx : ℕ)
    (parts : List (UInt8 × List UInt16)) (last : Option UInt8) :
    parseFrom (slots ++ rest) idx parts last =
      parseFrom rest (idx + slots.length)
        (parts ++ slots.map fun s => (u8At s 0 &&& 0x1F, lfnChars s))
        (if slots = [] then last else some checksum) := by
  induction slots generalizing idx parts last with
  | nil => simp
  | cons s slots ih =>
    obtain ⟨hend, hdel, hattr, hsum⟩ := h s List.mem_cons_self
    have hlast : (if slots = [] then some checksum else some checksum) = some checksum := by
      split <;> rfl
    rw [List.cons_append]
    simp only [parseFrom, hend, hdel, hattr, hsum, if_true, if_false]
    rw [ih (fun s hs => h s (List.mem_cons_of_mem _ hs)), hlast]
    simp [Nat.add_comm 1, Nat.add_assoc]

/-- Sorting what descends strictly reverses it. -/
lemma insertionSort_eq_reverse {α : Type*} (r : α → α → Prop) [DecidableRel r] {l : List α}
    (h : l.Pairwise fun a b => ¬ r a b) : l.insertionSort r = l.reverse := by
  have hlast : ∀ (a : α) (xs : List α), (∀ b ∈ xs, ¬ r a b) → xs.orderedInsert r a = xs ++ [a] := by
    intro a xs hxs
    induction xs with
    | nil => rfl
    | cons b xs ih =>
      rw [List.orderedInsert_cons, if_neg (hxs b List.mem_cons_self),
        ih fun c hc => hxs c (List.mem_cons_of_mem _ hc), List.cons_append]
  induction l with
  | nil => rfl
  | cons a l ih =>
    obtain ⟨ha, hl⟩ := List.pairwise_cons.mp h
    rw [List.insertionSort_cons, ih hl, List.reverse_cons,
      hlast a _ fun b hb => ha b (List.mem_reverse.mp hb)]

/-- The sequence byte of a slot, with or without the mark of the last part. -/
lemma sequence_byte {k : ℕ} (hk : k < 20) (last : Bool) :
    let b := if last then UInt8.ofNat (k + 1) ||| 0x40 else UInt8.ofNat (k + 1)
    b ≠ END ∧ b ≠ DELETED ∧ b &&& 0x1F = UInt8.ofNat (k + 1) := by
  have h : ∀ k < 20, ∀ last : Bool,
      let b := if last then UInt8.ofNat (k + 1) ||| 0x40 else UInt8.ofNat (k + 1)
      b ≠ END ∧ b ≠ DELETED ∧ b &&& 0x1F = UInt8.ofNat (k + 1) := by
    decide
  exact h k hk last

namespace LongName

variable (long : LongName) (checksum : UInt8)

lemma parts_le : divCeil long.units.length 13 ≤ 20 := by
  have := long.length_le
  rw [divCeil_le_iff (by norm_num)]
  omega

lemma slot_spec {s : List UInt8} (hs : s ∈ long.slots checksum) :
    s.length = 32 ∧ u8At s 0 ≠ END ∧ u8At s 0 ≠ DELETED ∧ u8At s 11 = ATTR_LFN ∧
      u8At s 13 = checksum := by
  obtain ⟨k, hk, rfl⟩ := List.mem_map.mp hs
  have hk := List.mem_range.mp (List.mem_reverse.mp hk)
  have hle := long.parts_le
  obtain ⟨hlen, h0, h11, h13, -⟩ := lfnFields_flatten
    (if decide (k + 1 = divCeil long.units.length 13) then UInt8.ofNat (k + 1) ||| 0x40
      else UInt8.ofNat (k + 1)) checksum (length_padded (slice long.units (13 * k) 13))
  obtain ⟨hend, hdel, -⟩ := sequence_byte (by omega : k < 20)
    (decide (k + 1 = divCeil long.units.length 13))
  exact ⟨hlen, by rw [lfnEntry, h0]; exact hend, by rw [lfnEntry, h0]; exact hdel, h11, h13⟩

/-- The parts that the scan collects from the slots. -/
lemma map_slots : ((long.slots checksum).map fun s => (u8At s 0 &&& 0x1F, lfnChars s))
    = (List.range (divCeil long.units.length 13)).reverse.map fun k =>
      (UInt8.ofNat (k + 1), padded (slice long.units (13 * k) 13)) := by
  rw [slots, List.map_map]
  refine List.map_congr_left fun k hk => ?_
  have hk := List.mem_range.mp (List.mem_reverse.mp hk)
  have hle := long.parts_le
  obtain ⟨-, h0, -, -, hchars⟩ := lfnFields_flatten
    (if decide (k + 1 = divCeil long.units.length 13) then UInt8.ofNat (k + 1) ||| 0x40
      else UInt8.ofNat (k + 1)) checksum (length_padded (slice long.units (13 * k) 13))
  obtain ⟨-, -, hseq⟩ := sequence_byte (by omega : k < 20)
    (decide (k + 1 = divCeil long.units.length 13))
  rw [Function.comp_apply, lfnEntry, h0, hchars]
  exact congrArg (·, _) hseq

/-- **A long name is put together again from its parts.** -/
lemma reassembleLong_slots (short : ShortFields) :
    reassembleLong ((long.slots short.checksum).map fun s => (u8At s 0 &&& 0x1F, lfnChars s))
        (some short.checksum) short.name
      = some (Utf16.fromUtf16Lossy long.units) := by
  have hpos := long.length_pos
  have hle := long.parts_le
  have hn : 0 < divCeil long.units.length 13 := divCeil_pos (by norm_num) hpos
  have hne : (List.range (divCeil long.units.length 13)).reverse.map (fun k =>
      (UInt8.ofNat (k + 1), padded (slice long.units (13 * k) 13))) ≠ [] := by
    simp only [ne_eq, List.map_eq_nil_iff, List.reverse_eq_nil_iff, List.range_eq_nil]
    omega
  -- the sequence numbers descend, so sorting reverses the parts
  have hdesc : ((List.range (divCeil long.units.length 13)).reverse.map fun k =>
      (UInt8.ofNat (k + 1), padded (slice long.units (13 * k) 13))).Pairwise
        fun p q => ¬ p.1 ≤ q.1 := by
    rw [List.pairwise_map, List.pairwise_reverse]
    refine List.pairwise_lt_range.imp_of_mem fun {j k} hj hk hlt => ?_
    have hj := List.mem_range.mp hj
    have hk := List.mem_range.mp hk
    rw [UInt8.le_iff_toNat_le, UInt8.toNat_ofNat', UInt8.toNat_ofNat']
    omega
  have hunits : (List.range (divCeil long.units.length 13)).flatMap
      (fun k => partUnits (padded (slice long.units (13 * k) 13))) = long.units := by
    have hparts : ∀ k ∈ List.range (divCeil long.units.length 13),
        partUnits (padded (slice long.units (13 * k) 13)) = slice long.units (13 * k) 13 := by
      intro k _
      refine partUnits_padded (by rw [length_slice]; omega) fun u hu => long.ne u ?_
      exact List.mem_of_mem_drop (List.mem_of_mem_take hu)
    have hcover : long.units.length ≤ 13 * divCeil long.units.length 13 := by
      rw [Nat.mul_comm]
      exact (divCeil_le_iff (by norm_num)).mp le_rfl
    rw [List.flatMap_congr hparts, flatMap_slice_range, List.take_of_length_le hcover]
  have hunitsne : long.units.isEmpty = false := by
    rw [List.isEmpty_eq_false_iff, ← List.length_pos_iff]
    exact hpos
  rw [map_slots, ShortFields.checksum_eq, reassembleLong, if_neg (by simpa using hne)]
  dsimp only
  rw [insertionSort_eq_reverse _ hdesc, ← List.map_reverse, List.reverse_reverse,
    List.flatMap_map, hunits, if_neg (by simp [hunitsne])]

end LongName

/-! ## Records read back -/

lemma length_of_mem_slots {r : Record} {s : List UInt8} (hs : s ∈ r.slots) : s.length = 32 := by
  cases r with
  | live short _ _ long =>
    rcases List.mem_append.mp hs with hs | hs
    · cases long with
      | none => exact absurd hs (by simp [longSlots])
      | some long => exact (long.slot_spec _ hs).1
    · rw [List.mem_singleton.mp hs]
      exact ShortFields.length_slot
  | deletedShort short _ =>
    rw [List.mem_singleton.mp hs]
    exact ShortFields.length_slot
  | deletedLong slot length _ _ =>
    rw [List.mem_singleton.mp hs]
    exact length

/-- **One record reads back**, and leaves no pending long name behind. -/
lemma parseFrom_record (r : Record) (rest : List (List UInt8)) {idx : ℕ}
    (h : idx + r.slots.length ≤ 2 ^ 16) :
    parseFrom (r.slots ++ rest) idx [] none
      = r.entries idx ++ parseFrom rest (idx + r.slots.length) [] none := by
  cases r with
  | live short ne_end ne_deleted long =>
    have hend : u8At short.slot 0 ≠ END := by
      rw [ShortFields.u8At_slot_zero]
      exact ne_end
    have hdel : u8At short.slot 0 ≠ DELETED := by
      rw [ShortFields.u8At_slot_zero]
      exact ne_deleted
    have hattr : u8At short.slot 11 ≠ ATTR_LFN := short.u8At_slot_attr_ne
    rw [Record.slots, List.length_append, List.length_singleton] at h
    rw [Record.slots, List.append_assoc, List.singleton_append, List.length_append,
      List.length_singleton]
    cases long with
    | none =>
      simp only [longSlots, List.nil_append, List.length_nil, Nat.add_zero, Nat.zero_add,
        parseFrom, hend, hdel, hattr, if_false, Record.entries, Option.map_none,
        reassembleLong, List.singleton_append]
      rw [ShortFields.decodeShort_slot (by omega)]
    | some long =>
      have hslots := parseFrom_longSlots
        (fun s hs => (long.slot_spec short.checksum hs).2) (short.slot :: rest) idx []
        none
      have hne : long.slots short.checksum ≠ [] := by
        have hpos := divCeil_pos (b := 13) (by norm_num) long.length_pos
        simp only [LongName.slots, ne_eq, List.map_eq_nil_iff, List.reverse_eq_nil_iff,
          List.range_eq_nil]
        omega
      rw [if_neg hne, List.nil_append] at hslots
      simp only [longSlots] at h ⊢
      rw [hslots]
      simp only [parseFrom, hend, hdel, hattr, if_false, ShortFields.slice_slot_name,
        long.reassembleLong_slots short, Record.entries, longSlots, Option.map_some,
        List.singleton_append]
      rw [ShortFields.decodeShort_slot (by omega), Nat.add_assoc]
  | deletedShort short first =>
    have hdel : u8At short.slot 0 = DELETED := by
      rw [ShortFields.u8At_slot_zero]
      exact first
    have hend : ¬ DELETED = END := by decide
    have hattr : u8At short.slot 11 ≠ ATTR_LFN := short.u8At_slot_attr_ne
    simp only [Record.slots, List.length_singleton] at h
    simp only [Record.slots, List.singleton_append, List.length_singleton, parseFrom, hdel, hend,
      hattr, if_true, if_false, Record.entries]
    rw [ShortFields.decodeShort_slot (by omega)]
  | deletedLong slot length first attr =>
    have hend : ¬ DELETED = END := by decide
    simp only [Record.slots, List.singleton_append, List.length_singleton, parseFrom, first, hend,
      attr, if_true, if_false, Record.entries, List.nil_append]

/-- A list of records reads back, from any slot on. -/
lemma parseFrom_records (records : List Record) (rest : List (List UInt8)) {idx : ℕ}
    (h : idx + (records.flatMap Record.slots).length ≤ 2 ^ 16) :
    parseFrom (records.flatMap Record.slots ++ rest) idx [] none
      = entriesFrom idx records
        ++ parseFrom rest (idx + (records.flatMap Record.slots).length) [] none := by
  induction records generalizing idx with
  | nil => simp [entriesFrom]
  | cons r rs ih =>
    rw [List.flatMap_cons, List.length_append] at h
    rw [List.flatMap_cons, List.append_assoc, parseFrom_record r _ (by omega), ih (by omega),
      entriesFrom, List.append_assoc, List.length_append, Nat.add_assoc]

/-- **FAT directories read back.**  Parsing the encoding of a list of records of at most 65536
slots, followed by an end slot and any bytes, yields the entries that the records stand for. -/
theorem parseDirectory_encode_records (records : List Record) (tail : List UInt8)
    (hslots : (records.flatMap Record.slots).length ≤ 65536) (hlen : 32 ≤ tail.length)
    (hend : u8At tail 0 = END) :
    parseDirectory (encode records tail) = entriesFrom 0 records := by
  have hall : ∀ s ∈ records.flatMap Record.slots, s.length = 32 := by
    intro s hs
    obtain ⟨r, -, hs⟩ := List.mem_flatMap.mp hs
    exact length_of_mem_slots hs
  -- the slot behind the records is the end marker
  have hstop : ∀ idx, parseFrom (chunksExact 32 tail) idx [] none = [] := by
    intro idx
    have hchunk : (chunksExact 32 tail)[0]? = some (slice tail 0 32) := by
      rw [getElem?_chunksExact, if_pos (by omega), Nat.mul_zero]
    cases hc : chunksExact 32 tail with
    | nil => rfl
    | cons c cs =>
      rw [hc, List.getElem?_cons_zero, Option.some.injEq] at hchunk
      have hc0 : u8At c 0 = END := by
        rw [hchunk, u8At, getElem?_slice_of_lt (by norm_num), Nat.add_zero]
        exact hend
      rw [parseFrom, if_pos hc0]
  rw [parseDirectory, encode, chunksExact_flatten_append (by norm_num) hall,
    parseFrom_records _ _ (by omega), hstop, List.append_nil]

/-- A directory of a file with a long name of two slots, a deleted long-name slot and a deleted
file. -/
def sampleRecords : List Record :=
  let short (first : UInt8) : ShortFields :=
    { name := first :: List.replicate 10 0x41, length_name := rfl, attr := 0x20
      attr_ne := archive_ne, ntFlags := 0, tenths := 0, createdTime := 0, createdDate := 0
      accessedDate := 0, modifiedTime := 0, modifiedDate := 0, firstCluster := 0x12345
      size := 0x54321 }
  [.live (short 0x42) (by decide) (by decide)
      (some { units := List.replicate 15 0x61, length_pos := by decide, length_le := by decide
              ne := fun u hu => by rw [List.eq_of_mem_replicate hu]; decide }),
    .deletedLong (0xE5 :: List.replicate 10 0 ++ ATTR_LFN :: List.replicate 20 0) (by decide)
      (by decide) (by decide),
    .deletedShort (short 0xE5) (by decide)]

example : (entriesFrom 0 sampleRecords).map (fun e => (e.name, e.shortName, e.index))
    = [("aaaaaaaaaaaaaaa", "BAAAAAAA.AAA", 2), ("?AAAAAAA.AAA", "?AAAAAAA.AAA", 4)] := by
  decide +kernel

theorem parseDirectory_encode_sampleRecords :
    parseDirectory (encode sampleRecords (List.replicate 40 0)) = entriesFrom 0 sampleRecords :=
  parseDirectory_encode_records sampleRecords (List.replicate 40 0) (by decide +kernel) (by decide)
    (by decide)

end Dirent
end FatForensic
