import FatForensic.Directory.ExfatRoundTrip
import FatForensic.Directory.FatRoundTrip
import FatForensic.Directory.Slots

/-!
# Directory formats

What FAT and exFAT directories have in common: records that take some slots each, and a node for
each record that stands for one.  A directory that is full needs no end marker.
-/

namespace FatForensic

open Window

/-- A format of directories with records `ρ`. -/
structure DirFormat (ρ : Type) where
  /-- The slots of a record. -/
  slots : ρ → List (List UInt8)
  length_slot : ∀ r, ∀ s ∈ slots r, s.length = 32
  /-- Which of its slots the handle of a record names. -/
  lead : ρ → ℕ
  /-- The node that a record stands for, but for its handle. -/
  body : ρ → Option Node

/-- A node with the handle of a slot. -/
def Node.at (n : Node) (marker : UInt32) (i : ℕ) : Node :=
  { n with id := .entry marker (UInt16.ofNat i) }

/-- What follows the records of a directory: an end marker, or less than a slot. -/
def Terminated (tail : List UInt8) : Prop := 32 ≤ tail.length → u8At tail 0 = 0x00

instance (tail : List UInt8) : Decidable (Terminated tail) :=
  inferInstanceAs (Decidable (_ → _))

namespace DirFormat

variable {ρ : Type} (F : DirFormat ρ)

/-- The slots of a list of records. -/
def slotsOf (records : List ρ) : List (List UInt8) := records.flatMap F.slots

/-- The bytes of a directory: the slots of its records, then what follows them. -/
def encode (records : List ρ) (tail : List UInt8) : List UInt8 :=
  (F.slotsOf records).flatten ++ tail

/-- The nodes that records from slot `i` on stand for. -/
def nodesFrom (marker : UInt32) : ℕ → List ρ → List Node
  | _, [] => []
  | i, r :: rs =>
    ((F.body r).map (·.at marker (i + F.lead r))).toList
      ++ nodesFrom marker (i + (F.slots r).length) rs

variable {F}

lemma length_flatten_slotsOf (records : List ρ) :
    (F.slotsOf records).flatten.length = 32 * (F.slotsOf records).length := by
  have hall : ∀ s ∈ F.slotsOf records, s.length = 32 := by
    intro s hs
    obtain ⟨r, -, hs⟩ := List.mem_flatMap.mp hs
    exact F.length_slot r s hs
  rw [List.length_flatten, List.map_congr_left hall, List.map_const', List.sum_replicate,
    smul_eq_mul, Nat.mul_comm]

lemma mem_nodesFrom {marker : UInt32} {i : ℕ} {records : List ρ} {n : Node} :
    n ∈ F.nodesFrom marker i records →
      ∃ r ∈ records, ∃ b j, F.body r = some b ∧ n = b.at marker j := by
  induction records generalizing i with
  | nil => simp [nodesFrom]
  | cons r rs ih =>
    rw [nodesFrom, List.mem_append]
    rintro (hn | hn)
    · rw [Option.mem_toList, Option.map_eq_some_iff] at hn
      obtain ⟨b, hb, rfl⟩ := hn
      exact ⟨r, List.mem_cons_self, b, _, hb, rfl⟩
    · obtain ⟨r', hr', h⟩ := ih hn
      exact ⟨r', List.mem_cons_of_mem _ hr', h⟩

/-- The nodes are the bodies of the records, each with a handle. -/
lemma forall₂_nodesFrom (marker : UInt32) (i : ℕ) (records : List ρ) :
    List.Forall₂ (fun n b => ∃ j, n = b.at marker j) (F.nodesFrom marker i records)
      (records.filterMap F.body) := by
  induction records generalizing i with
  | nil => exact .nil
  | cons r rs ih =>
    rw [nodesFrom, List.filterMap_cons]
    cases hb : F.body r with
    | none => exact ih _
    | some b => exact .cons ⟨_, rfl⟩ (ih _)

end DirFormat

/-! ## FAT directories -/

/-- The node of a FAT record, but for its handle. -/
def fatBody : Dirent.Record → Option Node
  | .live short _ _ long =>
    some (nodeFrom 0 (short.entry 0 (long.map fun l => Utf16.fromUtf16Lossy l.units) false))
  | .deletedShort short _ => some (nodeFrom 0 (short.entry 0 none true))
  | .deletedLong _ _ _ _ => none

/-- FAT directories: the handle names the short entry, the last slot of a record. -/
def fatFormat : DirFormat Dirent.Record where
  slots := Dirent.Record.slots
  length_slot := fun _ _ => Dirent.length_of_mem_slots
  lead r := r.slots.length - 1
  body := fatBody

/-- A list of at most 65536 slots is scanned to its end. -/
lemma Dirent.parseDirectory_encode (records : List Dirent.Record) {tail : List UInt8}
    (hslots : (records.flatMap Dirent.Record.slots).length ≤ 65536) (htail : Terminated tail) :
    Dirent.parseDirectory (fatFormat.encode records tail) = Dirent.entriesFrom 0 records := by
  have hall : ∀ s ∈ records.flatMap Dirent.Record.slots, s.length = 32 := by
    intro s hs
    obtain ⟨r, -, hs⟩ := List.mem_flatMap.mp hs
    exact Dirent.length_of_mem_slots hs
  have hstop : ∀ idx, Dirent.parseFrom (chunksExact 32 tail) idx [] none = [] := by
    intro idx
    cases hc : chunksExact 32 tail with
    | nil => rfl
    | cons c cs =>
      have hchunk : (chunksExact 32 tail)[0]? = some c := by rw [hc, List.getElem?_cons_zero]
      rw [getElem?_chunksExact] at hchunk
      split at hchunk
      next hlen =>
        rw [Nat.mul_zero, Option.some.injEq] at hchunk
        have hend : u8At c 0 = Dirent.END := by
          rw [← hchunk, u8At, getElem?_slice_of_lt (by norm_num), Nat.add_zero]
          exact htail (by omega)
        rw [Dirent.parseFrom, if_pos hend]
      next => exact absurd hchunk (by simp)
  have hchunks : chunksExact 32 (fatFormat.encode records tail)
      = records.flatMap Dirent.Record.slots ++ chunksExact 32 tail :=
    chunksExact_flatten_append (by norm_num) hall tail
  rw [Dirent.parseDirectory, hchunks, Dirent.parseFrom_records _ _ (by omega), hstop,
    List.append_nil]

/-- The entries of FAT records have the nodes of the records. -/
lemma map_nodeFrom_entriesFrom (marker : UInt32) (i : ℕ) (records : List Dirent.Record) :
    (Dirent.entriesFrom i records).map (nodeFrom marker)
      = fatFormat.nodesFrom marker i records := by
  induction records generalizing i with
  | nil => rfl
  | cons r rs ih =>
    rw [Dirent.entriesFrom, List.map_append, ih]
    cases r with
    | live short ne_end ne_deleted long =>
      have hlead : fatFormat.lead (.live short ne_end ne_deleted long)
          = (Dirent.longSlots short long).length := by
        simp [fatFormat, Dirent.Record.slots]
      simp only [DirFormat.nodesFrom, hlead]
      rfl
    | deletedShort short first => rfl
    | deletedLong slot length first attr => rfl

/-! ## exFAT directories -/

/-- The node of an exFAT item, but for its handle. -/
def exfatBody : Exfat.Item → Option Node
  | .file record => some (nodeFromExfat 0 (record.entry 0))
  | .other _ _ _ _ => none

/-- exFAT directories: the handle names the File entry, the first slot of a record. -/
def exfatFormat : DirFormat Exfat.Item where
  slots := Exfat.Item.slots
  length_slot := fun _ _ => Exfat.length_of_mem_slots
  lead _ := 0
  body := exfatBody

/-- A list of at most 65536 slots is scanned to its end. -/
lemma Exfat.parseDirectory_encode (items : List Exfat.Item) {tail : List UInt8}
    (hslots : (items.flatMap Exfat.Item.slots).length ≤ 65536) (htail : Terminated tail) :
    Exfat.parseDirectory (exfatFormat.encode items tail) = Exfat.entriesFrom 0 items := by
  have hall : ∀ s ∈ items.flatMap Exfat.Item.slots, s.length = 32 := by
    intro s hs
    obtain ⟨x, -, hs⟩ := List.mem_flatMap.mp hs
    exact Exfat.length_of_mem_slots hs
  have hchunks : chunksExact 32 (exfatFormat.encode items tail)
      = items.flatMap Exfat.Item.slots ++ chunksExact 32 tail :=
    chunksExact_flatten_append (by norm_num) hall tail
  have hfuel : items.length ≤ (items.flatMap Exfat.Item.slots).length := by
    rw [List.length_flatMap]
    calc items.length = (items.map fun _ => 1).sum := by simp
      _ ≤ (items.map fun x => x.slots.length).sum :=
          List.sum_le_sum fun x _ => Exfat.length_slots_pos x
  -- whatever fuel is left, the slot behind the items ends the scan
  have hstop : ∀ fuel, Exfat.parseFrom (items.flatMap Exfat.Item.slots ++ chunksExact 32 tail) fuel
      (items.flatMap Exfat.Item.slots).length = [] := by
    intro fuel
    cases fuel with
    | zero => rfl
    | succ fuel =>
      rw [Exfat.parseFrom, List.getElem?_append_right le_rfl, Nat.sub_self, getElem?_chunksExact]
      split
      · rfl
      next e he =>
        split at he
        next hlen =>
          rw [Nat.mul_zero, Option.some.injEq] at he
          have hend : u8At e 0 = 0x00 := by
            rw [← he, u8At, getElem?_slice_of_lt (by norm_num), Nat.add_zero]
            exact htail (by omega)
          dsimp only
          rw [if_pos hend]
        next => exact absurd he (by simp)
  obtain ⟨fuel, hf⟩ : ∃ fuel, (items.flatMap Exfat.Item.slots ++ chunksExact 32 tail).length
      = fuel + items.length := by
    rw [List.length_append]
    exact ⟨_, (by omega : _ = (items.flatMap Exfat.Item.slots).length
      + (chunksExact 32 tail).length - items.length + items.length)⟩
  have hitems := Exfat.parseFrom_items items [] (chunksExact 32 tail) fuel (by simpa using hslots)
  simp only [List.nil_append, List.length_nil, Nat.zero_add] at hitems
  rw [Exfat.parseDirectory, hchunks, hf, hitems, hstop, List.append_nil]

/-- The entries of exFAT items have the nodes of the items. -/
lemma map_nodeFromExfat_entriesFrom (marker : UInt32) (i : ℕ) (items : List Exfat.Item) :
    (Exfat.entriesFrom i items).map (nodeFromExfat marker)
      = exfatFormat.nodesFrom marker i items := by
  induction items generalizing i with
  | nil => rfl
  | cons x xs ih =>
    rw [Exfat.entriesFrom, List.map_append, ih]
    cases x <;> rfl

/-! ## The format of a volume -/

namespace FatFs

variable {ρ : Type} (fs : FatFs)

/-- The parser of the volume reads directories of the format. -/
def Reads (F : DirFormat ρ) : Prop :=
  ∀ marker records tail, (F.slotsOf records).length ≤ 65536 → Terminated tail →
    fs.listNodes (F.encode records tail) marker = F.nodesFrom marker 0 records

variable {fs} {F : DirFormat ρ}

/-- **FAT volumes read FAT directories.** -/
lemma reads_fatFormat (hvar : fs.geom.variant ≠ .exFat) : fs.Reads fatFormat := by
  intro marker records tail hslots htail
  rw [listNodes, if_neg hvar, Dirent.parseDirectory_encode records hslots htail,
    map_nodeFrom_entriesFrom]

/-- **exFAT volumes read exFAT directories.** -/
lemma reads_exfatFormat (hvar : fs.geom.variant = .exFat) : fs.Reads exfatFormat := by
  intro marker items tail hslots htail
  rw [listNodes, if_pos hvar, Exfat.parseDirectory_encode items hslots htail,
    map_nodeFromExfat_entriesFrom]

/-- The format of the directories of a volume. -/
inductive HasFormat (fs : FatFs) : {ρ : Type} → DirFormat ρ → Prop where
  | fat : fs.geom.variant ≠ .exFat → HasFormat fs fatFormat
  | exfat : fs.geom.variant = .exFat → HasFormat fs exfatFormat

lemma HasFormat.reads (h : fs.HasFormat F) : fs.Reads F := by
  cases h with
  | fat hvar => exact reads_fatFormat hvar
  | exfat hvar => exact reads_exfatFormat hvar

/-- The handle of a node of a directory finds the node again. -/
lemma find?_hasIndex_encode (hreads : fs.Reads F) {marker : UInt32} {records : List ρ}
    {tail : List UInt8} (hslots : (F.slotsOf records).length ≤ 65536) (htail : Terminated tail)
    {n : Node} {i : UInt16} (hn : n ∈ F.nodesFrom marker 0 records) (hid : n.id = .entry marker i) :
    (fs.listNodes (F.encode records tail) marker).find? (hasIndex i) = some n := by
  -- what follows the records does not matter
  have hnil : Terminated [] := fun h => absurd h (by simp)
  rw [hreads marker records tail hslots htail, ← hreads marker records [] hslots hnil]
  rw [← hreads marker records [] hslots hnil] at hn
  refine find?_hasIndex_listNodes ?_ hn hid
  rw [DirFormat.encode, List.append_nil, DirFormat.length_flatten_slotsOf,
    Nat.mul_div_cancel_left _ (by norm_num)]
  omega

end FatFs
end FatForensic
