import FatForensic.Directory.FatEntries
import FatForensic.Directory.FatSlots

/-!
# Which long names are valid

VFAT stores a long name in a set of slots directly before its short entry: descending sequence
numbers, the first one marked, and the checksum of the short name in each.  The parser takes
every pending slot for a part of the name, orders the parts, and compares the last checksum
only.  A name that it takes is valid exactly when the block ends with a complete set and the
slots before this set add nothing to the name.
-/

namespace FatForensic
namespace Dirent

open Window

/-- A complete VFAT set for a short entry: the sequence numbers descend to 1, the first one is
marked as the last part, and every slot carries the checksum of the short name. -/
def IsCompleteSet (set : List (List UInt8)) (slot : List UInt8) : Prop :=
  set ≠ [] ∧
    set.map (fun s => (u8At s 0).toNat) = (List.range set.length).reverse.map
      (fun k => if k + 1 = set.length then (k + 1) ||| 0x40 else k + 1) ∧
    ∀ s ∈ set, u8At s 13 = shortChecksum (slice slot 0 11)

instance (set : List (List UInt8)) (slot : List UInt8) : Decidable (IsCompleteSet set slot) :=
  inferInstanceAs (Decidable (_ ∧ _ ∧ _))

/-- The name of an entry is the 8.3 name, or the one that a complete set spells with which the
block before its slot ends. -/
def HasValidName (slots : List (List UInt8)) (p : List UInt8 × ℕ) (e : DirEntry) : Prop :=
  e.name = e.shortName ∨ ∃ set, set <:+ longBlock slots p.2 ∧ IsCompleteSet set p.1 ∧
    blockName set p.1 = some e.name

/-- A slot that adds no unit to a name. -/
def IsMute (slot : List UInt8) : Prop := partUnits (lfnChars slot) = []

/-- The block before a slot spells no name, as its last slot has another checksum or no slot adds
a unit; or it spells the 8.3 name; or it is a complete set behind slots that add no unit. -/
def SpellsNoForeignName (slots : List (List UInt8)) (p : List UInt8 × ℕ) : Prop :=
  blockChecksum (longBlock slots p.2) ≠ some (shortChecksum (slice p.1 0 11)) ∨
    (∀ s ∈ longBlock slots p.2, IsMute s) ∨
    blockName (longBlock slots p.2) p.1 = some (decodeShort p.1 p.2 none false).shortName ∨
    ∃ extra set, longBlock slots p.2 = extra ++ set ∧ IsCompleteSet set p.1 ∧ ∀ s ∈ extra, IsMute s

/-! ## The units of a block -/

/-- The units that a block spells: those of its parts, ordered by their sequence numbers. -/
def blockUnits (block : List (List UInt8)) : List UInt16 :=
  ((blockParts block).insertionSort fun p q => p.1 ≤ q.1).flatMap fun p => partUnits p.2

/-- A block spells a name when its last slot has the right checksum and some slot adds a unit. -/
lemma blockName_eq_some {block : List (List UInt8)} {slot : List UInt8} {name : String} :
    blockName block slot = some name ↔
      blockChecksum block = some (shortChecksum (slice slot 0 11)) ∧ blockUnits block ≠ [] ∧
        Utf16.fromUtf16Lossy (blockUnits block) = name := by
  cases hsum : blockChecksum block with
  | none => simp [blockName, reassembleLong, hsum]
  | some sum =>
    rw [blockName, hsum, reassembleLong]
    have hparts : ¬ (blockParts block).isEmpty = true := by
      intro h
      rw [List.isEmpty_iff, blockParts, List.map_eq_nil_iff] at h
      rw [h] at hsum
      exact absurd hsum (by simp [blockChecksum])
    dsimp only
    by_cases heq : sum = shortChecksum (slice slot 0 11)
    · rw [if_neg (by simp [hparts, heq])]
      change (if (blockUnits block).isEmpty then none
        else some (Utf16.fromUtf16Lossy (blockUnits block))) = some name ↔ _
      by_cases hunits : blockUnits block = []
      · simp [hunits]
      · rw [if_neg (by simpa using hunits)]
        simp [heq, hunits]
    · simp [heq]

/-- A block spells as many units as its slots have. -/
lemma length_blockUnits (block : List (List UInt8)) :
    (blockUnits block).length = (block.map fun s => (partUnits (lfnChars s)).length).sum := by
  have hperm := ((blockParts block).perm_insertionSort fun p q => p.1 ≤ q.1).flatMap_right
    fun p => partUnits p.2
  rw [blockUnits, hperm.length_eq, List.length_flatMap, blockParts, List.map_map]
  rfl

lemma blockUnits_eq_nil_iff {block : List (List UInt8)} :
    blockUnits block = [] ↔ ∀ s ∈ block, IsMute s := by
  rw [← List.length_eq_zero_iff, length_blockUnits, List.sum_eq_zero_iff]
  simp [IsMute]

lemma flatMap_orderedInsert_of_nil {α β : Type*} (r : α → α → Prop) [DecidableRel r]
    {f : α → List β} {a : α} (h : f a = []) (l : List α) :
    (l.orderedInsert r a).flatMap f = l.flatMap f := by
  induction l with
  | nil => simp [h]
  | cons b l ih =>
    rw [List.orderedInsert_cons]
    split
    · rw [List.flatMap_cons, h, List.nil_append]
    · rw [List.flatMap_cons, List.flatMap_cons, ih]

/-- Slots without units in front of a block change nothing. -/
lemma blockUnits_append {extra : List (List UInt8)} (h : ∀ s ∈ extra, IsMute s)
    (set : List (List UInt8)) : blockUnits (extra ++ set) = blockUnits set := by
  induction extra with
  | nil => rfl
  | cons s extra ih =>
    rw [← ih fun t ht => h t (List.mem_cons_of_mem _ ht), List.cons_append]
    have hmute : partUnits (lfnChars s) = [] := h s List.mem_cons_self
    exact flatMap_orderedInsert_of_nil (fun p q : UInt8 × List UInt16 => p.1 ≤ q.1)
      (f := fun p => partUnits p.2) (a := (u8At s 0 &&& 0x1F, lfnChars s)) hmute _

lemma blockChecksum_append (extra : List (List UInt8)) {set : List (List UInt8)} (h : set ≠ []) :
    blockChecksum (extra ++ set) = blockChecksum set := by
  rw [blockChecksum, blockChecksum, List.getLast?_append_of_ne_nil _ h]

/-! ## Valid names -/

/-- A set at the end of a block spells the name of the block just when the slots before it add
nothing. -/
lemma blockName_suffix_iff {extra set : List (List UInt8)} (hset : set ≠ []) {slot : List UInt8}
    {name : String} (hname : blockName (extra ++ set) slot = some name) :
    blockName set slot = some name ↔ ∀ s ∈ extra, IsMute s := by
  obtain ⟨hsum, hunits, hlossy⟩ := blockName_eq_some.mp hname
  constructor
  · intro h
    -- both spell equally many units, and those of `extra` come on top
    have hlen := Utf16.length_eq_of_fromUtf16Lossy_eq
      (hlossy.trans (blockName_eq_some.mp h).2.2.symm)
    rw [length_blockUnits, length_blockUnits, List.map_append, List.sum_append] at hlen
    rw [← blockUnits_eq_nil_iff, ← List.length_eq_zero_iff, length_blockUnits]
    omega
  · intro h
    rw [blockChecksum_append _ hset] at hsum
    rw [blockUnits_append h] at hunits hlossy
    exact blockName_eq_some.mpr ⟨hsum, hunits, hlossy⟩

lemma hasValidName_iff {slots : List (List UInt8)} {p : List UInt8 × ℕ}
    (hlive : u8At p.1 0 ≠ DELETED) :
    HasValidName slots p (slotEntry slots p) ↔ SpellsNoForeignName slots p := by
  have hentry : slotEntry slots p
      = decodeShort p.1 p.2 (blockName (longBlock slots p.2) p.1) false :=
    slotEntry_live hlive
  have hshort : (slotEntry slots p).shortName = (decodeShort p.1 p.2 none false).shortName := by
    rw [hentry]
    rfl
  rw [HasValidName, SpellsNoForeignName, hshort, ← blockUnits_eq_nil_iff]
  cases hname : blockName (longBlock slots p.2) p.1 with
  | none =>
    have hval : (slotEntry slots p).name = (decodeShort p.1 p.2 none false).shortName := by
      rw [hentry, hname]
      rfl
    refine iff_of_true (Or.inl hval) ?_
    by_contra hnot
    push Not at hnot
    have hsome := blockName_eq_some.mpr ⟨hnot.1, hnot.2.1, rfl⟩
    rw [hname] at hsome
    exact absurd hsome (by simp)
  | some name =>
    have hval : (slotEntry slots p).name = name := by
      rw [hentry, hname]
      rfl
    obtain ⟨hsum, hunits, -⟩ := blockName_eq_some.mp hname
    rw [hval, Option.some.injEq]
    constructor
    · rintro (h | ⟨set, ⟨extra, hblock⟩, hset, hspells⟩)
      · exact Or.inr (Or.inr (Or.inl h))
      · rw [← hblock] at hname
        exact Or.inr (Or.inr (Or.inr ⟨extra, set, hblock.symm, hset,
          (blockName_suffix_iff hset.1 hname).mp hspells⟩))
    · rintro (h | h | h | ⟨extra, set, hblock, hset, hmute⟩)
      · exact absurd hsum h
      · exact absurd h hunits
      · exact Or.inl h
      · rw [hblock] at hname
        exact Or.inr ⟨set, ⟨extra, hblock.symm⟩, hset,
          (blockName_suffix_iff hset.1 hname).mpr hmute⟩

/-- **Long-name validity.**  In every directory, the name of a live entry is its 8.3 name or that
of a complete set directly before its slot, exactly when the block of long-name slots before it
spells no foreign name. -/
theorem names_valid_iff (data : List UInt8) :
    List.Forall₂ (fun e p => e.deleted = false →
        (HasValidName (chunksExact 32 data) p e ↔ SpellsNoForeignName (chunksExact 32 data) p))
      (parseDirectory data) (entrySlots (chunksExact 32 data) 0) := by
  rw [parseDirectory_eq, List.forall₂_map_left_iff, List.forall₂_same]
  intro p _ hdel
  refine hasValidName_iff fun h => ?_
  rw [slotEntry_deleted h] at hdel
  exact absurd hdel (by simp [decodeShort])

/-- The short entry of `A.TXT`. -/
def shortA : ShortFields where
  name := 0x41 :: List.replicate 7 0x20 ++ [0x54, 0x58, 0x54]
  length_name := rfl
  attr := 0x20
  attr_ne := archive_ne
  ntFlags := 0
  tenths := 0
  createdTime := 0
  createdDate := 0
  accessedDate := 0
  modifiedTime := 0
  modifiedDate := 0
  firstCluster := 0
  size := 0

/-- A directory whose complete long-name set of one slot, `ab`, comes behind a slot of another
set, with the part `cd` and the checksum of another entry. -/
def spliced : List UInt8 :=
  lfnEntry 2 true 0x00 [0x63, 0x64] ++ lfnEntry 1 true (shortChecksum shortA.name) [0x61, 0x62]
    ++ shortA.slot

/-- **A name can be spliced**: the entry of `spliced` is named `abcd`. -/
theorem not_names_valid_spliced :
    ¬ ∀ data : List UInt8, List.Forall₂
      (fun e p => e.deleted = false → HasValidName (chunksExact 32 data) p e)
      (parseDirectory data) (entrySlots (chunksExact 32 data) 0) := by
  intro h
  have hparse : parseDirectory spliced = [shortA.entry 2 (some "abcd") false] := by
    decide +kernel
  have hslots : entrySlots (chunksExact 32 spliced) 0 = [(shortA.slot, 2)] := by
    decide +kernel
  have hall := h spliced
  rw [hparse, hslots, List.forall₂_cons] at hall
  rcases hall.1 rfl with hname | ⟨set, hset, hcomplete, hname⟩
  · exact absurd hname (by decide +kernel)
  · have hnone : ∀ set ∈ (longBlock (chunksExact 32 spliced) 2).tails,
        IsCompleteSet set shortA.slot → blockName set shortA.slot ≠ some "abcd" := by
      decide +kernel
    exact hnone set ((List.mem_tails _ _).mpr hset) hcomplete hname

end Dirent
end FatForensic
