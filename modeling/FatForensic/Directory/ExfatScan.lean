import FatForensic.Directory.Scan
import FatForensic.Lib.PointerWalk

/-!
# Where the exFAT scan starts a set

The scan goes from slot to slot, and over a whole set where a File entry starts one: as far
as the `SecondaryCount` of that entry says.  The entries of a directory are those of the File
entries it comes to.
-/

namespace FatForensic
namespace Exfat

open Window PointerWalk StateTransition

/-- Whether the slot at a position is a File entry, in use or not. -/
def isFileAt (slots : List (List UInt8)) (i : ℕ) : Bool :=
  slots[i]?.any fun s => u8At s 0 &&& 0x7F = TYPE_FILE

/-- The `SecondaryCount` of the slot at a position. -/
def secondaryCount (slots : List (List UInt8)) (i : ℕ) : ℕ := (u8At (slots.getD i []) 1).toNat

/-- The slot that the scan goes on to. -/
def scanNext (slots : List (List UInt8)) (i : ℕ) : Option ℕ :=
  slots[i]?.bind fun s =>
    if u8At s 0 = 0x00 then none
    else if isFileAt slots i then some (i + 1 + secondaryCount slots i)
    else some (i + 1)

/-- The positions of the File entries among the first `fuel` slots that the scan comes to. -/
def startsFrom (slots : List (List UInt8)) (fuel i : ℕ) : List ℕ :=
  (walk (scanNext slots) fuel i).filter (isFileAt slots)

/-- The positions of the File entries that the scan of a directory comes to. -/
def setStarts (slots : List (List UInt8)) : List ℕ := startsFrom slots slots.length 0

/-- The entry of the set that starts at a position. -/
def setEntry (slots : List (List UInt8)) (i : ℕ) : ExfatDirEntry :=
  decodeSet slots i (secondaryCount slots i) (slots.getD i [])

variable {slots : List (List UInt8)} {i j : ℕ}

lemma isFileAt_eq_true : isFileAt slots i = true ↔
    ∃ s, slots[i]? = some s ∧ u8At s 0 &&& 0x7F = TYPE_FILE := by
  rw [isFileAt, Option.any_eq_true]
  simp

lemma isFileAt_eq {s : List UInt8} (hs : slots[i]? = some s) :
    isFileAt slots i = decide (u8At s 0 &&& 0x7F = TYPE_FILE) := by
  rw [isFileAt, hs, Option.any_some]

/-- A File entry is no end marker. -/
lemma ne_zero_of_file {b : UInt8} (h : b &&& 0x7F = TYPE_FILE) : b ≠ 0x00 := by
  rintro rfl
  exact absurd h (by decide)

lemma lt_length_of_isFileAt (h : isFileAt slots i = true) : i < slots.length := by
  obtain ⟨s, hs, -⟩ := isFileAt_eq_true.mp h
  exact (List.getElem?_eq_some_iff.mp hs).1

/-- Behind a File entry the scan goes on behind its set. -/
lemma scanNext_of_isFileAt (h : isFileAt slots i = true) :
    scanNext slots i = some (i + 1 + secondaryCount slots i) := by
  obtain ⟨s, hs, htype⟩ := isFileAt_eq_true.mp h
  rw [scanNext, hs, Option.bind_some, if_neg (ne_zero_of_file htype), if_pos h]

/-- Behind another slot that is no end marker the scan goes on with the next slot. -/
lemma scanNext_of_not_isFileAt {s : List UInt8} (hs : slots[i]? = some s) (hne : u8At s 0 ≠ 0x00)
    (h : ¬ isFileAt slots i = true) : scanNext slots i = some (i + 1) := by
  rw [scanNext, hs, Option.bind_some, if_neg hne, if_neg h]

lemma scanNext_lt (a b : ℕ) (h : scanNext slots a = some b) : a < b := by
  rw [scanNext, Option.bind_eq_some_iff] at h
  obtain ⟨s, -, h⟩ := h
  split at h
  · exact absurd h (by simp)
  split at h
  · have := Option.some.inj h
    omega
  · have := Option.some.inj h
    omega

lemma startsFrom_zero : startsFrom slots 0 i = [] := rfl

/-- The starts from a File entry on: this one, then those behind its set. -/
lemma startsFrom_file (fuel : ℕ) (h : isFileAt slots i = true) :
    startsFrom slots (fuel + 1) i
      = i :: startsFrom slots fuel (i + 1 + secondaryCount slots i) := by
  rw [startsFrom, walk, scanNext_of_isFileAt h, List.filter_cons_of_pos h]
  rfl

lemma startsFrom_skip (fuel : ℕ) {s : List UInt8} (hs : slots[i]? = some s)
    (hne : u8At s 0 ≠ 0x00) (h : ¬ isFileAt slots i = true) :
    startsFrom slots (fuel + 1) i = startsFrom slots fuel (i + 1) := by
  rw [startsFrom, walk, scanNext_of_not_isFileAt hs hne h, List.filter_cons_of_neg h]
  rfl

/-- At the end marker or behind the last slot there are no further starts. -/
lemma startsFrom_end (fuel : ℕ) (h : ∀ s, slots[i]? = some s → u8At s 0 = 0x00) :
    startsFrom slots fuel i = [] := by
  cases fuel with
  | zero => rfl
  | succ fuel =>
    have hfile : ¬ isFileAt slots i = true := by
      intro hfile
      obtain ⟨s, hs, htype⟩ := isFileAt_eq_true.mp hfile
      exact ne_zero_of_file htype (h s hs)
    have hnext : scanNext slots i = none := by
      rw [scanNext, Option.bind_eq_none_iff]
      exact fun s hs => if_pos (h s hs)
    rw [startsFrom, walk, hnext, List.filter_cons_of_neg hfile]
    rfl

/-- **The scan yields the sets of its starts.** -/
lemma parseFrom_eq (slots : List (List UInt8)) (fuel i : ℕ) :
    parseFrom slots fuel i = (startsFrom slots fuel i).map (setEntry slots) := by
  induction fuel generalizing i with
  | zero => rfl
  | succ fuel ih =>
    rw [parseFrom]
    cases hs : slots[i]? with
    | none => rw [startsFrom_end _ (by simp [hs]), List.map_nil]
    | some s =>
      have hget : slots.getD i [] = s := by rw [List.getD_eq_getElem?_getD, hs, Option.getD_some]
      dsimp only
      by_cases hend : u8At s 0 = 0x00
      · rw [if_pos hend, startsFrom_end _ (by simpa [hs] using hend), List.map_nil]
      rw [if_neg hend]
      by_cases hfile : u8At s 0 &&& 0x7F = TYPE_FILE
      · have hat : isFileAt slots i = true := isFileAt_eq_true.mpr ⟨s, hs, hfile⟩
        rw [if_neg (not_not.mpr hfile), startsFrom_file _ hat, List.map_cons, ← ih, setEntry,
          secondaryCount, hget]
      · have hat : ¬ isFileAt slots i = true := by
          rw [isFileAt_eq hs, decide_eq_true_eq]
          exact hfile
        rw [if_pos hfile, startsFrom_skip _ hs hend hat, ih]

lemma parseDirectory_eq (data : List UInt8) :
    parseDirectory data = (setStarts (chunksExact 32 data)).map (setEntry (chunksExact 32 data)) :=
  parseFrom_eq _ _ _

/-! ## The positions that the scan comes to -/

lemma mem_startsFrom {fuel : ℕ} (hfuel : slots.length ≤ i + fuel) :
    j ∈ startsFrom slots fuel i ↔ Reaches (scanNext slots) i j ∧ isFileAt slots j = true := by
  rw [startsFrom, List.mem_filter]
  refine and_congr_left fun hfile => ⟨reaches_of_mem_walk, fun h => ?_⟩
  have hlt := lt_length_of_isFileAt hfile
  exact mem_walk_of_lt scanNext_lt h (by omega)

lemma mem_setStarts :
    j ∈ setStarts slots ↔ Reaches (scanNext slots) 0 j ∧ isFileAt slots j = true :=
  mem_startsFrom (by omega)

lemma pairwise_startsFrom (slots : List (List UInt8)) (fuel i : ℕ) :
    (startsFrom slots fuel i).Pairwise (· < ·) :=
  (pairwise_lt_walk scanNext_lt _ _).filter _

lemma nodup_setStarts (slots : List (List UInt8)) : (setStarts slots).Nodup :=
  (pairwise_startsFrom slots _ _).imp Nat.ne_of_lt

/-- The scan starts no set inside of another. -/
lemma add_secondaryCount_lt (hi : i ∈ setStarts slots) (hj : j ∈ setStarts slots) (h : i < j) :
    i + secondaryCount slots i < j := by
  obtain ⟨hreach, hfile⟩ := mem_setStarts.mp hi
  by_contra hle
  exact not_reaches_between scanNext_lt hreach (scanNext_of_isFileAt hfile) h (by omega)
    (mem_setStarts.mp hj).1

/-- Before the end marker every slot is a position of the scan, or lies in a set that it
starts before. -/
lemma reaches_or_mem_set (hi : i < endSlot slots) :
    Reaches (scanNext slots) 0 i ∨
      ∃ j ∈ setStarts slots, j < i ∧ i ≤ j + secondaryCount slots j := by
  induction i with
  | zero => exact Or.inl .refl
  | succ i ih =>
    obtain ⟨s, hs, hne⟩ := getElem?_of_lt_endSlot (show i < endSlot slots by omega)
    rcases ih (by omega) with hreach | ⟨j, hj, hlt, hin⟩
    · by_cases hfile : isFileAt slots i = true
      · have hnext := scanNext_of_isFileAt hfile
        by_cases hzero : secondaryCount slots i = 0
        · rw [hzero] at hnext
          exact Or.inl (hreach.tail hnext)
        · exact Or.inr ⟨i, mem_setStarts.mpr ⟨hreach, hfile⟩, by omega, by omega⟩
      · exact Or.inl (hreach.tail (scanNext_of_not_isFileAt hs hne hfile))
    · by_cases hlast : i < j + secondaryCount slots j
      · exact Or.inr ⟨j, hj, by omega, by omega⟩
      · obtain ⟨hreach, hfile⟩ := mem_setStarts.mp hj
        have hnext := scanNext_of_isFileAt hfile
        rw [show j + 1 + secondaryCount slots j = i + 1 by omega] at hnext
        exact Or.inl (hreach.tail hnext)

end Exfat
end FatForensic
