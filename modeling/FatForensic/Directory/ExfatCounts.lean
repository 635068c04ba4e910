import FatForensic.Directory.ExfatRoundTrip
import FatForensic.Directory.ExfatScan

/-!
# What a `SecondaryCount` can hide

A set takes in as many slots as its File entry says, whatever these slots are.  It can pass over
the File entries of other sets, and over the end marker: then slots behind the marker can
change its entry, or be scanned for further ones.
-/

namespace FatForensic
namespace Exfat

open Window PointerWalk StateTransition

variable {slots : List (List UInt8)} {i j m fuel : ℕ}

/-! ## Sets inside of sets -/

lemma count_setStarts_eq_one : (setStarts slots).count i = 1 ↔ i ∈ setStarts slots := by
  constructor
  · intro h
    exact List.count_pos_iff.mp (by omega)
  · exact List.count_eq_one_of_mem (nodup_setStarts slots)

/-- **Which live files are listed.**  Before the end marker, the parser yields exactly one entry
that is decoded from a File entry in use, when no set that the scan starts before takes this File
entry in, and none otherwise. -/
theorem count_setStarts_eq_ite (data : List UInt8) :
    parseDirectory data = (setStarts (chunksExact 32 data)).map (setEntry (chunksExact 32 data)) ∧
      ∀ i < endSlot (chunksExact 32 data), u8At ((chunksExact 32 data).getD i []) 0 = 0x85 →
        (setStarts (chunksExact 32 data)).count i =
          if ∃ j ∈ setStarts (chunksExact 32 data), j < i ∧
            i ≤ j + secondaryCount (chunksExact 32 data) j then 0 else 1 := by
  refine ⟨parseDirectory_eq data, ?_⟩
  generalize chunksExact 32 data = slots
  intro i hi hfile
  obtain ⟨s, hs, -⟩ := getElem?_of_lt_endSlot hi
  have hat : isFileAt slots i = true := by
    rw [List.getD_eq_getElem?_getD, hs, Option.getD_some] at hfile
    rw [isFileAt_eq hs, hfile]
    decide
  split
  next h =>
    obtain ⟨j, hj, hlt, hin⟩ := h
    rw [List.count_eq_zero]
    intro hmem
    have := add_secondaryCount_lt hj hmem hlt
    omega
  next h =>
    rw [count_setStarts_eq_one, mem_setStarts]
    exact ⟨(reaches_or_mem_set hi).resolve_right h, hat⟩

/-- The entry set of a file named by one letter: File, Stream Extension and File Name. -/
def letterSet (letter : UInt16) : List (List UInt8) :=
  FileRecord.slots
    { deleted := false, attributes := 0x20, created := 0, modified := 0, accessed := 0
      createdTenths := 0, modifiedTenths := 0, firstCluster := 0, size := 0
      noFatChain := false, units := [letter], length_le := length_letter_le letter }

/-- A directory of two files; the set of the first one claims five secondary slots, which are
its own two and the whole set of the second one. -/
def overclaiming : List UInt8 := (letterSet 0x61).flatten.set 1 5 ++ (letterSet 0x62).flatten

/-- **A live file can be hidden**: the second File entry of `overclaiming` has no entry. -/
theorem not_listed_overclaiming :
    (parseDirectory overclaiming).map ExfatDirEntry.index = [0] ∧
      ¬ ∀ data : List UInt8, ∀ i < endSlot (chunksExact 32 data),
        u8At ((chunksExact 32 data).getD i []) 0 = 0x85 →
          (setStarts (chunksExact 32 data)).count i = 1 := by
  have hdata : (parseDirectory overclaiming).map ExfatDirEntry.index = [0] ∧
      3 < endSlot (chunksExact 32 overclaiming) ∧
      u8At ((chunksExact 32 overclaiming).getD 3 []) 0 = 0x85 ∧
      (setStarts (chunksExact 32 overclaiming)).count 3 = 0 := by
    decide +kernel
  obtain ⟨hindex, hlt, hfile, hcount⟩ := hdata
  refine ⟨hindex, fun h => ?_⟩
  exact absurd ((h overclaiming 3 hlt hfile).symm.trans hcount) (by simp)

/-! ## Sets that pass the end marker -/

/-- The state that the secondary slots of a set fill in. -/
def setState (slots : List (List UInt8)) (i : ℕ) : SetState :=
  ((slots.drop (i + 1)).take (secondaryCount slots i)).foldl SetState.step {}

/-- What an entry shows of this state: the name, the extent, and how it is stored. -/
def SetState.shown (st : SetState) : String × UInt32 × UInt64 × Bool :=
  (Utf16.fromUtf16Lossy (st.units.take st.nameLen), st.firstCluster, st.size, st.contiguous)

/-- The slots from `m` on that a set takes in show nothing, and no File entry comes behind the
set before the next end marker. -/
def EndsAt (slots : List (List UInt8)) (m i : ℕ) : Prop :=
  (setState slots i).shown = (setState (slots.take m) i).shown ∧
    ∀ s ∈ (slots.drop (i + 1 + secondaryCount slots i)).takeWhile fun s => u8At s 0 ≠ 0x00,
      u8At s 0 &&& 0x7F ≠ TYPE_FILE

/-- The starts do not depend on the fuel, when it is enough. -/
lemma startsFrom_congr {fuel' : ℕ} (h : slots.length ≤ i + fuel) (h' : slots.length ≤ i + fuel') :
    startsFrom slots fuel i = startsFrom slots fuel' i :=
  (pairwise_startsFrom slots fuel i).eq_of_mem_iff (pairwise_startsFrom slots fuel' i)
    fun _ => (mem_startsFrom h).trans (mem_startsFrom h').symm

/-- From a slot on there are no starts exactly when no File entry comes before the end marker. -/
lemma startsFrom_eq_nil_iff (h : slots.length ≤ i + fuel) :
    startsFrom slots fuel i = [] ↔
      ∀ s ∈ (slots.drop i).takeWhile fun s => u8At s 0 ≠ 0x00, u8At s 0 &&& 0x7F ≠ TYPE_FILE := by
  induction fuel generalizing i with
  | zero => simp [startsFrom_zero, List.drop_eq_nil_of_le (show slots.length ≤ i by omega)]
  | succ fuel ih =>
    cases hs : slots[i]? with
    | none =>
      rw [startsFrom_end _ (by simp [hs])]
      simp [List.drop_eq_nil_of_le (List.getElem?_eq_none_iff.mp hs)]
    | some s =>
      obtain ⟨hlt, hget⟩ := List.getElem?_eq_some_iff.mp hs
      rw [List.drop_eq_getElem_cons hlt, hget]
      by_cases hend : u8At s 0 = 0x00
      · rw [startsFrom_end _ (by simpa [hs] using hend)]
        simp [hend]
      rw [List.takeWhile_cons_of_pos (by simpa using hend), List.forall_mem_cons]
      by_cases hfile : isFileAt slots i = true
      · rw [startsFrom_file _ hfile]
        rw [isFileAt_eq hs, decide_eq_true_eq] at hfile
        simp [hfile]
      · rw [startsFrom_skip _ hs hend hfile, ih (by omega)]
        rw [isFileAt_eq hs, decide_eq_true_eq] at hfile
        exact (and_iff_right hfile).symm

/-! ## Before the end marker -/

lemma isFileAt_take (h : i < m) : isFileAt (slots.take m) i = isFileAt slots i := by
  rw [isFileAt, isFileAt, List.getElem?_take_of_lt h]

lemma getD_take (h : i < m) : (slots.take m).getD i [] = slots.getD i [] := by
  rw [List.getD_eq_getElem?_getD, List.getD_eq_getElem?_getD, List.getElem?_take_of_lt h]

lemma secondaryCount_take (h : i < m) :
    secondaryCount (slots.take m) i = secondaryCount slots i := by
  rw [secondaryCount, secondaryCount, getD_take h]

/-- The entry of a set before slot `m` depends on the slots from `m` on as its state does. -/
lemma setEntry_take_iff (h : i < m) : setEntry (slots.take m) i = setEntry slots i ↔
    (setState slots i).shown = (setState (slots.take m) i).shown := by
  rw [setEntry, setEntry, secondaryCount_take h, getD_take h, decodeSet, decodeSet, setState,
    setState, secondaryCount_take h, SetState.shown, SetState.shown]
  simp only [ExfatDirEntry.mk.injEq, Prod.mk.injEq, true_and, and_true]
  constructor
  · rintro ⟨hname, hfirst, hsize, hcont⟩
    exact ⟨hname.symm, hfirst.symm, hsize.symm, hcont.symm⟩
  · rintro ⟨hname, hfirst, hsize, hcont⟩
    exact ⟨hname.symm, hfirst.symm, hsize.symm, hcont.symm⟩

/-- A set that ends before slot `m` takes in the same slots without the slots from `m` on. -/
lemma setState_take (h : i + secondaryCount slots i < m) :
    setState (slots.take m) i = setState slots i := by
  have hslots : ((slots.take m).drop (i + 1)).take (secondaryCount slots i)
      = (slots.drop (i + 1)).take (secondaryCount slots i) := by
    rw [List.drop_take, List.take_take, Nat.min_eq_left (by omega)]
  rw [setState, setState, secondaryCount_take (by omega), hslots]

/-- **The scan with and without the end.**  From a slot before the end on, leaving out the slots
from the end on changes nothing exactly when every set that passes the end shows nothing of
them, and hides no further File entry. -/
lemma parseFrom_take_iff {c : ℕ} (hc : c ≤ endSlot slots) (hfuel : slots.length ≤ c + fuel) :
    parseFrom (slots.take (endSlot slots)) fuel c = parseFrom slots fuel c ↔
      ∀ i ∈ startsFrom slots fuel c, i < endSlot slots →
        endSlot slots ≤ i + secondaryCount slots i → EndsAt slots (endSlot slots) i := by
  have hlen := length_take_endSlot slots
  rw [parseFrom_eq, parseFrom_eq]
  induction fuel generalizing c with
  | zero => simp [startsFrom_zero]
  | succ fuel ih =>
    rcases Nat.eq_or_lt_of_le hc with rfl | hlt
    · have hend : startsFrom slots (fuel + 1) (endSlot slots) = [] :=
        startsFrom_end _ fun s hs => eq_zero_of_endSlot hs
      rw [hend, startsFrom_end]
      · simp
      · intro s hs
        rw [List.getElem?_eq_none (by omega)] at hs
        exact absurd hs (by simp)
    obtain ⟨s, hs, hne⟩ := getElem?_of_lt_endSlot hlt
    have hs' : (slots.take (endSlot slots))[c]? = some s := by
      rw [List.getElem?_take_of_lt hlt, hs]
    by_cases hfile : isFileAt slots c = true
    swap
    · rw [startsFrom_skip _ hs hne hfile, startsFrom_skip _ hs' hne (by rwa [isFileAt_take hlt])]
      exact ih hlt (by omega)
    rw [startsFrom_file _ hfile, startsFrom_file _ (by rwa [isFileAt_take hlt]),
      secondaryCount_take hlt, List.map_cons, List.map_cons, List.cons.injEq,
      setEntry_take_iff hlt, List.forall_mem_cons]
    by_cases hin : c + secondaryCount slots c < endSlot slots
    · -- the set ends before the marker
      have hrest := ih (c := c + 1 + secondaryCount slots c) (by omega) (by omega)
      rw [setState_take hin]
      exact (and_iff_right rfl).trans
        (hrest.trans (and_iff_right fun _ hle => absurd hle (by omega)).symm)
    · -- nothing is left behind the set without the slots from the marker on
      have hnil : startsFrom (slots.take (endSlot slots)) fuel (c + 1 + secondaryCount slots c)
          = [] := by
        refine startsFrom_end _ fun t ht => ?_
        rw [List.getElem?_eq_none (by omega)] at ht
        exact absurd ht (by simp)
      rw [hnil, List.map_nil, eq_comm (a := []), List.map_eq_nil_iff,
        startsFrom_eq_nil_iff (by omega)]
      constructor
      · intro h
        refine ⟨fun _ _ => h, fun j hj hlt' => ?_⟩
        have hreach := reaches_of_mem_walk (List.mem_filter.mp hj).1
        have := le_of_reaches scanNext_lt hreach
        omega
      · exact fun h => h.1 hlt (by omega)

/-- **The end of an exFAT directory.**  The slots from the first end marker on have no influence
exactly when every set that passes the marker shows nothing of them, and no File entry comes
behind the set before the next marker. -/
theorem parseDirectory_take_iff (data : List UInt8) :
    parseDirectory (data.take (32 * endSlot (chunksExact 32 data))) = parseDirectory data ↔
      ∀ i ∈ setStarts (chunksExact 32 data), i < endSlot (chunksExact 32 data) →
        endSlot (chunksExact 32 data) ≤ i + secondaryCount (chunksExact 32 data) i →
        EndsAt (chunksExact 32 data) (endSlot (chunksExact 32 data)) i := by
  rw [parseDirectory, parseDirectory, chunksExact_take (by norm_num)]
  generalize chunksExact 32 data = slots
  have hlen := length_take_endSlot slots
  have hfuel : parseFrom (slots.take (endSlot slots)) (slots.take (endSlot slots)).length 0
      = parseFrom (slots.take (endSlot slots)) slots.length 0 := by
    rw [parseFrom_eq, parseFrom_eq, startsFrom_congr (by omega)]
    rw [hlen, Nat.zero_add]
    exact List.findIdx_le_length
  rw [hfuel, setStarts]
  exact parseFrom_take_iff (Nat.zero_le _) (by omega)

/-- A directory of one file, whose File Name slot lies behind an end marker. -/
def overrunning : List UInt8 :=
  ((letterSet 0x61).take 2).flatten.set 1 3 ++ List.replicate 32 0
    ++ ((letterSet 0x61).drop 2).flatten

/-- **Slots behind the end marker can count**: the name of the file of `overrunning` lies
there. -/
theorem not_ends_overrunning :
    ¬ ∀ data : List UInt8,
      parseDirectory (data.take (32 * endSlot (chunksExact 32 data))) = parseDirectory data := by
  intro h
  have hnames : (parseDirectory overrunning).map ExfatDirEntry.name = ["a"] ∧
      (parseDirectory (overrunning.take (32 * endSlot (chunksExact 32 overrunning)))).map
        ExfatDirEntry.name = [""] := by
    decide +kernel
  rw [h overrunning, hnames.1] at hnames
  exact absurd hnames.2 (by decide)

end Exfat
end FatForensic
