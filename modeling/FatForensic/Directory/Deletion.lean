import FatForensic.Directory.ExfatCounts
import FatForensic.Directory.LongNames

/-!
# Deleting an entry

A file is deleted by a mark in its slots: the first byte of its short entry, or the in-use bits
of its entry set.  The scan of the directory then yields the same entries, but for the one of
the deleted file.
-/

namespace FatForensic

open Window

/-- In a list with ascending keys, a change at the key of one element changes this element. -/
lemma map_ite_key {α β : Type*} {l before after : List α} {p : α} {f g : α → β}
    (key : α → ℕ) (hl : l.Pairwise fun a b => key a < key b) (heq : l = before ++ p :: after) :
    (l.map fun q => if key q = key p then f q else g q)
      = before.map g ++ f p :: after.map g := by
  subst heq
  rw [List.pairwise_append, List.pairwise_cons] at hl
  obtain ⟨-, ⟨hafter, -⟩, hbefore⟩ := hl
  rw [List.map_append, List.map_cons, if_pos rfl]
  congr 1
  · exact List.map_congr_left fun q hq => if_neg (hbefore q hq p List.mem_cons_self).ne
  · congr 1
    exact List.map_congr_left fun q hq => if_neg (hafter q hq).ne'

namespace Dirent

/-- The 8.3 name of a slot with the first byte replaced by a question mark. -/
def questionName (slot : List UInt8) : String :=
  decodeShortName (0x3F :: slice slot 1 10) (u8At slot 12)
    (u8At slot 11 &&& ATTR_VOLUME_ID ≠ 0 ∧ u8At slot 11 ≠ ATTR_LFN) false

/-- A slot that starts with the deletion mark. -/
def markDeleted (slot : List UInt8) : List UInt8 := slot.set 0 DELETED

variable {slots : List (List UInt8)} {slot : List UInt8} {i : ℕ}

lemma renderedBytes_question (bytes : List UInt8) :
    renderedBytes (0x3F :: bytes) false = renderedBytes (0x3F :: bytes) true := by
  have hq : u8At (0x3F :: bytes) 0 = 0x3F := rfl
  rw [renderedBytes, renderedBytes, hq]
  rfl

/-- The name of a deleted entry does not depend on its first byte. -/
lemma decodeShortName_deleted_eq {raw : List UInt8} (flags : UInt8) (isVolumeLabel : Bool) :
    decodeShortName raw flags isVolumeLabel true
      = decodeShortName (0x3F :: slice raw 1 10) flags isVolumeLabel false := by
  have hraw : slice (0x3F :: slice raw 1 10) 1 10 = slice raw 1 10 := by
    simp [slice, List.take_take]
  have hbytes : renderedBytes raw true = renderedBytes (0x3F :: slice raw 1 10) false := by
    rw [renderedBytes_question, renderedBytes, renderedBytes, hraw]
    rfl
  rw [decodeShortName, decodeShortName, hbytes]

/-- The entry of a slot that is marked deleted: only the mark and the names are new. -/
lemma decodeShort_markDeleted (idx : ℕ) (long : Option String) :
    decodeShort (markDeleted slot) idx none true =
      { decodeShort slot idx long false with
        deleted := true
        name := questionName slot
        shortName := questionName slot } := by
  have h8 : ∀ off, 0 < off → u8At (markDeleted slot) off = u8At slot off :=
    fun off h => u8At_set h.ne _ _
  have h16 : ∀ off, 0 < off → leU16 (markDeleted slot) off = leU16 slot off :=
    fun off h => leU16_set (Or.inl h) _ _
  have hraw : slice (slice (markDeleted slot) 0 11) 1 10 = slice slot 1 10 := by
    rw [slice_slice _ _ _ _ _ (by norm_num), markDeleted, slice_set (Or.inl Nat.zero_lt_one)]
  rw [decodeShort, decodeShort, questionName]
  dsimp only
  rw [decodeShortName_deleted_eq, hraw]
  simp only [h8 11 (by norm_num), h8 12 (by norm_num), h8 13 (by norm_num), h16 14 (by norm_num),
    h16 16 (by norm_num), h16 18 (by norm_num), h16 20 (by norm_num), h16 22 (by norm_num),
    h16 24 (by norm_num), h16 26 (by norm_num), h16 28 (by norm_num), h16 30 (by norm_num),
    Option.getD_none]

/-! ## The slots of the other entries -/

/-- A slot that is no live long-name slot before and after a change ends the same blocks. -/
lemma rtakeWhile_set {p : List UInt8 → Bool} {slot' : List UInt8} (hs : slots[i]? = some slot)
    (hp : ¬ p slot = true) (hp' : ¬ p slot' = true) :
    (slots.set i slot').rtakeWhile p = slots.rtakeWhile p := by
  induction slots using List.reverseRecOn with
  | nil => rfl
  | append_singleton pre last ih =>
    rcases Nat.lt_trichotomy i pre.length with hlt | rfl | hgt
    · rw [List.getElem?_append_left hlt] at hs
      rw [List.set_append_left _ _ hlt]
      by_cases hlast : p last = true
      · rw [List.rtakeWhile_concat_pos _ _ _ hlast, List.rtakeWhile_concat_pos _ _ _ hlast, ih hs]
      · rw [List.rtakeWhile_concat_neg _ _ _ hlast, List.rtakeWhile_concat_neg _ _ _ hlast]
    · rw [List.getElem?_concat_length, Option.some.injEq] at hs
      subst hs
      rw [List.set_append_right _ _ le_rfl, Nat.sub_self, List.set_cons_zero,
        List.rtakeWhile_concat_neg _ _ _ hp, List.rtakeWhile_concat_neg _ _ _ hp']
    · rw [List.getElem?_eq_none (by simp; omega)] at hs
      exact absurd hs (by simp)

lemma longBlock_set {slot' : List UInt8} (hs : slots[i]? = some slot)
    (h : ¬ isLiveLong slot = true) (h' : ¬ isLiveLong slot' = true) (j : ℕ) :
    longBlock (slots.set i slot') j = longBlock slots j := by
  rw [longBlock, longBlock, List.take_set]
  by_cases hij : i < j
  · exact rtakeWhile_set (by rw [List.getElem?_take_of_lt hij, hs]) h h'
  · rw [List.set_eq_of_length_le (by rw [List.length_take]; omega)]

/-- A changed slot keeps its place among the slots that entries are decoded from. -/
lemma entrySlots_set {slot' : List UInt8} {k : ℕ} (hs : slots[k]? = some slot)
    (hend : u8At slot 0 ≠ END) (hend' : u8At slot' 0 ≠ END)
    (hattr : u8At slot' 11 = u8At slot 11) (idx : ℕ) :
    entrySlots (slots.set k slot') idx = (entrySlots slots idx).map fun q =>
      if q.2 = idx + k then (slot', q.2) else q := by
  induction slots generalizing idx k with
  | nil => rfl
  | cons c rest ih =>
    cases k with
    | zero =>
      obtain rfl : c = slot := by simpa using hs
      have hrest : (entrySlots rest (idx + 1)).map
          (fun q => if q.2 = idx + 0 then (slot', q.2) else q) = entrySlots rest (idx + 1) := by
        refine (List.map_congr_left fun q hq => ?_).trans (List.map_id _)
        have hle := (List.mem_zipIdx (List.mem_filter.mp hq).1).1
        exact if_neg (by omega)
      rw [List.set_cons_zero, entrySlots_cons, entrySlots_cons, if_neg hend, if_neg hend', hattr]
      split
      · exact hrest.symm
      · rw [List.map_cons, hrest]
        simp
    | succ k =>
      rw [List.set_cons_succ, entrySlots_cons, entrySlots_cons,
        ih (by simpa using hs) (idx + 1)]
      have hadd : idx + 1 + k = idx + (k + 1) := by omega
      rw [hadd]
      split
      · rfl
      split
      · rfl
      · rw [List.map_cons, if_neg (by omega)]

lemma pairwise_entrySlots (slots : List (List UInt8)) (idx : ℕ) :
    (entrySlots slots idx).Pairwise fun p q => p.2 < q.2 := by
  induction slots generalizing idx with
  | nil => exact List.Pairwise.nil
  | cons c rest ih =>
    rw [entrySlots_cons]
    split
    · exact List.Pairwise.nil
    split
    · exact ih _
    · exact List.pairwise_cons.mpr
        ⟨fun q hq => (List.mem_zipIdx (List.mem_filter.mp hq).1).1, ih _⟩

/-- **A changed slot is local to the scan**: where a slot that no long name is spelled in is
replaced by another such one, the other entries stay. -/
lemma map_slotEntry_set {slot' : List UInt8} (hs : slots[i]? = some slot)
    (hend : u8At slot 0 ≠ END) (hlfn : u8At slot 11 ≠ ATTR_LFN) (hend' : u8At slot' 0 ≠ END)
    (hattr : u8At slot' 11 = u8At slot 11) :
    (entrySlots (slots.set i slot') 0).map (slotEntry (slots.set i slot'))
      = (entrySlots slots 0).map fun q =>
        if q.2 = i then slotEntry slots (slot', i) else slotEntry slots q := by
  have hlive : ¬ isLiveLong slot = true := fun h => hlfn (isLiveLong_eq_true.mp h).2.2
  have hlive' : ¬ isLiveLong slot' = true :=
    fun h => hlfn (hattr.symm.trans (isLiveLong_eq_true.mp h).2.2)
  have hentry : ∀ q, slotEntry (slots.set i slot') q = slotEntry slots q := by
    intro q
    rw [slotEntry, slotEntry, longBlock_set hs hlive hlive']
  rw [entrySlots_set hs hend hend' hattr, List.map_map]
  refine List.map_congr_left fun q _ => ?_
  rw [Function.comp_apply, Nat.zero_add, hentry]
  split
  next h => rw [h]
  next => rfl

/-- What is known of a slot that an entry is decoded from. -/
lemma entrySlot_spec {data : List UInt8} {p : List UInt8 × ℕ}
    (hp : p ∈ entrySlots (chunksExact 32 data) 0) :
    (chunksExact 32 data)[p.2]? = some p.1 ∧ p.1.length = 32 ∧ u8At p.1 0 ≠ END ∧
      u8At p.1 11 ≠ ATTR_LFN := by
  have hs : (chunksExact 32 data)[p.2]? = some p.1 := getElem?_of_mem_entrySlots hp
  obtain ⟨hzip, hlfn⟩ := List.mem_filter.mp hp
  refine ⟨hs, ?_, ?_, by simpa using hlfn⟩
  · rw [getElem?_chunksExact] at hs
    split at hs
    next hlt =>
      rw [← Option.some.inj hs, length_slice]
      omega
    next => exact absurd hs (by simp)
  · have hmem : p.1 ∈ liveChunks (chunksExact 32 data) := List.fst_mem_of_mem_zipIdx hzip
    simpa using List.mem_takeWhile_imp hmem

/-- A changed byte of a slot changes the entry of that slot only. -/
lemma parseDirectory_set {data : List UInt8} {before after : List (List UInt8 × ℕ)}
    {p : List UInt8 × ℕ} {k : ℕ} {b : UInt8}
    (hslots : entrySlots (chunksExact 32 data) 0 = before ++ p :: after) (hk : k < 32)
    (hattr : k ≠ 11) (hend : u8At (p.1.set k b) 0 ≠ END) :
    parseDirectory (data.set (32 * p.2 + k) b) =
      before.map (slotEntry (chunksExact 32 data)) ++
        slotEntry (chunksExact 32 data) (p.1.set k b, p.2) ::
        after.map (slotEntry (chunksExact 32 data)) := by
  have hp : p ∈ entrySlots (chunksExact 32 data) 0 := by
    rw [hslots]
    exact List.mem_append_right _ List.mem_cons_self
  obtain ⟨hs, -, hend₀, hlfn⟩ := entrySlot_spec hp
  rw [parseDirectory_eq, chunksExact_set hk hs,
    map_slotEntry_set hs hend₀ hlfn hend (u8At_set hattr _ _)]
  exact map_ite_key (f := fun _ => _) Prod.snd (pairwise_entrySlots _ _) hslots

lemma deleted_slotEntry {slots : List (List UInt8)} {p : List UInt8 × ℕ} :
    (slotEntry slots p).deleted = false ↔ u8At p.1 0 ≠ DELETED := by
  by_cases hdel : u8At p.1 0 = DELETED <;> simp [slotEntry, decodeShort, hdel]

lemma parseDirectory_markDeleted {data : List UInt8} {before after : List (List UInt8 × ℕ)}
    {p : List UInt8 × ℕ} (hslots : entrySlots (chunksExact 32 data) 0 = before ++ p :: after)
    (hlive : (slotEntry (chunksExact 32 data) p).deleted = false) :
    parseDirectory (data.set (32 * p.2) DELETED) =
      before.map (slotEntry (chunksExact 32 data)) ++
        { slotEntry (chunksExact 32 data) p with
          deleted := true
          name := questionName p.1
          shortName := questionName p.1 } ::
        after.map (slotEntry (chunksExact 32 data)) := by
  have hp : p ∈ entrySlots (chunksExact 32 data) 0 := by
    rw [hslots]
    exact List.mem_append_right _ List.mem_cons_self
  have hlen : 0 < p.1.length := by
    rw [(entrySlot_spec hp).2.1]
    norm_num
  have hmark : u8At (markDeleted p.1) 0 = DELETED := by
    rw [u8At, markDeleted, List.getElem?_set_self hlen, Option.getD_some]
  have hset := parseDirectory_set (k := 0) (b := DELETED) hslots (by norm_num) (by norm_num) (by
    rw [← markDeleted, hmark]
    decide)
  rw [Nat.add_zero] at hset
  rw [hset, ← markDeleted, slotEntry_deleted hmark, decodeShort_markDeleted,
    ← slotEntry_live (deleted_slotEntry.mp hlive)]

end Dirent

namespace Exfat

open PointerWalk StateTransition

/-- A slot with the in-use bit of its type byte clear. -/
def clearSlot (slot : List UInt8) : List UInt8 := slot.set 0 (u8At slot 0 &&& 0x7F)

/-- The directory with the in-use bits clear of those of the slots `i..=i+s` that exist. -/
def clearInUse (data : List UInt8) (i s : ℕ) : List UInt8 :=
  data.mapIdx fun k b =>
    if k % 32 = 0 ∧ i ≤ k / 32 ∧ k / 32 ≤ i + s ∧ k / 32 < data.length / 32 then b &&& 0x7F else b

/-- The slots with the in-use bits of the slots `i..=i+s` clear. -/
def clearSlots (slots : List (List UInt8)) (i s : ℕ) : List (List UInt8) :=
  slots.mapIdx fun k slot => if i ≤ k ∧ k ≤ i + s then clearSlot slot else slot

variable {slots : List (List UInt8)} {i j : ℕ}

lemma getElem?_clearSlot (slot : List UInt8) (j : ℕ) :
    (clearSlot slot)[j]? = slot[j]?.map fun b => if j = 0 then b &&& 0x7F else b := by
  cases slot with
  | nil => rfl
  | cons b slot =>
    cases j with
    | zero => rfl
    | succ j => simp [clearSlot]

lemma chunksExact_clearInUse (data : List UInt8) (i s : ℕ) :
    chunksExact 32 (clearInUse data i s) = clearSlots (chunksExact 32 data) i s := by
  apply List.ext_getElem?
  intro k
  rw [clearSlots, List.getElem?_mapIdx, getElem?_chunksExact, getElem?_chunksExact, clearInUse,
    List.length_mapIdx]
  by_cases hk : k < data.length / 32
  swap
  · rw [if_neg hk, if_neg hk, Option.map_none]
  rw [if_pos hk, if_pos hk, Option.map_some]
  congr 1
  apply List.ext_getElem?
  intro j
  have hget : (if i ≤ k ∧ k ≤ i + s then clearSlot (slice data (32 * k) 32)
      else slice data (32 * k) 32)[j]? = (slice data (32 * k) 32)[j]?.map fun b =>
        if j = 0 ∧ i ≤ k ∧ k ≤ i + s then b &&& 0x7F else b := by
    by_cases hin : i ≤ k ∧ k ≤ i + s
    · rw [if_pos hin, getElem?_clearSlot]
      simp only [hin, and_true]
    · rw [if_neg hin]
      simp only [hin, and_false, if_false, Option.map_id']
  rw [hget, getElem?_slice, getElem?_slice]
  by_cases hj : j < 32
  swap
  · rw [if_neg hj, if_neg hj, Option.map_none]
  have hdiv : (32 * k + j) / 32 = k := by omega
  have hmod : (32 * k + j) % 32 = 0 ↔ j = 0 := by omega
  rw [if_pos hj, if_pos hj, List.getElem?_mapIdx]
  simp only [hdiv, hmod, hk, and_true]

/-! ## What the scan reads of a cleared slot -/

lemma u8At_clearSlot (slot : List UInt8) : u8At (clearSlot slot) 0 = u8At slot 0 &&& 0x7F := by
  cases slot with
  | nil => rfl
  | cons b slot => rfl

lemma clearSlot_type (slot : List UInt8) :
    u8At (clearSlot slot) 0 &&& 0x7F = u8At slot 0 &&& 0x7F := by
  rw [u8At_clearSlot, UInt8.and_assoc, UInt8.and_self]

lemma u8At_clearSlot_of_pos (slot : List UInt8) {off : ℕ} (h : 0 < off) :
    u8At (clearSlot slot) off = u8At slot off := u8At_set h.ne _ _

/-- A secondary entry is read the same without its in-use bit. -/
lemma step_clearSlot (st : SetState) (slot : List UInt8) :
    st.step (clearSlot slot) = st.step slot := by
  have hunits : nameUnits (clearSlot slot) = nameUnits slot :=
    List.map_congr_left fun k _ => leU16_set (Or.inl (by omega)) _ _
  rw [SetState.step, SetState.step, clearSlot_type, hunits,
    u8At_clearSlot_of_pos _ (by norm_num), u8At_clearSlot_of_pos _ (by norm_num), clearSlot,
    leU32_set (Or.inl (by norm_num)), leU64_set (Or.inl (by norm_num))]

variable {s : ℕ}

lemma getElem?_clearSlots (k : ℕ) : (clearSlots slots i s)[k]? =
    slots[k]?.map fun slot => if i ≤ k ∧ k ≤ i + s then clearSlot slot else slot :=
  List.getElem?_mapIdx

lemma length_clearSlots : (clearSlots slots i s).length = slots.length := List.length_mapIdx

/-- What reads a slot and its cleared form the same reads the cleared directory the same. -/
lemma getD_clearSlots {α : Type*} {f : List UInt8 → α} (hf : ∀ slot, f (clearSlot slot) = f slot)
    (k : ℕ) : f ((clearSlots slots i s).getD k []) = f (slots.getD k []) := by
  rw [List.getD_eq_getElem?_getD, List.getD_eq_getElem?_getD, getElem?_clearSlots]
  cases slots[k]? with
  | none => rfl
  | some slot =>
    rw [Option.map_some, Option.getD_some, Option.getD_some]
    split
    · exact hf slot
    · rfl

lemma secondaryCount_clearSlots (k : ℕ) :
    secondaryCount (clearSlots slots i s) k = secondaryCount slots k :=
  congrArg UInt8.toNat
    (getD_clearSlots (f := fun slot => u8At slot 1)
      (fun slot => u8At_clearSlot_of_pos slot Nat.zero_lt_one) k)

lemma isFileAt_clearSlots (k : ℕ) :
    isFileAt (clearSlots slots i s) k = isFileAt slots k := by
  rw [isFileAt, isFileAt, getElem?_clearSlots, Option.any_map]
  congr 1
  funext slot
  split
  · rw [clearSlot_type]
  · rfl

lemma getElem?_clearSlots_of_not (k : ℕ) (h : ¬ (i ≤ k ∧ k ≤ i + s)) :
    (clearSlots slots i s)[k]? = slots[k]? := by
  rw [getElem?_clearSlots]
  simp [h]

/-- The secondary slots of a set fill in the same without their in-use bits. -/
lemma foldl_clearSlots (m n : ℕ) (st : SetState) :
    (((clearSlots slots i s).drop m).take n).foldl SetState.step st
      = ((slots.drop m).take n).foldl SetState.step st := by
  have hslots : ((slots.zipIdx.drop m).take n).map Prod.fst = (slots.drop m).take n := by
    rw [List.map_take, List.map_drop, List.zipIdx_map_fst]
  have hclear : ((clearSlots slots i s).drop m).take n = ((slots.zipIdx.drop m).take n).map
      fun p => if i ≤ p.2 ∧ p.2 ≤ i + s then clearSlot p.1 else p.1 := by
    rw [clearSlots, List.mapIdx_eq_zipIdx_map, List.map_take, List.map_drop]
  rw [hclear, ← hslots, List.foldl_map, List.foldl_map]
  refine List.foldl_ext _ _ _ fun st p _ => ?_
  split
  · exact step_clearSlot st p.1
  · rfl

/-! ## The scan of a directory with a deleted set -/

/-- The scan passes the deleted set in one step, and all others as before. -/
lemma scanNext_clearSlots (hi : i ∈ setStarts slots) (hj : Reaches (scanNext slots) 0 j) :
    scanNext (clearSlots slots i (secondaryCount slots i)) j = scanNext slots j := by
  obtain ⟨hreach, hfile⟩ := mem_setStarts.mp hi
  by_cases hij : j = i
  · subst hij
    rw [scanNext_of_isFileAt hfile, scanNext_of_isFileAt ((isFileAt_clearSlots _).trans hfile),
      secondaryCount_clearSlots]
  · -- no slot inside of the set is a position of the scan
    have hout : ¬ (i ≤ j ∧ j ≤ i + secondaryCount slots i) := by
      intro hin
      exact not_reaches_between scanNext_lt hreach (scanNext_of_isFileAt hfile)
        (show i < j by omega) (by omega) hj
    rw [scanNext, scanNext, getElem?_clearSlots_of_not _ hout, isFileAt_clearSlots,
      secondaryCount_clearSlots]

lemma setStarts_clearSlots (hi : i ∈ setStarts slots) :
    setStarts (clearSlots slots i (secondaryCount slots i)) = setStarts slots := by
  rw [setStarts, setStarts, startsFrom, startsFrom, length_clearSlots,
    walk_congr fun j hj => scanNext_clearSlots hi hj]
  exact List.filter_congr fun j _ => isFileAt_clearSlots j

/-- **The entries with a deleted set**: that of the set is deleted, the others are as before. -/
lemma setEntry_clearSlots (hi : i ∈ setStarts slots) (hj : j ∈ setStarts slots) :
    setEntry (clearSlots slots i (secondaryCount slots i)) j =
      if j = i then { setEntry slots i with deleted := true } else setEntry slots j := by
  split
  next h =>
    subst h
    obtain ⟨file, hfile, -⟩ := isFileAt_eq_true.mp (mem_setStarts.mp hj).2
    have hget : slots.getD j [] = file := by
      rw [List.getD_eq_getElem?_getD, hfile, Option.getD_some]
    have hget' : (clearSlots slots j (secondaryCount slots j)).getD j [] = clearSlot file := by
      rw [List.getD_eq_getElem?_getD, getElem?_clearSlots, hfile, Option.map_some,
        if_pos ⟨le_rfl, by omega⟩, Option.getD_some]
    have hdel : decide (u8At (clearSlot file) 0 &&& 0x80 = 0) = true := by
      rw [u8At_clearSlot, UInt8.and_assoc, show (0x7F : UInt8) &&& 0x80 = 0 from rfl,
        UInt8.and_zero]
      rfl
    rw [setEntry, setEntry, secondaryCount_clearSlots, hget, hget', decodeSet, decodeSet]
    dsimp only
    rw [foldl_clearSlots, hdel, u8At_clearSlot_of_pos _ (by norm_num),
      u8At_clearSlot_of_pos _ (by norm_num), clearSlot,
      leU16_set (Or.inl (by norm_num)), leU32_set (Or.inl (by norm_num)),
      leU32_set (Or.inl (by norm_num)), leU32_set (Or.inl (by norm_num))]
  next h =>
    have hout : ¬ (i ≤ j ∧ j ≤ i + secondaryCount slots i) := by
      intro hin
      have := add_secondaryCount_lt hi hj (by omega)
      omega
    have hget : (clearSlots slots i (secondaryCount slots i)).getD j [] = slots.getD j [] := by
      rw [List.getD_eq_getElem?_getD, List.getD_eq_getElem?_getD,
        getElem?_clearSlots_of_not _ hout]
    rw [setEntry, setEntry, secondaryCount_clearSlots, hget, decodeSet, decodeSet,
      foldl_clearSlots]

lemma parseDirectory_clearInUse {data : List UInt8} {before after : List ℕ} {i : ℕ}
    (hstarts : setStarts (chunksExact 32 data) = before ++ i :: after) :
    parseDirectory (clearInUse data i (secondaryCount (chunksExact 32 data) i)) =
      before.map (setEntry (chunksExact 32 data)) ++
        { setEntry (chunksExact 32 data) i with deleted := true } ::
        after.map (setEntry (chunksExact 32 data)) := by
  have hi : i ∈ setStarts (chunksExact 32 data) := by
    rw [hstarts]
    exact List.mem_append_right _ List.mem_cons_self
  rw [parseDirectory_eq, chunksExact_clearInUse, setStarts_clearSlots hi,
    List.map_congr_left fun j hj => setEntry_clearSlots hi hj]
  exact map_ite_key (f := fun _ => _) id (pairwise_startsFrom _ _ _) hstarts

end Exfat

/-- **Deletion is local.**  A directory has one entry for each of its slots (FAT) or sets (exFAT)
that the scan comes to.  When such a slot or set that is in use is marked deleted, the entries
of all others stay, and so does its own in its place, but that it is deleted and, on FAT, named
by its short name without the first letter. -/
theorem deletion_is_local (data : List UInt8) :
    (Dirent.parseDirectory data = (Dirent.entrySlots (chunksExact 32 data) 0).map
        (Dirent.slotEntry (chunksExact 32 data)) ∧
      ∀ before p after,
        Dirent.entrySlots (chunksExact 32 data) 0 = before ++ p :: after →
        (Dirent.slotEntry (chunksExact 32 data) p).deleted = false →
        Dirent.parseDirectory (data.set (32 * p.2) Dirent.DELETED) =
          before.map (Dirent.slotEntry (chunksExact 32 data)) ++
            { Dirent.slotEntry (chunksExact 32 data) p with
              deleted := true
              name := Dirent.questionName p.1
              shortName := Dirent.questionName p.1 } ::
            after.map (Dirent.slotEntry (chunksExact 32 data))) ∧
    (Exfat.parseDirectory data = (Exfat.setStarts (chunksExact 32 data)).map
        (Exfat.setEntry (chunksExact 32 data)) ∧
      ∀ before i after,
        Exfat.setStarts (chunksExact 32 data) = before ++ i :: after →
        (Exfat.setEntry (chunksExact 32 data) i).deleted = false →
        Exfat.parseDirectory
            (Exfat.clearInUse data i (Exfat.secondaryCount (chunksExact 32 data) i)) =
          before.map (Exfat.setEntry (chunksExact 32 data)) ++
            { Exfat.setEntry (chunksExact 32 data) i with deleted := true } ::
            after.map (Exfat.setEntry (chunksExact 32 data))) :=
  ⟨⟨Dirent.parseDirectory_eq data, fun _ _ _ => Dirent.parseDirectory_markDeleted⟩,
    Exfat.parseDirectory_eq data, fun _ _ _ hstarts _ => Exfat.parseDirectory_clearInUse hstarts⟩

/-- A FAT directory of two files, the first one with a long name. -/
def namedFirst : List UInt8 :=
  Dirent.lfnEntry 1 true (Dirent.shortChecksum Dirent.shortA.name) [0x61, 0x62]
    ++ Dirent.shortA.slot ++ Dirent.shortA.slot

/-- An exFAT directory of two files. -/
def twoLetters : List UInt8 := (Exfat.letterSet 0x61).flatten ++ (Exfat.letterSet 0x62).flatten

theorem deletion_is_local_examples :
    ((Dirent.parseDirectory (namedFirst.set 32 Dirent.DELETED)).map fun e => (e.name, e.deleted))
        = [("?.TXT", true), ("A.TXT", false)] ∧
      ((Exfat.parseDirectory (Exfat.clearInUse twoLetters 0 2)).map fun e => (e.name, e.deleted))
        = [("a", true), ("b", false)] := by
  constructor
  · have hfirst := (deletion_is_local namedFirst).1.2 [] (Dirent.shortA.slot, 1)
      [(Dirent.shortA.slot, 2)] (by decide +kernel) (by decide +kernel)
    rw [show 32 * (Dirent.shortA.slot, 1).2 = 32 from rfl] at hfirst
    rw [hfirst]
    decide +kernel
  · have hcount : Exfat.secondaryCount (chunksExact 32 twoLetters) 0 = 2 := by decide +kernel
    have hfirst := (deletion_is_local twoLetters).2.2 [] 0 [3] (by decide +kernel)
      (by decide +kernel)
    rw [hcount] at hfirst
    rw [hfirst]
    decide +kernel

end FatForensic
