import FatForensic.Core.Fs

/-!
# The slots behind the entries of a FAT directory

The scan yields one entry for every slot before the end marker that is no long-name slot,
and decodes it from that slot; only the name can come from elsewhere.
-/

namespace FatForensic

open Window

/-- The position of the first slot that starts with the end marker of both formats, or the
number of slots. -/
def endSlot (slots : List (List UInt8)) : ℕ := slots.findIdx fun s => u8At s 0 = 0x00

lemma length_take_endSlot (slots : List (List UInt8)) :
    (slots.take (endSlot slots)).length = endSlot slots := by
  rw [List.length_take]
  exact Nat.min_eq_left List.findIdx_le_length

lemma getElem?_of_lt_endSlot {slots : List (List UInt8)} {i : ℕ} (h : i < endSlot slots) :
    ∃ s, slots[i]? = some s ∧ u8At s 0 ≠ 0x00 := by
  have hle : endSlot slots ≤ slots.length := List.findIdx_le_length
  refine ⟨_, List.getElem?_eq_getElem (by omega), ?_⟩
  simpa using List.not_of_lt_findIdx (p := fun s => decide (u8At s 0 = 0x00)) h

/-- The slot at the end is no slot, or starts with the end marker. -/
lemma eq_zero_of_endSlot {slots : List (List UInt8)} {s : List UInt8}
    (h : slots[endSlot slots]? = some s) : u8At s 0 = 0x00 := by
  simpa using List.findIdx_of_getElem?_eq_some h

namespace Dirent

/-- The slots before the end marker. -/
def liveChunks (chunks : List (List UInt8)) : List (List UInt8) :=
  chunks.takeWhile fun c => u8At c 0 ≠ END

/-- The slots that entries are decoded from, with their positions from `idx` on. -/
def entrySlots (chunks : List (List UInt8)) (idx : ℕ) : List (List UInt8 × ℕ) :=
  ((liveChunks chunks).zipIdx idx).filter fun p => u8At p.1 11 ≠ ATTR_LFN

/-- An entry decoded from a slot: all but the name of a live entry is read from the slot. -/
def DecodedFrom (e : DirEntry) (p : List UInt8 × ℕ) : Prop :=
  ∃ long, e = decodeShort p.1 p.2 long (u8At p.1 0 = DELETED) ∧
    (u8At p.1 0 = DELETED → long = none)

lemma liveChunks_eq_take (chunks : List (List UInt8)) :
    liveChunks chunks = chunks.take (endSlot chunks) := by
  rw [liveChunks, List.takeWhile_eq_take_findIdx_not, endSlot]
  simp only [ne_eq, decide_not, Bool.not_not]
  rfl

lemma entrySlots_cons (chunk : List UInt8) (rest : List (List UInt8)) (idx : ℕ) :
    entrySlots (chunk :: rest) idx =
      if u8At chunk 0 = END then []
      else if u8At chunk 11 = ATTR_LFN then entrySlots rest (idx + 1)
      else (chunk, idx) :: entrySlots rest (idx + 1) := by
  by_cases hend : u8At chunk 0 = END
  · simp [entrySlots, liveChunks, hend]
  · by_cases hlfn : u8At chunk 11 = ATTR_LFN
    · simp [entrySlots, liveChunks, hend, hlfn]
    · simp [entrySlots, liveChunks, hend, hlfn]

lemma getElem?_of_mem_entrySlots {chunks : List (List UInt8)} {idx : ℕ}
    {p : List UInt8 × ℕ} (hp : p ∈ entrySlots chunks idx) : chunks[p.2 - idx]? = some p.1 := by
  have hzip := (List.mem_filter.mp hp).1
  obtain ⟨hle, hlt, hget⟩ := List.mem_zipIdx hzip
  have hpre : liveChunks chunks <+: chunks := List.takeWhile_prefix _
  rw [hget, hpre.getElem]
  exact List.getElem?_eq_getElem _

/-- **One entry for each slot**: the entries of the scan, in order, are decoded from the
slots before the end marker that are no long-name slots. -/
lemma forall₂_parseFrom (chunks : List (List UInt8)) (idx : ℕ)
    (parts : List (UInt8 × List UInt16)) (checksum : Option UInt8) :
    List.Forall₂ DecodedFrom (parseFrom chunks idx parts checksum) (entrySlots chunks idx) := by
  induction chunks generalizing idx parts checksum with
  | nil => exact List.Forall₂.nil
  | cons chunk rest ih =>
    rw [entrySlots_cons]
    simp only [parseFrom]
    by_cases hend : u8At chunk 0 = END
    · simp [hend]
    rw [if_neg hend, if_neg hend]
    by_cases hdel : u8At chunk 0 = DELETED
    · rw [if_pos hdel]
      by_cases hlfn : u8At chunk 11 = ATTR_LFN
      · rw [if_pos hlfn, if_pos hlfn]
        exact ih _ _ _
      · rw [if_neg hlfn, if_neg hlfn]
        exact List.Forall₂.cons ⟨none, by simp [hdel], fun _ => rfl⟩ (ih _ _ _)
    · rw [if_neg hdel]
      by_cases hlfn : u8At chunk 11 = ATTR_LFN
      · rw [if_pos hlfn, if_pos hlfn]
        exact ih _ _ _
      · rw [if_neg hlfn, if_neg hlfn]
        exact List.Forall₂.cons ⟨reassembleLong parts checksum (slice chunk 0 11),
          by simp [hdel], fun h => absurd h hdel⟩ (ih _ _ _)

lemma exists_decodedFrom {data : List UInt8} {e : DirEntry} (he : e ∈ parseDirectory data) :
    ∃ p ∈ entrySlots (chunksExact 32 data) 0, DecodedFrom e p := by
  obtain ⟨i, hi⟩ := List.mem_iff_getElem?.mp he
  have hall := forall₂_parseFrom (chunksExact 32 data) 0 [] none
  obtain ⟨hlt, rfl⟩ := List.getElem?_eq_some_iff.mp hi
  rw [List.forall₂_iff_get] at hall
  have hlt' : i < (entrySlots (chunksExact 32 data) 0).length := hall.1 ▸ hlt
  exact ⟨_, List.get_mem _ ⟨i, hlt'⟩, hall.2 i hlt hlt'⟩

lemma trim_cons {b : UInt8} (hb : b ≠ 0x20) (bytes : List UInt8) :
    ∃ cs, trim (b :: bytes) = Char.ofNat b.toNat :: cs := by
  have hne : (b :: bytes).rdropWhile (· = 0x20) ≠ [] := by
    rw [Ne, List.rdropWhile_eq_nil_iff]
    exact fun h => hb (by simpa using h b List.mem_cons_self)
  obtain ⟨t, ht⟩ := List.rdropWhile_prefix (fun x : UInt8 => decide (x = 0x20)) (l := b :: bytes)
  obtain ⟨c, cs, hcs⟩ := List.exists_cons_of_ne_nil hne
  rw [hcs, List.cons_append, List.cons.injEq] at ht
  exact ⟨cs.map fun b => Char.ofNat b.toNat, by rw [trim, hcs, ht.1, List.map_cons]⟩

/-- The name of a deleted entry starts with a question mark. -/
lemma decodeShortName_deleted (raw : List UInt8) (ntFlags : UInt8) (isVolumeLabel : Bool) :
    ∃ cs, decodeShortName raw ntFlags isVolumeLabel true = String.ofList ('?' :: cs) := by
  have hq : (Char.ofNat (0x3F : UInt8).toNat) = '?' := by decide
  have hlow : Char.toLower '?' = '?' := by decide
  have hbytes : renderedBytes raw true = 0x3F :: slice raw 1 10 := by simp [renderedBytes]
  rw [decodeShortName]
  dsimp only
  rw [hbytes]
  split
  · obtain ⟨cs, hcs⟩ := trim_cons (by decide : (0x3F : UInt8) ≠ 0x20) (slice raw 1 10)
    exact ⟨cs, by rw [hcs, hq]⟩
  · have hbase : slice (0x3F :: slice raw 1 10) 0 8 = 0x3F :: (slice raw 1 10).take 7 := rfl
    obtain ⟨cs, hcs⟩ := trim_cons (by decide : (0x3F : UInt8) ≠ 0x20) ((slice raw 1 10).take 7)
    rw [hbase, hcs, hq]
    have hlower : ∀ b : Prop, [Decidable b] → ∃ ds,
        (if b then ('?' :: cs).map Char.toLower else '?' :: cs) = '?' :: ds := by
      intro b _
      split
      · exact ⟨cs.map Char.toLower, by rw [List.map_cons, hlow]⟩
      · exact ⟨cs, rfl⟩
    obtain ⟨ds, hds⟩ := hlower (ntFlags &&& 0x08 ≠ 0)
    rw [hds]
    generalize (if ntFlags &&& 0x10 ≠ 0 then List.map Char.toLower
      (trim (slice (0x3F :: slice raw 1 10) 8 3)) else trim (slice (0x3F :: slice raw 1 10) 8 3))
      = ext
    cases ext with
    | nil => exact ⟨ds, rfl⟩
    | cons c ext => exact ⟨ds ++ '.' :: c :: ext, rfl⟩

/-- No deleted entry is named `.` or `..`. -/
lemma name_ne_dot_of_deleted {e : DirEntry} {p : List UInt8 × ℕ} (h : DecodedFrom e p)
    (hdel : e.deleted = true) : e.name ≠ "." ∧ e.name ≠ ".." := by
  obtain ⟨long, rfl, hlong⟩ := h
  have hd : u8At p.1 0 = DELETED := by simpa [decodeShort] using hdel
  obtain ⟨cs, hcs⟩ := decodeShortName_deleted (slice p.1 0 11) (u8At p.1 12)
    (decide (u8At p.1 11 &&& ATTR_VOLUME_ID ≠ 0 ∧ u8At p.1 11 ≠ ATTR_LFN))
  have hname : (decodeShort p.1 p.2 long (u8At p.1 0 = DELETED)).name
      = String.ofList ('?' :: cs) := by
    rw [hlong hd, ← hcs]
    simp [decodeShort, hd]
  rw [hname]
  constructor <;> intro heq <;> have := congrArg String.toList heq <;> simp at this

end Dirent
end FatForensic
