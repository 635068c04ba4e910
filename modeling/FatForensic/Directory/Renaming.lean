import FatForensic.Directory.Deletion
import FatForensic.Lib.Fold

/-!
# Renaming a short entry

The slots of a long name carry a checksum of the short name.  It tells apart any two short
names that differ in one byte, so a short entry that such a byte is changed of falls back to
its 8.3 name.
-/

namespace FatForensic
namespace Dirent

open Window

/-! ## The checksum -/

/-- A rotation and an addition lose nothing of the sum. -/
lemma checksumStep_injective (b : UInt8) : Function.Injective (checksumStep · b) := by
  intro sum sum' h
  have h : (checksumStep sum b).toNat = (checksumStep sum' b).toNat := congrArg UInt8.toNat h
  rw [toNat_checksumStep, toNat_checksumStep] at h
  have hlt := sum.toNat_lt
  have hlt' := sum'.toNat_lt
  -- the addition first, then the rotation
  have hrotate : sum.toNat % 2 * 128 + sum.toNat / 2
      = sum'.toNat % 2 * 128 + sum'.toNat / 2 := by
    have hle : sum.toNat % 2 * 128 + sum.toNat / 2 < 256 := by omega
    have hle' : sum'.toNat % 2 * 128 + sum'.toNat / 2 < 256 := by omega
    generalize sum.toNat % 2 * 128 + sum.toNat / 2 = x at h hle
    generalize sum'.toNat % 2 * 128 + sum'.toNat / 2 = x' at h hle'
    omega
  apply UInt8.toNat_inj.mp
  omega

lemma separates_checksumStep {a b : UInt8} (h : b ≠ a) : Fold.Separates checksumStep a b := by
  intro sum hsum
  have hsum : (checksumStep sum a).toNat = (checksumStep sum b).toNat := congrArg UInt8.toNat hsum
  rw [toNat_checksumStep, toNat_checksumStep] at hsum
  have hlt := a.toNat_lt
  have hlt' := b.toNat_lt
  apply h
  apply UInt8.toNat_inj.mp
  omega

/-- Two short names that differ in one byte have different checksums. -/
lemma shortChecksum_set_ne {name : List UInt8} {k : ℕ} {a b : UInt8} (hk : k < 11)
    (ha : name[k]? = some a) (hb : b ≠ a) : shortChecksum (name.set k b) ≠ shortChecksum name := by
  rw [shortChecksum, shortChecksum, List.take_set]
  exact Fold.foldl_set_ne (by rwa [List.getElem?_take_of_lt hk]) (separates_checksumStep hb)
    (fun c _ => checksumStep_injective c) 0

/-! ## The entry of a renamed slot -/

variable {slot : List UInt8} {k : ℕ} {b : UInt8}

/-- A long name is bound to the eleven bytes of the short one. -/
lemma blockName_set {block : List (List UInt8)} {long : String}
    (hname : blockName block slot = some long) (hlen : slot.length = 32) (hk : k < 11)
    (hb : b ≠ u8At slot k) : blockName block (slot.set k b) = none := by
  have hget : (slice slot 0 11)[k]? = some (u8At slot k) := by
    rw [getElem?_slice_of_lt hk, Nat.zero_add, u8At, List.getElem?_eq_getElem (by omega),
      Option.getD_some]
  have hslice : slice (slot.set k b) 0 11 = (slice slot 0 11).set k b := by
    rw [slice, slice, List.drop_zero, List.drop_zero, List.take_set]
  by_contra hsome
  obtain ⟨other, hother⟩ := Option.ne_none_iff_exists'.mp hsome
  have hsum := (blockName_eq_some.mp hname).1
  have hsum' := (blockName_eq_some.mp hother).1
  rw [hsum, Option.some.injEq, hslice] at hsum'
  exact shortChecksum_set_ne hk hget hb hsum'.symm

/-- Of a slot with a changed short name, all but the names is decoded as before. -/
lemma decodeShort_set (hk : k < 11) (idx : ℕ) (long : Option String) :
    decodeShort (slot.set k b) idx none false =
      { decodeShort slot idx long false with
        name := (decodeShort (slot.set k b) idx none false).shortName
        shortName := (decodeShort (slot.set k b) idx none false).shortName } := by
  have h8 : ∀ off, 11 ≤ off → u8At (slot.set k b) off = u8At slot off :=
    fun off h => u8At_set (by omega) _ _
  have h16 : ∀ off, 11 ≤ off → leU16 (slot.set k b) off = leU16 slot off :=
    fun off h => leU16_set (Or.inl (by omega)) _ _
  simp only [decodeShort, h8 11 (by norm_num), h8 12 (by norm_num), h8 13 (by norm_num),
    h16 14 (by norm_num), h16 16 (by norm_num), h16 18 (by norm_num), h16 20 (by norm_num),
    h16 22 (by norm_num), h16 24 (by norm_num), h16 26 (by norm_num), h16 28 (by norm_num),
    h16 30 (by norm_num), Option.getD_none]

/-- **A renamed short entry loses its stale long name.**  A directory has one entry for each of
its slots that the scan comes to.  When one byte of the short name of a live entry with a long
name is changed, its slot staying in use, then the entry is named by its new 8.3 name, and all
others stay. -/
theorem renamed_loses_long_name (data : List UInt8) :
    parseDirectory data = (entrySlots (chunksExact 32 data) 0).map
        (slotEntry (chunksExact 32 data)) ∧
    ∀ before p after long k b,
      entrySlots (chunksExact 32 data) 0 = before ++ p :: after →
      (slotEntry (chunksExact 32 data) p).deleted = false →
      blockName (longBlock (chunksExact 32 data) p.2) p.1 = some long →
      k < 11 → b ≠ u8At p.1 k → (k = 0 → b ≠ END ∧ b ≠ DELETED) →
      (slotEntry (chunksExact 32 data) p).name = long ∧
      parseDirectory (data.set (32 * p.2 + k) b) =
        before.map (slotEntry (chunksExact 32 data)) ++
          { slotEntry (chunksExact 32 data) p with
            name := (decodeShort (p.1.set k b) p.2 none false).shortName
            shortName := (decodeShort (p.1.set k b) p.2 none false).shortName } ::
          after.map (slotEntry (chunksExact 32 data)) := by
  refine ⟨parseDirectory_eq data, ?_⟩
  intro before p after long k b hslots hlive hname hk hb hfirst
  have hp : p ∈ entrySlots (chunksExact 32 data) 0 := by
    rw [hslots]
    exact List.mem_append_right _ List.mem_cons_self
  obtain ⟨-, hlen, hend, -⟩ := entrySlot_spec hp
  have hdel := deleted_slotEntry.mp hlive
  -- the slot stays live
  have hstart : u8At (p.1.set k b) 0 ≠ END ∧ u8At (p.1.set k b) 0 ≠ DELETED := by
    obtain rfl | hk0 := Nat.eq_zero_or_pos k
    · rw [u8At, List.getElem?_set_self (by omega), Option.getD_some]
      exact hfirst rfl
    · rw [u8At_set (by omega)]
      exact ⟨hend, hdel⟩
  refine ⟨?_, ?_⟩
  · rw [slotEntry_live hdel, hname]
    rfl
  · rw [parseDirectory_set hslots (by omega) (by omega) hstart.1, slotEntry_live hstart.2,
      slotEntry_live hdel, blockName_set hname hlen hk hb]
    congr 2
    exact decodeShort_set hk _ _

/-- `ab` for `A.TXT` is lost when the short name becomes `B.TXT`. -/
theorem renamed_loses_long_name_ab :
    (parseDirectory namedFirst).map DirEntry.name = ["ab", "A.TXT"] ∧
      (parseDirectory (namedFirst.set 32 0x42)).map DirEntry.name = ["B.TXT", "A.TXT"] := by
  obtain ⟨hparse, hrename⟩ := renamed_loses_long_name namedFirst
  obtain ⟨-, hset⟩ := hrename [] (shortA.slot, 1) [(shortA.slot, 2)] "ab" 0 0x42
    (by decide +kernel) (by decide +kernel) (by decide +kernel) (by norm_num) (by decide +kernel)
    (by decide)
  rw [show 32 * (shortA.slot, 1).2 + 0 = 32 by rfl] at hset
  rw [hparse, hset]
  decide +kernel

end Dirent
end FatForensic
