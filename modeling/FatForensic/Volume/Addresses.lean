import FatForensic.Core.Vfs
import FatForensic.Directory.Slots
import FatForensic.Volume.Synth

/-!
# Addresses are unambiguous

The root has the address that an entry of a directory at cluster 0 would have.  No node is ever
listed under cluster 0 or 1, whatever a directory entry says, so on the handles that
navigation yields the addresses can be turned back, and tell the handles apart.
-/

namespace FatForensic

open FatFs

namespace FatFs

/-- The handles got from the root by taking ids of listed nodes again and again. -/
inductive Navigated (fs : FatFs) : FileId → Prop where
  | root : Navigated fs .root
  | step {d : FileId} {nodes : List Node} {n : Node} :
    Navigated fs d → fs.readDir d = .ok nodes → n ∈ nodes → Navigated fs n.id

variable {fs : FatFs}

/-- A directory that is said to start at cluster 0 or 1 has no bytes. -/
lemma readDirBytes_of_lt_two {first : UInt32} (h : first < 2) (size : UInt64) (contiguous : Bool) :
    fs.readDirBytes (.chain first size contiguous) = [] := by
  rw [readDirBytes, clusters, if_pos h, readClusters]

/-- **No node is listed under cluster 0 or 1.** -/
lemma two_le_of_mem_listNodes {source : DirSource} {n : Node}
    (h : n ∈ fs.listNodes (fs.readDirBytes source) (sourceMarker source)) :
    ∃ d i, n.id = .entry d i ∧ 2 ≤ d := by
  obtain ⟨i, hid⟩ := exists_index_of_mem_listNodes h
  refine ⟨sourceMarker source, i, hid, ?_⟩
  cases source with
  | fixedRoot => decide
  | chain first size contiguous =>
    by_contra hlt
    rw [sourceMarker, UInt32.not_le] at hlt
    rw [readDirBytes_of_lt_two hlt, listNodes_nil] at h
    exact absurd h (by simp)

/-- Navigation ends at the root, or at an entry of a directory that has a place. -/
lemma Navigated.cases {h : FileId} (hnav : fs.Navigated h) :
    h = .root ∨ ∃ d i, h = .entry d i ∧ 2 ≤ d := by
  cases hnav with
  | root => exact Or.inl rfl
  | step _ hread hn =>
    right
    rw [readDir, bind_eq_ok] at hread
    obtain ⟨source, -, hnodes⟩ := hread
    rw [Except.ok.injEq] at hnodes
    rw [← hnodes] at hn
    exact two_le_of_mem_listNodes hn

end FatFs

namespace Vfs

variable {Other : Type} (debug : Other → String)

lemma fromVfsId_toVfsId_entry {d : UInt32} (h : 2 ≤ d) (i : UInt16) :
    fromVfsId debug (toVfsId (.entry d i)) = .ok (.entry d i) := by
  have hne : d ≠ 0 := by
    rintro rfl
    exact absurd h (by decide)
  rw [toVfsId, fromVfsId, if_neg fun h0 => hne h0.1]

lemma toNat_inoOf_entry (d : UInt32) (i : UInt16) :
    (inoOf (.entry d i)).toNat = d.toNat * 2 ^ 16 + i.toNat := by
  have hd := d.toNat_lt
  have hi := i.toNat_lt
  rw [inoOf, UInt64.toNat_or, UInt64.toNat_shiftLeft, UInt32.toNat_toUInt64, UInt16.toNat_toUInt64,
    show (16 : UInt64).toNat % 64 = 16 by rfl, Nat.mod_eq_of_lt (by
      rw [Nat.shiftLeft_eq]
      omega), ← Nat.shiftLeft_add_eq_or_of_lt hi, Nat.shiftLeft_eq]

/-- The address of a handle is turned back into it. -/
lemma fromVfsId_toVfsId {fs : FatFs} {h : FileId} (hnav : fs.Navigated h) :
    fromVfsId debug (toVfsId h) = .ok h := by
  obtain rfl | ⟨d, i, rfl, hd⟩ := hnav.cases
  · rfl
  · exact fromVfsId_toVfsId_entry debug hd i

/-- **Addresses are unambiguous.** -/
theorem addresses_unambiguous (fs : FatFs) :
    (∀ h, fs.Navigated h → fromVfsId debug (toVfsId h) = .ok h) ∧
    (∀ d i, fs.Navigated (.entry d i) → 2 ≤ d) ∧
    ∀ h h', fs.Navigated h → fs.Navigated h' → inoOf h = inoOf h' → h = h' := by
  refine ⟨fun h => fromVfsId_toVfsId debug, ?_, ?_⟩
  · intro d i hnav
    obtain h | ⟨d', i', h, hd⟩ := hnav.cases
    · exact absurd h (by simp)
    · obtain ⟨rfl, rfl⟩ := FileId.entry.inj h
      exact hd
  · intro h h' hnav hnav' hino
    have hino := congrArg UInt64.toNat hino
    obtain rfl | ⟨d, i, rfl, hd⟩ := hnav.cases <;> obtain rfl | ⟨d', i', rfl, hd'⟩ := hnav'.cases
    · rfl
    · rw [toNat_inoOf_entry, inoOf] at hino
      have := UInt32.le_iff_toNat_le.mp hd'
      simp at hino this
      omega
    · rw [toNat_inoOf_entry, inoOf] at hino
      have := UInt32.le_iff_toNat_le.mp hd
      simp at hino this
      omega
    · rw [toNat_inoOf_entry, toNat_inoOf_entry] at hino
      have hi := i.toNat_lt
      have hi' := i'.toNat_lt
      rw [FileId.entry.injEq, ← UInt32.toNat_inj, ← UInt16.toNat_inj]
      omega

/-- The entries of a directory of a nested volume and of its subdirectory. -/
theorem addresses_unambiguous_nested :
    fromVfsId (fun _ : Unit => "") (toVfsId (.entry 3 1)) = .ok (.entry 3 1) ∧
      (2 : UInt32) ≤ 3 ∧
      (inoOf (.entry 2 2) = inoOf (.entry 3 1) → FileId.entry 2 2 = .entry 3 1) := by
  have hroot : Synth.nested.reader.readDir .root = .ok (Synth.nested.listing .root) ∧
      .entry 2 2 ∈ (Synth.nested.listing .root).map Node.id ∧
      Synth.nested.reader.readDir (.entry 2 2) = .ok (Synth.nested.listing (.entry 2 2)) ∧
      .entry 3 1 ∈ (Synth.nested.listing (.entry 2 2)).map Node.id := by
    decide +kernel
  obtain ⟨hroot, hdir, hsub, hfile⟩ := hroot
  obtain ⟨n, hn, hid⟩ := List.mem_map.mp hdir
  obtain ⟨m, hm, hid'⟩ := List.mem_map.mp hfile
  have hnav : Synth.nested.reader.Navigated (.entry 2 2) := hid ▸ .step .root hroot hn
  have hnav' : Synth.nested.reader.Navigated (.entry 3 1) := hid' ▸ .step hnav hsub hm
  obtain ⟨hback, hle, hino⟩ := addresses_unambiguous (fun _ : Unit => "") Synth.nested.reader
  exact ⟨hback _ hnav', hle _ _ hnav', hino _ _ hnav hnav'⟩

end Vfs
end FatForensic
