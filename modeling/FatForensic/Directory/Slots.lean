import FatForensic.Core.Fs

/-!
# Slot indices

In a directory of at most 65536 slots the entries carry their slot positions: the index
fields of both parsers are strictly increasing, so an index finds its own entry again.
-/

namespace FatForensic

open Window

/-! ## The FAT scan -/

namespace Dirent

/-- Every entry the scan yields from slot `idx` on carries a slot position from `idx` on. -/
lemma le_index_of_mem_parseFrom {chunks : List (List UInt8)} {idx : ℕ}
    (h : idx + chunks.length ≤ 2 ^ 16) {parts : List (UInt8 × List UInt16)}
    {checksum : Option UInt8} {e : DirEntry} (he : e ∈ parseFrom chunks idx parts checksum) :
    idx ≤ e.index.toNat := by
  induction chunks generalizing idx parts checksum with
  | nil => simp [parseFrom] at he
  | cons chunk rest ih =>
    rw [List.length_cons] at h
    have hrest : ∀ {parts checksum}, e ∈ parseFrom rest (idx + 1) parts checksum →
        idx ≤ e.index.toNat := fun he' => Nat.le_of_succ_le (ih (by omega) he')
    have hself : ∀ long deleted, idx ≤ (decodeShort chunk idx long deleted).index.toNat :=
      fun long deleted => (toNat_u16OrMax_of_lt (by omega)).ge
    simp only [parseFrom] at he
    split at he
    · simp at he
    split at he
    · split at he
      · exact hrest he
      · rcases List.mem_cons.mp he with rfl | he
        · exact hself _ _
        · exact hrest he
    split at he
    · exact hrest he
    · rcases List.mem_cons.mp he with rfl | he
      · exact hself _ _
      · exact hrest he

lemma pairwise_index_parseFrom {chunks : List (List UInt8)} {idx : ℕ}
    (h : idx + chunks.length ≤ 2 ^ 16) (parts : List (UInt8 × List UInt16))
    (checksum : Option UInt8) :
    (parseFrom chunks idx parts checksum).Pairwise fun a b => a.index.toNat < b.index.toNat := by
  induction chunks generalizing idx parts checksum with
  | nil => simp [parseFrom]
  | cons chunk rest ih =>
    rw [List.length_cons] at h
    have hcons : ∀ long deleted, (decodeShort chunk idx long deleted ::
        parseFrom rest (idx + 1) [] none).Pairwise fun a b => a.index.toNat < b.index.toNat := by
      intro long deleted
      refine List.pairwise_cons.mpr ⟨fun b hb => ?_, ih (by omega) _ _⟩
      have hb' := le_index_of_mem_parseFrom (by omega) hb
      have ha : (decodeShort chunk idx long deleted).index.toNat = idx :=
        toNat_u16OrMax_of_lt (by omega)
      omega
    simp only [parseFrom]
    split
    · exact List.Pairwise.nil
    split
    · split
      · exact ih (by omega) _ _
      · exact hcons _ _
    split
    · exact ih (by omega) _ _
    · exact hcons _ _

/-- In a directory of at most 65536 slots the indices are strictly increasing. -/
lemma pairwise_index_parseDirectory {data : List UInt8} (h : data.length / 32 ≤ 2 ^ 16) :
    (parseDirectory data).Pairwise fun a b => a.index.toNat < b.index.toNat :=
  pairwise_index_parseFrom (by simpa using h) _ _

end Dirent

/-! ## The exFAT scan -/

namespace Exfat

lemma le_index_of_mem_parseFrom {slots : List (List UInt8)} (h : slots.length ≤ 2 ^ 16)
    {fuel i : ℕ} {e : ExfatDirEntry} (he : e ∈ parseFrom slots fuel i) : i ≤ e.index.toNat := by
  induction fuel generalizing i with
  | zero => simp [parseFrom] at he
  | succ fuel ih =>
    rw [parseFrom] at he
    cases hs : slots[i]? with
    | none => simp [hs] at he
    | some s =>
      have hi := (List.getElem?_eq_some_iff.mp hs).1
      rw [hs] at he
      dsimp only at he
      split at he
      · simp at he
      split at he
      · exact Nat.le_of_succ_le (ih he)
      · rcases List.mem_cons.mp he with rfl | he
        · exact (toNat_u16OrMax_of_lt (by omega)).ge
        · have := ih he
          omega

lemma pairwise_index_parseFrom {slots : List (List UInt8)} (h : slots.length ≤ 2 ^ 16)
    (fuel i : ℕ) :
    (parseFrom slots fuel i).Pairwise fun a b => a.index.toNat < b.index.toNat := by
  induction fuel generalizing i with
  | zero => simp [parseFrom]
  | succ fuel ih =>
    rw [parseFrom]
    cases hs : slots[i]? with
    | none => simp
    | some s =>
      have hi := (List.getElem?_eq_some_iff.mp hs).1
      dsimp only
      split
      · exact List.Pairwise.nil
      split
      · exact ih _
      · refine List.pairwise_cons.mpr ⟨fun b hb => ?_, ih _⟩
        have hb' := le_index_of_mem_parseFrom h hb
        have ha : (decodeSet slots i (u8At s 1).toNat s).index.toNat = i :=
          toNat_u16OrMax_of_lt (by omega)
        omega

/-- In a directory of at most 65536 slots the indices are strictly increasing. -/
lemma pairwise_index_parseDirectory {data : List UInt8} (h : data.length / 32 ≤ 2 ^ 16) :
    (parseDirectory data).Pairwise fun a b => a.index.toNat < b.index.toNat :=
  pairwise_index_parseFrom (by simpa using h) _ _

@[simp] lemma parseDirectory_nil : parseDirectory [] = [] := by
  simp [parseDirectory, parseFrom]

end Exfat

@[simp] lemma Dirent.parseDirectory_nil : Dirent.parseDirectory [] = [] := by
  simp [Dirent.parseDirectory, Dirent.parseFrom]

/-! ## Nodes -/

namespace FatFs

variable {fs : FatFs}

lemma listNodes_nil (marker : UInt32) : fs.listNodes [] marker = [] := by
  simp [listNodes]

/-- Every listed node has the marker and an index in its handle. -/
lemma exists_index_of_mem_listNodes {bytes : List UInt8} {marker : UInt32} {n : Node}
    (h : n ∈ fs.listNodes bytes marker) : ∃ i, n.id = .entry marker i := by
  unfold listNodes at h
  split at h <;> obtain ⟨e, -, rfl⟩ := List.mem_map.mp h <;> exact ⟨e.index, rfl⟩

/-- In a listing of at most 65536 slots, handles are pairwise distinct. -/
lemma nodup_id_listNodes {bytes : List UInt8} (h : bytes.length / 32 ≤ 2 ^ 16)
    (marker : UInt32) : ((fs.listNodes bytes marker).map Node.id).Nodup := by
  have hne : ∀ i j : UInt16, i.toNat < j.toNat → FileId.entry marker i ≠ .entry marker j := by
    intro i j hlt heq
    rw [FileId.entry.injEq] at heq
    rw [heq.2] at hlt
    exact lt_irrefl _ hlt
  unfold listNodes
  split <;> rw [List.map_map] <;> refine List.pairwise_map.mpr ?_
  · exact (Exfat.pairwise_index_parseDirectory h).imp fun hlt => hne _ _ hlt
  · exact (Dirent.pairwise_index_parseDirectory h).imp fun hlt => hne _ _ hlt

/-- Where the handles of a listing are distinct, the index of a node finds this node again. -/
lemma find?_hasIndex_of_nodup {bytes : List UInt8} {marker : UInt32}
    (h : ((fs.listNodes bytes marker).map Node.id).Nodup) {n : Node} {i : UInt16}
    (hn : n ∈ fs.listNodes bytes marker) (hid : n.id = .entry marker i) :
    (fs.listNodes bytes marker).find? (hasIndex i) = some n := by
  cases hfind : (fs.listNodes bytes marker).find? (hasIndex i) with
  | none =>
    have := List.find?_eq_none.mp hfind n hn
    simp [hasIndex, hid] at this
  | some m =>
    have hm := List.mem_of_find?_eq_some hfind
    have hmi := List.find?_some hfind
    obtain ⟨j, hj⟩ := exists_index_of_mem_listNodes hm
    have hij : j = i := by simpa [hasIndex, hj] using hmi
    have heq : m = n := List.inj_on_of_nodup_map h hm hn (by rw [hj, hid, hij])
    rw [heq]

/-- The index of a listed node finds this node again. -/
lemma find?_hasIndex_listNodes {bytes : List UInt8} (h : bytes.length / 32 ≤ 2 ^ 16)
    {marker : UInt32} {n : Node} {i : UInt16} (hn : n ∈ fs.listNodes bytes marker)
    (hid : n.id = .entry marker i) :
    (fs.listNodes bytes marker).find? (hasIndex i) = some n :=
  find?_hasIndex_of_nodup (nodup_id_listNodes h marker) hn hid

end FatFs
end FatForensic
