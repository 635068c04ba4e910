import FatForensic.Lib.Slice

/-!
# Allocated blocks

Objects take blocks of a store, no block twice, and each block holds the piece of its object's
content that belongs there.  The pieces make the content up again.
-/

namespace Allocation

open Window

variable {κ β α : Type*} [DecidableEq β]

/-- The object that takes a block. -/
def owner (objects : List κ) (chain : κ → List β) (b : β) : Option κ :=
  objects.find? fun k => decide (b ∈ chain k)

/-- The block that follows a block in a chain. -/
def next (chain : List β) (b : β) : Option β := chain[chain.idxOf b + 1]?

/-- What a block of `n` elements holds: its piece of the content of its object, filled up, or
nothing but the filling. -/
def piece (objects : List κ) (chain : κ → List β) (content : κ → List α) (fill : α) (n : ℕ)
    (b : β) : List α :=
  match owner objects chain b with
  | none => List.replicate n fill
  | some k => slice (content k ++ List.replicate (n * (chain k).length) fill)
      (n * (chain k).idxOf b) n

variable {objects : List κ} {chain : κ → List β} {content : κ → List α} {fill : α} {n : ℕ} {b : β}
  {k : κ}

lemma mem_of_owner (h : owner objects chain b = some k) : b ∈ chain k := by
  rw [owner] at h
  simpa using List.find?_some h

/-- A block that is in a chain is owned by its object, no block being taken twice. -/
lemma owner_eq (hnodup : (objects.flatMap chain).Nodup) (hk : k ∈ objects) (hb : b ∈ chain k) :
    owner objects chain b = some k := by
  induction objects with
  | nil => exact absurd hk List.not_mem_nil
  | cons k' ks ih =>
    rw [List.flatMap_cons, List.nodup_append'] at hnodup
    obtain ⟨-, hrest, hdisjoint⟩ := hnodup
    rw [owner, List.find?_cons]
    by_cases hb' : b ∈ chain k'
    · rw [decide_eq_true hb']
      rcases List.mem_cons.mp hk with rfl | hk
      · rfl
      · exact absurd (List.mem_flatMap.mpr ⟨k, hk, hb⟩) (hdisjoint hb')
    · rw [decide_eq_false hb']
      rcases List.mem_cons.mp hk with rfl | hk
      · exact absurd hb hb'
      · exact ih hrest hk

omit [DecidableEq β] in
lemma nodup_chain (hnodup : (objects.flatMap chain).Nodup) (hk : k ∈ objects) :
    (chain k).Nodup :=
  (List.nodup_flatMap.mp hnodup).1 k hk

/-- In a chain without repetition the next block of a block is the one behind it. -/
lemma next_eq {blocks : List β} (hnodup : blocks.Nodup) {i : ℕ} (hi : blocks[i]? = some b) :
    next blocks b = blocks[i + 1]? := by
  obtain ⟨hlt, rfl⟩ := List.getElem?_eq_some_iff.mp hi
  rw [next, hnodup.idxOf_getElem]

/-- Every block is filled. -/
lemma length_piece (b : β) : (piece objects chain content fill n b).length = n := by
  rw [piece]
  split
  · rw [List.length_replicate]
  next k hk =>
    have hlt := List.idxOf_lt_length_iff.mpr (mem_of_owner hk)
    have hroom := Nat.mul_le_mul_left n (Nat.succ_le_of_lt hlt)
    rw [Nat.mul_succ] at hroom
    rw [length_slice, List.length_append, List.length_replicate]
    omega

/-- **The blocks of an object hold its content**, filled up to whole blocks. -/
lemma flatMap_piece (hnodup : (objects.flatMap chain).Nodup) (hk : k ∈ objects) :
    (chain k).flatMap (piece objects chain content fill n)
      = (content k ++ List.replicate (n * (chain k).length) fill).take (n * (chain k).length) := by
  have hpiece : ∀ b ∈ chain k, piece objects chain content fill n b
      = slice (content k ++ List.replicate (n * (chain k).length) fill)
        (n * (chain k).idxOf b) n := by
    intro b hb
    rw [piece, owner_eq hnodup hk hb]
  have hindex : (chain k).map (chain k).idxOf = List.range (chain k).length := by
    apply List.ext_getElem
    · rw [List.length_map, List.length_range]
    · intro i hi _
      rw [List.getElem_map, List.getElem_range, (nodup_chain hnodup hk).idxOf_getElem]
  rw [List.flatMap_congr hpiece, ← flatMap_slice_range, ← hindex, List.flatMap_map]

end Allocation
