import FatForensic.Volume.Containment

/-!
# What the cap on a chain cuts

`follow_chain` lists the iterates of the FAT from a first cluster on, up to the first cluster
whose entry ends the chain, and at most two more than there are clusters.  A chain inside of
the cluster heap reaches this cap only when it goes round.
-/

namespace FatForensic

open PointerWalk

/-- Whether the FAT entry of a cluster ends its chain: free, reserved, bad or end-of-chain. -/
def EndsChain (fat : List UInt8) (variant : FatVariant) (cluster : UInt32) : Prop :=
  fatEntry fat variant cluster < 2 ∨ isBad variant (fatEntry fat variant cluster) ∨
    isEoc variant (fatEntry fat variant cluster)

instance (fat : List UInt8) (variant : FatVariant) : DecidablePred (EndsChain fat variant) :=
  fun _ => inferInstanceAs (Decidable (_ ∨ _ ∨ _))

variable {fat : List UInt8} {variant : FatVariant}

lemma link_eq_ite : link fat variant = fun c =>
    if EndsChain fat variant c then none else some (fatEntry fat variant c) := rfl

lemma link_eq_none {c : UInt32} : link fat variant c = none ↔ EndsChain fat variant c := by
  simp [link_eq_ite]

/-- **The chain cap cuts only cyclic chains.**  `follow_chain` with room for two more clusters than
there are lists the iterates of the FAT up to the first cluster that ends the chain, or up to
the cap.  In the cluster heap it meets no cluster twice exactly when its last cluster ends the
chain, and a chain that ends is listed as a whole. -/
theorem followChain_cap (fat : List UInt8) (variant : FatVariant) (start : UInt32) (count : ℕ)
    (h2 : 2 ≤ start) :
    (∃ n ≤ count + 2,
      followChain fat variant start (count + 2) = List.iterate (fatEntry fat variant) start n ∧
      (∀ i, i + 1 < n → ¬ EndsChain fat variant ((fatEntry fat variant)^[i] start)) ∧
      (n = count + 2 ∨
        ∃ m, n = m + 1 ∧ EndsChain fat variant ((fatEntry fat variant)^[m] start))) ∧
    ((∀ c ∈ followChain fat variant start (count + 2), 2 ≤ c.toNat ∧ c.toNat ≤ count + 1) →
      ((followChain fat variant start (count + 2)).Nodup ↔
        ∃ last, (followChain fat variant start (count + 2)).getLast? = some last ∧
          EndsChain fat variant last)) ∧
    (∀ m, (∀ i ≤ m, 2 ≤ ((fatEntry fat variant)^[i] start).toNat ∧
        ((fatEntry fat variant)^[i] start).toNat ≤ count + 1) →
      (∀ i < m, ¬ EndsChain fat variant ((fatEntry fat variant)^[i] start)) →
      EndsChain fat variant ((fatEntry fat variant)^[m] start) →
      followChain fat variant start (count + 2)
        = List.iterate (fatEntry fat variant) start (m + 1)) := by
  obtain ⟨s, hcard, hs⟩ := FatFs.exists_heap count
  have hheap : ∀ c : UInt32, 2 ≤ c.toNat ∧ c.toNat ≤ count + 1 → c ∈ s :=
    fun c hc => (hs c (UInt32.le_iff_toNat_le.mpr hc.1)).mpr hc.2
  have hiter := walk_eq_iterate (fatEntry fat variant) (EndsChain fat variant) (count + 2) start
  rw [← link_eq_ite] at hiter
  rw [followChain_eq_walk _ _ h2]
  refine ⟨hiter, fun hin => ?_, fun m hin hgo hend => ?_⟩
  · simp only [← link_eq_none]
    exact nodup_walk_iff (by omega) fun c hc => hheap c (hin c hc)
  · -- cut behind its end, the chain has no cluster twice, and so as many as there are at most
    have hshort := walk_eq_iterate_of_stop m.lt_succ_self hgo hend
    rw [← link_eq_ite] at hshort
    have hlast : (walk (link fat variant) (m + 1) start).getLast?
        = some ((fatEntry fat variant)^[m] start) := by
      rw [hshort, List.getLast?_eq_getElem?, List.length_iterate, Nat.add_sub_cancel,
        List.getElem?_iterate _ _ _ _ m.lt_succ_self]
    have hlen := length_walk_le_card (s := s) (fun c hc => ?_)
      (nodup_walk_of_getLast? hlast (link_eq_none.mpr hend))
    · rw [hshort, List.length_iterate] at hlen
      rw [link_eq_ite, walk_eq_iterate_of_stop (by omega) hgo hend]
    · rw [hshort, List.mem_iterate] at hc
      obtain ⟨i, hi, rfl⟩ := hc
      exact hheap _ (hin i (by omega))

/-- A FAT16 table in which cluster 2 points to cluster 3, and cluster 3 ends the chain. -/
def twoClusterFat : List UInt8 := [0xF8, 0xFF, 0xFF, 0xFF, 0x03, 0x00, 0xFF, 0xFF]

theorem followChain_cap_two_clusters : followChain twoClusterFat .fat16 2 (2 + 2) = [2, 3] :=
  (followChain_cap twoClusterFat .fat16 2 2 (by decide)).2.2 1 (by decide) (by decide) (by decide)

end FatForensic
