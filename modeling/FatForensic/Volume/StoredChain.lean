import FatForensic.Volume.Chains
import FatForensic.Volume.FatCache

/-!
# Chains as they are stored

A volume stores a chain by the pointers of its FAT, one cluster to the next, and an end mark for
the last.  The reader follows a chain of the cluster heap as it is stored.
-/

namespace FatForensic

open PointerWalk

/-- The value marks the last cluster of a chain: any number from the threshold on, on exFAT the
one that the format prescribes. -/
def MarksEnd (variant : FatVariant) (v : UInt32) : Prop :=
  if variant = .exFat then v = 0xFFFFFFFF else eocThreshold variant ≤ v

/-- The FAT links the clusters of a chain, one to the next, and marks the last one. -/
def StoresChain (fat : List UInt8) (variant : FatVariant) : List UInt32 → Prop
  | [] => True
  | [c] => ∃ v, StoresPointer fat variant c v ∧ MarksEnd variant v
  | c :: d :: rest => StoresPointer fat variant c d ∧ StoresChain fat variant (d :: rest)

instance (variant : FatVariant) (v : UInt32) : Decidable (MarksEnd variant v) :=
  inferInstanceAs (Decidable (if variant = .exFat then v = 0xFFFFFFFF else
    eocThreshold variant ≤ v))

instance (fat : List UInt8) (variant : FatVariant) (c v : UInt32) :
    Decidable (StoresPointer fat variant c v) :=
  inferInstanceAs (Decidable (_ ∧ _))

/-- The clusters `first`, `first + 1`, … of `n` clusters. -/
def consecutive (first : UInt32) (n : ℕ) : List UInt32 :=
  (List.range' first.toNat n).map UInt32.ofNat

/-- The part of the first FAT that is cached. -/
def cachedFat (img : List UInt8) (g : Geometry) : List UInt8 := (diskFat img g).take MAX_FAT_BYTES

variable {fat : List UInt8} {variant : FatVariant} {g : Geometry} {c : UInt32}

lemma fat_eq_cachedFat {img : List UInt8} {fs : FatFs} (hopen : FatFs.openImage img = .ok fs) :
    fs.fat = cachedFat img fs.geom := by
  rw [(FatFs.openImage_ok hopen).fat, cachedFat, diskFat, Window.slice, Window.slice,
    List.take_take, Nat.min_comm]

/-! ## Following a stored chain -/

/-- What is stored as an end mark is decoded as one. -/
lemma isEoc_of_marksEnd {v : UInt32} (hstores : StoresPointer fat variant c v)
    (hend : MarksEnd variant v) : isEoc variant (fatEntry fat variant c) = true := by
  have hin := (entryOffset_add_le_iff fat.length).mpr hstores.1
  have hdvd : 2 ^ decodedBits variant ∣ 2 ^ pointerBits variant :=
    pow_dvd_pow 2 (by cases variant <;> decide)
  have hentry : (fatEntry fat variant c).toNat = v.toNat % 2 ^ decodedBits variant := by
    rw [toNat_fatEntry hin, ← Nat.mod_mod_of_dvd _ hdvd, hstores.2]
  have hlt : v.toNat < 2 ^ pointerBits variant := by
    rw [← hstores.2]
    exact Nat.mod_lt _ (by positivity)
  rw [isEoc, decide_eq_true_eq, UInt32.le_iff_toNat_le, hentry]
  by_cases hvar : variant = .exFat
  · subst hvar
    rw [MarksEnd, if_pos rfl] at hend
    subst hend
    decide
  · have hbits : decodedBits variant = pointerBits variant := by
      cases variant <;> first | rfl | exact absurd rfl hvar
    rw [MarksEnd, if_neg hvar, UInt32.le_iff_toNat_le] at hend
    rwa [hbits, Nat.mod_eq_of_lt hlt]

/-- The numbers of the clusters of a volume end no chain. -/
lemma Geometry.InHeap.lt_eocThreshold {boot : List UInt8} (hacc : Accepts boot g)
    (hcount : g.countOfClusters < 0x0FFFFFF6) (hc : g.InHeap c) :
    c.toNat + 1 < (eocThreshold g.variant).toNat := by
  obtain ⟨h12, h16⟩ := hacc.countOfClusters_lt
  have hle := hc.2
  cases hvar : g.variant with
  | fat12 =>
    have := h12 hvar
    show c.toNat + 1 < 0x0FF8
    omega
  | fat16 =>
    have := h16 hvar
    show c.toNat + 1 < 0xFFF8
    omega
  | fat32 | exFat =>
    show c.toNat + 1 < 0x0FFFFFF8
    omega

/-- **A stored chain is followed**, as far as the cap lets it. -/
lemma followChain_of_storesChain {boot : List UInt8} (hacc : Accepts boot g)
    (hcount : g.countOfClusters < 0x0FFFFFF6) {chain : List UInt32}
    (hstores : StoresChain fat g.variant (c :: chain)) (hheap : ∀ d ∈ c :: chain, g.InHeap d)
    {n : ℕ} (hn : chain.length < n) : followChain fat g.variant c n = c :: chain := by
  induction chain generalizing c n with
  | nil =>
    obtain ⟨v, hv, hend⟩ := hstores
    obtain ⟨n, rfl⟩ : ∃ m, n = m + 1 := ⟨n - 1, by omega⟩
    have h2 : ¬ c < 2 := UInt32.not_lt.mpr (hheap c List.mem_cons_self).two_le
    rw [followChain, followChainFrom, if_neg h2]
    dsimp only
    rw [if_pos (Or.inr (Or.inr (isEoc_of_marksEnd hv hend)))]
  | cons d rest ih =>
    obtain ⟨hlink, hrest⟩ := hstores
    obtain ⟨n, rfl⟩ : ∃ m, n = m + 1 := ⟨n - 1, by omega⟩
    have hd := hheap d (List.mem_cons_of_mem _ List.mem_cons_self)
    have hmax := hd.lt_eocThreshold hacc hcount
    have hfits : (eocThreshold g.variant).toNat < 2 ^ decodedBits g.variant := by
      cases g.variant <;> decide
    obtain ⟨hbad, heoc⟩ := isBad_isEoc_eq_false hmax
    rw [followChain_succ (hheap c List.mem_cons_self).two_le hd.two_le
      (hlink.fatEntry_eq (by omega)) hbad heoc]
    rw [ih hrest (fun e he => hheap e (List.mem_cons_of_mem _ he))
      (by rw [List.length_cons] at hn; omega)]

/-- No cluster is stored twice in a chain. -/
lemma nodup_of_storesChain {boot : List UInt8} (hacc : Accepts boot g)
    (hcount : g.countOfClusters < 0x0FFFFFF6) {chain : List UInt32}
    (hstores : StoresChain fat g.variant chain) (hheap : ∀ d ∈ chain, g.InHeap d) :
    chain.Nodup := by
  cases chain with
  | nil => exact List.nodup_nil
  | cons c chain =>
    have hwalk : walk (link fat g.variant) (chain.length + 1) c = c :: chain := by
      rw [← followChain_eq_walk _ _ (hheap c List.mem_cons_self).two_le]
      exact followChain_of_storesChain hacc hcount hstores hheap (Nat.lt_succ_self _)
    -- the last cluster points nowhere
    have hlast : ∀ (xs : List UInt32) (e : UInt32), StoresChain fat g.variant (e :: xs) →
        ∃ l, (e :: xs).getLast? = some l ∧ link fat g.variant l = none := by
      intro xs
      induction xs with
      | nil =>
        rintro e ⟨v, hv, hend⟩
        exact ⟨e, rfl, if_pos (Or.inr (Or.inr (isEoc_of_marksEnd hv hend)))⟩
      | cons f xs ih =>
        rintro e ⟨-, hrest⟩
        obtain ⟨l, hl, hnone⟩ := ih f hrest
        exact ⟨l, by rw [List.getLast?_cons_cons, hl], hnone⟩
    obtain ⟨l, hl, hnone⟩ := hlast chain c hstores
    rw [← hwalk] at hl ⊢
    exact nodup_walk_of_getLast? hl hnone

/-- Distinct clusters of the heap are no more than it has. -/
lemma length_le_of_nodup {chain : List UInt32} (hnodup : chain.Nodup)
    (hheap : ∀ d ∈ chain, g.InHeap d) : chain.length ≤ g.countOfClusters := by
  obtain ⟨s, hcard, hs⟩ := FatFs.exists_heap g.countOfClusters
  rw [← List.toFinset_card_of_nodup hnodup]
  refine (Finset.card_le_card fun d hd => ?_).trans hcard
  have hd := hheap d (List.mem_toFinset.mp hd)
  exact (hs d hd.two_le).mpr hd.2

/-! ## Consecutive clusters -/

/-- Consecutive clusters of the heap are not cut by the width of their numbers. -/
lemma add_le_of_consecutive {first : UInt32} {n : ℕ}
    (hheap : ∀ d ∈ consecutive first n, g.InHeap d) : first.toNat + n ≤ 2 ^ 32 := by
  by_contra hlt
  -- the number behind the largest one is 0
  have hzero : (0 : UInt32) ∈ consecutive first n := by
    have hfirst := first.toNat_lt
    refine List.mem_map.mpr ⟨2 ^ 32, ?_, by decide⟩
    rw [List.mem_range'_1]
    omega
  exact absurd (hheap 0 hzero).two_le (by decide)

lemma le_of_consecutive {first : UInt32} {n : ℕ} (hheap : ∀ d ∈ consecutive first n, g.InHeap d)
    (hn : 0 < n) : 2 ≤ first ∧ n ≤ g.countOfClusters := by
  have hwidth := add_le_of_consecutive hheap
  have hmem : ∀ i < n, UInt32.ofNat (first.toNat + i) ∈ consecutive first n := by
    intro i hi
    exact List.mem_map_of_mem (List.mem_range'_1.mpr (by omega))
  have hnat : ∀ i < n, (UInt32.ofNat (first.toNat + i)).toNat = first.toNat + i :=
    fun i hi => UInt32.toNat_ofNat_of_lt' (show _ < 2 ^ 32 by omega)
  have hhead := (hheap _ (hmem 0 hn)).1
  have hlast := (hheap _ (hmem (n - 1) (by omega))).2
  rw [hnat 0 hn] at hhead
  rw [hnat _ (by omega)] at hlast
  exact ⟨UInt32.le_iff_toNat_le.mpr hhead, by omega⟩

end FatForensic
