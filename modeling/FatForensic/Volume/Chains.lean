import FatForensic.Lib.PointerWalk
import FatForensic.Volume.ReadAt

/-!
# The clusters of an extent

The data of a node is the fixed root region, a sequential run of clusters, or a FAT chain.
`clusterAt` gives the `i`-th cluster of each, for the pointers of the FAT as the walk of
`Lib.PointerWalk`.
-/

namespace FatForensic

open PointerWalk

/-! ## FAT pointers -/

/-- The cluster that the FAT entry of `cluster` points to, if it points to one. -/
def link (fat : List UInt8) (variant : FatVariant) (cluster : UInt32) : Option UInt32 :=
  let next := fatEntry fat variant cluster
  if next < 2 ∨ isBad variant next ∨ isEoc variant next then none else some next

lemma two_le_of_link {fat : List UInt8} {variant : FatVariant} {c d : UInt32}
    (h : link fat variant c = some d) : 2 ≤ d := by
  simp only [link] at h
  split at h
  · exact absurd h (by simp)
  next hnot =>
    rw [Option.some.injEq] at h
    subst h
    exact UInt32.not_lt.mp fun hlt => hnot (Or.inl hlt)

/-- `follow_chain` is the capped walk along the FAT pointers. -/
lemma followChain_eq_walk (fat : List UInt8) (variant : FatVariant) {start : UInt32}
    (h : 2 ≤ start) (maxClusters : ℕ) :
    followChain fat variant start maxClusters = walk (link fat variant) maxClusters start := by
  rw [followChain]
  induction maxClusters generalizing start with
  | zero => rfl
  | succ k ih =>
    rw [followChainFrom, walk, if_neg (UInt32.not_lt.mpr h)]
    dsimp only
    split
    next hstop =>
      have hnone : link fat variant start = none := if_pos hstop
      rw [hnone]
    next hgo =>
      have hsome : link fat variant start = some (fatEntry fat variant start) := if_neg hgo
      rw [hsome, ih (two_le_of_link hsome)]

/-- Every cluster reached from a usable one is usable. -/
lemma two_le_of_reaches {fat : List UInt8} {variant : FatVariant} {first c : UInt32}
    (h : StateTransition.Reaches (link fat variant) first c) (hfirst : 2 ≤ first) : 2 ≤ c := by
  cases h with
  | refl => exact hfirst
  | tail _ hlink => exact two_le_of_link hlink

namespace FatFs

variable (fs : FatFs)

/-! ## Where data is stored -/

/-- Where the data of `id` is stored: the root directory, or the extent its entry names. -/
def dataSource : FileId → Result DirSource
  | .root => fs.dirSource .root
  | .entry dirCluster index => do
    let node ← fs.resolveEntry (.entry dirCluster index)
    .ok (.chain node.firstCluster node.size node.contiguous)

/-- The root and the ids of the nodes that listings return. -/
def Listed (id : FileId) : Prop :=
  id = .root ∨ ∃ dir nodes, fs.readDir dir = .ok nodes ∧ id ∈ nodes.map Node.id

/-- The cluster list and total byte length of a source. -/
def sourceExtent : DirSource → List UInt32 × ℕ
  | .fixedRoot => ([], fs.geom.rootDirBytes)
  | .chain firstCluster size contiguous => fs.extentOf firstCluster size contiguous

/-- The `i`-th cluster of a source, below the cap. -/
def clusterAt : DirSource → ℕ → Option UInt32
  | .fixedRoot, _ => none
  | .chain firstCluster size contiguous, i =>
    if firstCluster < 2 ∨ fs.maxClusters ≤ i then none
    else if contiguous ∧ size > 0 then
      if i * fs.geom.clusterSize < size.toNat ∧ firstCluster.toNat + i < 2 ^ 32 then
        some (UInt32.ofNat (firstCluster.toNat + i))
      else none
    else nth (link fs.fat fs.geom.variant) firstCluster i

variable {fs}

/-- `data_extent` finds the source and lists its clusters. -/
lemma dataExtent_ok {id : FileId} {e : List UInt32 × ℕ} :
    fs.dataExtent id = .ok e ↔
      ∃ source, fs.dataSource id = .ok source ∧ fs.sourceExtent source = e := by
  cases id with
  | root =>
    rw [dataExtent, bind_eq_ok, dataSource]
    refine exists_congr fun source => and_congr_right fun _ => ?_
    cases source <;> simp only [sourceExtent, Except.ok.injEq]
  | entry d i =>
    rw [dataExtent_entry_ok, dataSource]
    constructor
    · rintro ⟨n, hn, he⟩
      exact ⟨_, bind_eq_ok.mpr ⟨n, hn, rfl⟩, he⟩
    · rintro ⟨source, hsource, he⟩
      obtain ⟨n, hn, hok⟩ := bind_eq_ok.mp hsource
      rw [Except.ok.injEq] at hok
      subst hok
      exact ⟨n, hn, he⟩

/-! ## The cluster list -/

lemma size_pos {size : UInt64} : size > 0 ↔ 0 < size.toNat := UInt64.lt_iff_toNat_lt

lemma size_eq_zero {size : UInt64} : size = 0 ↔ size.toNat = 0 := by
  rw [← UInt64.toNat_inj, UInt64.toNat_zero]

/-- A contiguous run of clusters, cut by its size, by the cap and by 32 bits. -/
lemma clusters_contiguous {first : UInt32} (h2 : 2 ≤ first) {size : UInt64} (hsize : size > 0) :
    fs.clusters first size true =
      (List.range' first.toNat
        (min (min (divCeil size.toNat fs.geom.clusterSize) fs.maxClusters)
          (2 ^ 32 - first.toNat))).map UInt32.ofNat := by
  rw [clusters, if_neg (UInt32.not_lt.mpr h2), if_pos ⟨rfl, hsize⟩]
  dsimp only
  generalize min (divCeil size.toNat fs.geom.clusterSize) fs.maxClusters = n
  have hfirst := first.toNat_lt
  have hsplit : n = min n (2 ^ 32 - first.toNat) + (n - min n (2 ^ 32 - first.toNat)) := by omega
  conv_lhs => rw [hsplit, ← List.range'_append_1]
  rw [List.filterMap_append]
  have hkept : (List.range' first.toNat (min n (2 ^ 32 - first.toNat))).filterMap
      (fun c => if c < 2 ^ 32 then some (UInt32.ofNat c) else none)
      = (List.range' first.toNat (min n (2 ^ 32 - first.toNat))).map UInt32.ofNat := by
    rw [← List.filterMap_eq_map]
    refine List.filterMap_congr fun c hc => ?_
    rw [List.mem_range'_1] at hc
    rw [if_pos (by omega)]
    rfl
  have hcut : (List.range' (first.toNat + min n (2 ^ 32 - first.toNat))
      (n - min n (2 ^ 32 - first.toNat))).filterMap
        (fun c => if c < 2 ^ 32 then some (UInt32.ofNat c) else none) = [] := by
    rw [List.filterMap_eq_nil_iff]
    intro c hc
    rw [List.mem_range'_1] at hc
    rw [if_neg (by omega)]
  rw [hkept, hcut, List.append_nil]

/-- `extent_of` lists the clusters of its source in order. -/
lemma getElem?_sourceExtent (hcs : 0 < fs.geom.clusterSize) (source : DirSource) (i : ℕ) :
    (fs.sourceExtent source).1[i]? = fs.clusterAt source i := by
  cases source with
  | fixedRoot => rfl
  | chain first size contiguous =>
    rw [sourceExtent, extentOf, clusterAt]
    dsimp only
    by_cases h2 : first < 2
    · rw [if_pos (Or.inl h2), clusters, if_pos h2]
      rfl
    have h2' := UInt32.not_lt.mp h2
    by_cases hcont : contiguous = true ∧ size > 0
    · obtain ⟨rfl, hsize⟩ := hcont
      rw [clusters_contiguous h2' hsize, List.getElem?_map]
      have hiff := lt_divCeil_iff (a := size.toNat) (n := i) hcs
      by_cases hi : fs.maxClusters ≤ i
      · rw [if_pos (Or.inr hi), List.getElem?_eq_none (by rw [List.length_range']; omega)]
        rfl
      rw [if_neg (not_or.mpr ⟨h2, hi⟩), if_pos (And.intro rfl hsize)]
      by_cases hin : i * fs.geom.clusterSize < size.toNat ∧ first.toNat + i < 2 ^ 32
      · have hlt := hiff.mpr hin.1
        rw [if_pos hin, List.getElem?_range' (by omega), Nat.one_mul]
        rfl
      · rw [if_neg hin, List.getElem?_eq_none (by rw [List.length_range']; omega)]
        rfl
    · rw [clusters, if_neg h2, if_neg hcont, followChain_eq_walk _ _ h2', getElem?_walk]
      by_cases hi : fs.maxClusters ≤ i
      · rw [if_neg (by omega), if_pos (Or.inr hi)]
      · rw [if_pos (by omega), if_neg (not_or.mpr ⟨h2, hi⟩), if_neg hcont]

/-- An extent starts at its first cluster. -/
lemma getElem?_clusters_zero (hcs : 0 < fs.geom.clusterSize) (hmax : 0 < fs.maxClusters)
    {first : UInt32} (h2 : 2 ≤ first) (size : UInt64) (contiguous : Bool) :
    (fs.clusters first size contiguous)[0]? = some first := by
  have hlt : ¬ (first < 2 ∨ fs.maxClusters ≤ 0) :=
    not_or.mpr ⟨UInt32.not_lt.mpr h2, Nat.not_le.mpr hmax⟩
  have hget := getElem?_sourceExtent hcs (.chain first size contiguous) 0
  rw [sourceExtent, extentOf, clusterAt, if_neg hlt] at hget
  dsimp only at hget
  rw [hget]
  split
  next hcont =>
    have hsize : 0 < size.toNat := UInt64.lt_iff_toNat_lt.mp hcont.2
    have hfirst := first.toNat_lt
    rw [if_pos ⟨by omega, by omega⟩, Nat.add_zero, UInt32.ofNat_toNat]
  next => exact nth_zero

/-- An extent that starts at a usable cluster has clusters. -/
lemma clusters_ne_nil (hmax : 0 < fs.maxClusters) {first : UInt32} (h2 : ¬ first < 2)
    {size : UInt64} {contiguous : Bool} (hcs : 0 < fs.geom.clusterSize) :
    fs.clusters first size contiguous ≠ [] := by
  intro hnil
  have hfirst := getElem?_clusters_zero hcs hmax (UInt32.not_lt.mp h2) size contiguous
  rw [hnil] at hfirst
  exact absurd hfirst (by simp)

/-- The clusters of an extent that starts at a usable cluster are usable. -/
lemma two_le_of_clusterAt {source : DirSource} {i : ℕ} {c : UInt32}
    (h : fs.clusterAt source i = some c) : 2 ≤ c := by
  cases source with
  | fixedRoot => exact absurd h (by simp [clusterAt])
  | chain first size contiguous =>
    rw [clusterAt] at h
    split at h
    · exact absurd h (by simp)
    next hok =>
    have h2 := UInt32.not_lt.mp (not_or.mp hok).1
    split at h
    · split at h
      next hin =>
        rw [Option.some.injEq] at h
        subst h
        rw [UInt32.le_iff_toNat_le] at h2 ⊢
        rw [UInt32.toNat_ofNat_of_lt' hin.2]
        exact h2.trans (Nat.le_add_right _ _)
      · exact absurd h (by simp)
    · exact two_le_of_reaches (reaches_of_mem_walk (mem_walk.mpr ⟨i, i.lt_succ_self, h⟩)) h2

lemma mem_sourceExtent (hcs : 0 < fs.geom.clusterSize) {source : DirSource} {c : UInt32} :
    c ∈ (fs.sourceExtent source).1 ↔ ∃ i, fs.clusterAt source i = some c := by
  rw [List.mem_iff_getElem?]
  exact exists_congr fun i => by rw [getElem?_sourceExtent hcs]

lemma two_le_of_mem_sourceExtent (hcs : 0 < fs.geom.clusterSize) {source : DirSource}
    {c : UInt32} (hc : c ∈ (fs.sourceExtent source).1) : 2 ≤ c := by
  obtain ⟨i, hi⟩ := (mem_sourceExtent hcs).mp hc
  exact two_le_of_clusterAt hi

lemma two_le_of_mem_clusters (hcs : 0 < fs.geom.clusterSize) {first c : UInt32} {size : UInt64}
    {contiguous : Bool} (hc : c ∈ fs.clusters first size contiguous) : 2 ≤ c := by
  have hmem : c ∈ (fs.sourceExtent (.chain first size contiguous)).1 := hc
  exact two_le_of_mem_sourceExtent hcs hmem

end FatFs
end FatForensic
