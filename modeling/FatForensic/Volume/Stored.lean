import FatForensic.Directory.Format
import FatForensic.Lib.Hierarchy
import FatForensic.Volume.DotDot
import FatForensic.Volume.ExfatHandles
import FatForensic.Volume.StoredChain

/-!
# Hierarchies stored on a volume

A plan says which objects a volume holds, which records name them, and which clusters they take.
An image stores the plan when its FAT links the clusters and its clusters hold the contents.
The reader finds the objects of the plan, one from the other.
-/

namespace FatForensic

open Window Extent Hierarchy

/-! ## Plans -/

/-- The content of an object: the bytes of a file, or the records of a directory, each with the
object that it names, and what follows them. -/
inductive Content (ρ κ : Type) where
  | file (bytes : List UInt8)
  | dir (items : List (ρ × Option κ)) (tail : List UInt8)

/-- What a volume is to hold, over the objects `κ` and the directory records `ρ`. -/
structure Plan (ρ κ : Type) where
  root : κ
  content : κ → Content ρ κ
  /-- The clusters that an object takes. -/
  chain : κ → List UInt32
  /-- Whether the clusters are linked by nothing but their order (exFAT NoFatChain). -/
  contiguous : κ → Bool

/-- The bytes of a name. -/
def Node.nameBytes (n : Node) : List UInt8 := n.name.toUTF8.data.toList

/-- A node of `.` or `..`. -/
def Node.IsDot (n : Node) : Prop := n.name = "." ∨ n.name = ".."

instance (n : Node) : Decidable n.IsDot := inferInstanceAs (Decidable (_ ∨ _))

/-- The root directory lies in the cluster heap. -/
def Geometry.RootInHeap (g : Geometry) : Prop := g.variant = .fat32 ∨ g.variant = .exFat

instance (g : Geometry) : Decidable g.RootInHeap := inferInstanceAs (Decidable (_ ∨ _))

/-- The bytes of a cluster in an image. -/
def Geometry.clusterWindow (g : Geometry) (img : List UInt8) (c : UInt32) : List UInt8 :=
  slice img (g.dataStart + (c.toNat - 2) * g.clusterSize) g.clusterSize

namespace Plan

variable {ρ κ : Type} (P : Plan ρ κ) (F : DirFormat ρ)

/-- The bytes of the clusters of an object. -/
def extent (img : List UInt8) (g : Geometry) (k : κ) : List UInt8 :=
  (P.chain k).flatMap (g.clusterWindow img)

/-- The entries that the items of a directory stand for. -/
def entries (items : List (ρ × Option κ)) : List (List UInt8 × κ) :=
  items.filterMap fun x => x.2.bind fun j => (F.body x.1).map fun n => (n.nameBytes, j)

/-- The store that the plan stands for. -/
def store (k : κ) : Object κ (List UInt8) UInt8 :=
  match P.content k with
  | .file bytes => .file bytes
  | .dir items _ => .dir (entries F items)

/-- A node describes the object `k`: it is live, and has its kind, its size and its clusters. -/
structure Names (n : Node) (k : κ) : Prop where
  live : n.isDeleted = false
  not_label : n.isVolumeLabel = false
  not_dot : ¬ n.IsDot
  ne_root : k ≠ P.root
  firstCluster : n.firstCluster = (P.chain k).headD 0
  contiguous : n.contiguous = P.contiguous k
  kind : match P.content k with
    | .file bytes => n.isDir = false ∧ n.size.toNat = bytes.length
    | .dir _ _ => n.isDir = true

/-- The image stores the bytes of the directory `k`: in the fixed root region for the root of
FAT12/16, in the clusters of `k` for all others. -/
def HasDirBytes (img : List UInt8) (g : Geometry) (k : κ) (bytes : List UInt8) : Prop :=
  (k = P.root ∧ ¬ g.RootInHeap ∧ slice img g.rootDirStart g.rootDirBytes = bytes) ∨
    ((k = P.root → g.RootInHeap) ∧ P.extent img g k = bytes)

/-- **The image stores the plan** in directories of the format `F`. -/
structure StoredIn (img : List UInt8) (g : Geometry) : Prop where
  /-- The FAT can number the clusters. -/
  count_lt : g.countOfClusters < 0x0FFFFFF6
  heap : ∀ k, ∀ c ∈ P.chain k, g.InHeap c
  whole : ∀ k, ∀ c ∈ P.chain k,
    g.dataStart + (c.toNat - 2) * g.clusterSize + g.clusterSize ≤ img.length
  linked : ∀ k, P.contiguous k = false → StoresChain (cachedFat img g) g.variant (P.chain k)
  /-- A file takes no clusters without content; a contiguous one takes as many as it needs. -/
  file : ∀ k bytes, P.content k = .file bytes → bytes <+: P.extent img g k ∧
    (bytes = [] → P.chain k = []) ∧
    (P.contiguous k = true → P.chain k
      = consecutive ((P.chain k).headD 0) (divCeil bytes.length g.clusterSize))
  dir : ∀ k items tail, P.content k = .dir items tail → P.contiguous k = false ∧
    (F.slotsOf (items.map Prod.fst)).length ≤ 65536 ∧ Terminated tail ∧
    P.HasDirBytes img g k (F.encode (items.map Prod.fst) tail)
  /-- A record names an object, or it is deleted, a volume label or a dot entry. -/
  items : ∀ k items tail, P.content k = .dir items tail → ∀ r,
    (∀ j, (r, some j) ∈ items → ∃ n, F.body r = some n ∧ P.Names n j) ∧
    ((r, none) ∈ items → ∀ n, F.body r = some n →
      n.isDeleted = true ∨ n.isVolumeLabel = true ∨ n.IsDot)
  root_dir : ∃ items tail, P.content P.root = .dir items tail
  root_chain : g.RootInHeap → (P.chain P.root).head? = some g.rootCluster

/-! ## The clusters of an object -/

variable {P F} {img : List UInt8} {fs : FatFs} {n : Node} {k : κ}

lemma Names.at (h : P.Names n k) (marker : UInt32) (i : ℕ) : P.Names (n.at marker i) k := by
  obtain ⟨live, not_label, not_dot, ne_root, firstCluster, contiguous, kind⟩ := h
  exact ⟨live, not_label, not_dot, ne_root, firstCluster, contiguous, kind⟩

lemma accepts_of_openImage (hopen : FatFs.openImage img = .ok fs) :
    Accepts (img.take 512) fs.geom := by
  have hparsed := (FatFs.openImage_ok hopen).parsed
  split at hparsed
  · exact Or.inr hparsed
  · exact Or.inl hparsed

lemma maxClusters_eq (hopen : FatFs.openImage img = .ok fs) :
    fs.maxClusters = fs.geom.countOfClusters + 2 :=
  (FatFs.openImage_ok hopen).maxClusters

/-- A linked chain is what the reader follows from its head. -/
lemma StoredIn.clusters_linked (h : P.StoredIn F img fs.geom)
    (hopen : FatFs.openImage img = .ok fs) (hcont : P.contiguous k = false) (size : UInt64) :
    fs.clusters ((P.chain k).headD 0) size false = P.chain k := by
  have hstores := h.linked k hcont
  have hheap := h.heap k
  have hacc := accepts_of_openImage hopen
  cases hchain : P.chain k with
  | nil => rfl
  | cons c chain =>
    rw [hchain] at hstores hheap
    have hlen := length_le_of_nodup (nodup_of_storesChain hacc h.count_lt hstores hheap) hheap
    rw [List.length_cons] at hlen
    have hc := (hheap c List.mem_cons_self).two_le
    rw [List.headD_cons, FatFs.clusters_eq_followChain hc, fat_eq_cachedFat hopen]
    exact followChain_of_storesChain hacc h.count_lt hstores hheap
      (by rw [maxClusters_eq hopen]; omega)

/-- Consecutive clusters are what the reader counts off from the first one. -/
lemma StoredIn.clusters_contiguous (h : P.StoredIn F img fs.geom)
    (hopen : FatFs.openImage img = .ok fs) {bytes : List UInt8} (hfile : P.content k = .file bytes)
    (hcont : P.contiguous k = true) {size : UInt64} (hsize : size.toNat = bytes.length) :
    fs.clusters ((P.chain k).headD 0) size true = P.chain k := by
  obtain ⟨-, hempty, hcons⟩ := h.file k bytes hfile
  have hcons := hcons hcont
  rcases Nat.eq_zero_or_pos bytes.length with hzero | hpos
  · rw [hempty (List.eq_nil_of_length_eq_zero hzero)]
    rfl
  have hcs := (FatFs.openImage_valid hopen).clusterSize_pos
  have hheap := h.heap k
  rw [hcons] at hheap
  obtain ⟨h2, hle⟩ := le_of_consecutive hheap (divCeil_pos hcs hpos)
  have hwidth := add_le_of_consecutive hheap
  have hmax := maxClusters_eq hopen
  rw [FatFs.clusters_contiguous h2 (FatFs.size_pos.mpr (by omega)), hsize]
  conv_rhs => rw [hcons, consecutive]
  congr 2
  omega

/-- **The clusters of a node are those of its object.** -/
lemma StoredIn.clusters_eq (h : P.StoredIn F img fs.geom) (hopen : FatFs.openImage img = .ok fs)
    (hn : P.Names n k) : fs.clusters n.firstCluster n.size n.contiguous = P.chain k := by
  rw [hn.firstCluster, hn.contiguous]
  cases hcont : P.contiguous k with
  | false => exact h.clusters_linked hopen hcont n.size
  | true =>
    have hkind := hn.kind
    cases hcontent : P.content k with
    | file bytes =>
      rw [hcontent] at hkind
      exact h.clusters_contiguous hopen hcontent hcont hkind.2
    | dir items tail =>
      rw [(h.dir k items tail hcontent).1] at hcont
      exact absurd hcont (by decide)

/-! ## The bytes of an object -/

lemma clusterBytes_eq (hopen : FatFs.openImage img = .ok fs) {c : UInt32} (hc : 2 ≤ c) :
    fs.clusterBytes c = fs.geom.clusterWindow img c := by
  rw [FatFs.clusterBytes, (FatFs.openImage_valid hopen).clusterOffset_eq hc,
    (FatFs.openImage_ok hopen).image]
  rfl

/-- Every cluster of a plan is held whole. -/
lemma StoredIn.length_window (h : P.StoredIn F img fs.geom) {c : UInt32} (hc : c ∈ P.chain k) :
    (fs.geom.clusterWindow img c).length = fs.geom.clusterSize := by
  have := h.whole k c hc
  rw [Geometry.clusterWindow, length_slice]
  omega

/-- A byte of the clusters of an object is found at its position. -/
lemma StoredIn.byteAt_eq (h : P.StoredIn F img fs.geom) (hopen : FatFs.openImage img = .ok fs)
    (p : ℕ) : fs.byteAt (P.chain k) p = (P.extent img fs.geom k)[p]? := by
  have hcs := (FatFs.openImage_valid hopen).clusterSize_pos
  have hheap := h.heap k
  have hlen := fun c (hc : c ∈ P.chain k) => h.length_window hc
  rw [extent]
  generalize P.chain k = chain at hheap hlen
  induction chain generalizing p with
  | nil => simp [FatFs.byteAt, FatFs.position]
  | cons c chain ih =>
    have hwindow := hlen c List.mem_cons_self
    rw [List.flatMap_cons]
    by_cases hp : p < fs.geom.clusterSize
    · have hget : (c :: chain)[p / fs.geom.clusterSize]? = some c := by
        rw [Nat.div_eq_of_lt hp, List.getElem?_cons_zero]
      rw [FatFs.byteAt_eq hget ((FatFs.openImage_valid hopen).clusterOffset_eq
        (hheap c List.mem_cons_self).two_le), Nat.mod_eq_of_lt hp,
        List.getElem?_append_left (by omega), Geometry.clusterWindow, getElem?_slice_of_lt hp,
        (FatFs.openImage_ok hopen).image]
    · obtain ⟨q, rfl⟩ : ∃ q, p = fs.geom.clusterSize + q := ⟨p - fs.geom.clusterSize, by omega⟩
      have hdiv : (fs.geom.clusterSize + q) / fs.geom.clusterSize
          = q / fs.geom.clusterSize + 1 := by
        rw [Nat.add_comm, Nat.add_div_right _ hcs]
      have hshift : fs.byteAt (c :: chain) (fs.geom.clusterSize + q) = fs.byteAt chain q := by
        rw [FatFs.byteAt, FatFs.byteAt, FatFs.position, FatFs.position, hdiv,
          List.getElem?_cons_succ, Nat.add_mod_left]
      rw [hshift, ih _ (fun d hd => hheap d (List.mem_cons_of_mem _ hd))
        (fun d hd => hlen d (List.mem_cons_of_mem _ hd)), List.getElem?_append_right (by omega),
        hwindow, Nat.add_sub_cancel_left]

end Plan
end FatForensic
