import FatForensic.Volume.Adapter
import FatForensic.Volume.MirrorBlind

/-!
# What a volume is read from

Of an image the reader looks at the boot sector, the cached part of the first FAT, the fixed root
region, and the clusters of the nodes that navigation leads to.  Nothing else has a say in any
answer: neither unallocated clusters nor the space between the regions.
-/

namespace FatForensic
namespace FatFs

open Window

/-- The clusters that the data of a handle lies in, and those that its entry is read from. -/
def touched (fs : FatFs) (id : FileId) : Set UInt32 :=
  {c | (∃ source, fs.dataSource id = .ok source ∧ c ∈ (fs.sourceExtent source).1) ∨
    ∃ d i, id = .entry d i ∧ c ∈ (fs.sourceExtent (parentSource d)).1}

/-- The offsets that a caller who navigates from the root can make the reader look at. -/
def footprint (fs : FatFs) : Set ℕ :=
  {o | o < 512 ∨
    o ∈ Set.Ico fs.geom.fatStart (fs.geom.fatStart
      + min (fs.geom.fatSizeSectors * fs.geom.bytesPerSector) MAX_FAT_BYTES) ∨
    o ∈ Set.Ico fs.geom.rootDirStart (fs.geom.rootDirStart + fs.geom.rootDirBytes) ∨
    ∃ id, fs.Navigated id ∧ ∃ c ∈ fs.touched id, ∃ base, fs.geom.clusterOffset c = some base ∧
      o ∈ Set.Ico base (base + fs.geom.clusterSize)}

/-- Another image has the cluster as it is. -/
def SameCluster (fs : FatFs) (img' : List UInt8) (c : UInt32) : Prop :=
  ∀ base, fs.geom.clusterOffset c = some base →
    slice img' base fs.geom.clusterSize = slice fs.image base fs.geom.clusterSize

/-- Another image has the fixed root region, and the clusters of all nodes, as they are. -/
structure SameFootprint (fs : FatFs) (img' : List UInt8) : Prop where
  rootDir : slice img' fs.geom.rootDirStart fs.geom.rootDirBytes
    = slice fs.image fs.geom.rootDirStart fs.geom.rootDirBytes
  cluster : ∀ id, fs.Navigated id → ∀ c ∈ fs.touched id, fs.SameCluster img' c

variable {fs : FatFs} {img img' : List UInt8} {id : FileId}

/-- Images that agree on a window. -/
lemma slice_eq_of_forall {lo len : ℕ} (h : ∀ o ∈ Set.Ico lo (lo + len), img'[o]? = img[o]?) :
    slice img' lo len = slice img lo len := by
  apply List.ext_getElem?
  intro k
  rw [getElem?_slice, getElem?_slice]
  by_cases hk : k < len
  · rw [if_pos hk, if_pos hk, h _ ⟨by omega, by omega⟩]
  · rw [if_neg hk, if_neg hk]

/-! ## Opening -/

/-- An image with the same boot sector and the same cached FAT opens to the same reader. -/
lemma openImage_withImage (hopen : openImage img = .ok fs)
    (hagree : ∀ o ∈ fs.footprint, img'[o]? = img[o]?) :
    openImage img' = .ok (fs.withImage img') := by
  have hopened := openImage_ok hopen
  have hlen : 512 ≤ img'.length := by
    have hlast : 511 < img.length := hopened.le_length
    have hget := hagree 511 (Or.inl (by omega))
    rw [List.getElem?_eq_getElem hlast] at hget
    exact (List.getElem?_eq_some_iff.mp hget).1
  have hboot : img'.take 512 = img.take 512 := by
    have hslice : slice img' 0 512 = slice img 0 512 :=
      slice_eq_of_forall fun o ho => hagree o (Or.inl (by have := ho.2; omega))
    simpa [slice] using hslice
  have hcache : slice img' fs.geom.fatStart
      (min (fs.geom.fatSizeSectors * fs.geom.bytesPerSector) MAX_FAT_BYTES) = fs.fat := by
    rw [hopened.fat]
    exact slice_eq_of_forall fun o ho => hagree o (Or.inr (Or.inl ho))
  have hparsed := hopened.parsed
  rw [← slice_take img (by norm_num : 3 + 8 ≤ 512)] at hparsed
  rw [openImage, readExact_boot hlen]
  simp only [bind, Except.bind, hboot, hparsed]
  rw [readUpto_eq, hcache, ← hopened.maxClusters]
  rfl

lemma sameFootprint_of_agree (hopen : openImage img = .ok fs)
    (hagree : ∀ o ∈ fs.footprint, img'[o]? = img[o]?) : fs.SameFootprint img' := by
  rw [← (openImage_ok hopen).image] at hagree
  exact ⟨slice_eq_of_forall fun o ho => hagree o (Or.inr (Or.inr (Or.inl ho))),
    fun id hnav c hc base hbase => slice_eq_of_forall fun o ho =>
      hagree o (Or.inr (Or.inr (Or.inr ⟨id, hnav, c, hc, base, hbase, ho⟩)))⟩

/-! ## One operation -/

lemma readClusters_withImage {cs : List UInt32} (h : ∀ c ∈ cs, fs.SameCluster img' c)
    (out : List UInt8) : (fs.withImage img').readClusters cs out = fs.readClusters cs out := by
  induction cs generalizing out with
  | nil => rfl
  | cons c cs ih =>
    rw [FatFs.readClusters, FatFs.readClusters]
    split
    · rfl
    have hgeom : (fs.withImage img').geom = fs.geom := rfl
    rw [hgeom]
    cases hbase : fs.geom.clusterOffset c with
    | none => rfl
    | some base =>
      dsimp only
      have hread : slice (fs.withImage img').image base fs.geom.clusterSize
          = slice fs.image base fs.geom.clusterSize := h c List.mem_cons_self base hbase
      rw [readRegionVec_eq, readRegionVec_eq, hread]
      exact ih (fun d hd => h d (List.mem_cons_of_mem _ hd)) _

lemma byteAt_withImage (hcs : 0 < fs.geom.clusterSize) {chain : List UInt32}
    (h : ∀ c ∈ chain, fs.SameCluster img' c) :
    (fs.withImage img').byteAt chain = fs.byteAt chain := by
  funext p
  have hposition : (fs.withImage img').position chain p = fs.position chain p := rfl
  rw [FatFs.byteAt, FatFs.byteAt, hposition]
  cases hp : fs.position chain p with
  | none => rfl
  | some o =>
    rw [position, Option.bind_eq_some_iff] at hp
    obtain ⟨c, hc, ho⟩ := hp
    obtain ⟨base, hbase, rfl⟩ := Option.map_eq_some_iff.mp ho
    have hread := h c (List.mem_of_getElem? hc) base hbase
    have hget := congrArg (fun bytes => bytes[p % fs.geom.clusterSize]?) hread
    rw [getElem?_slice_of_lt (Nat.mod_lt p hcs), getElem?_slice_of_lt (Nat.mod_lt p hcs)] at hget
    exact hget

section Operations

variable (h : fs.SameFootprint img')
include h

lemma SameFootprint.readDirBytes (source : DirSource)
    (hsource : ∀ c ∈ (fs.sourceExtent source).1, fs.SameCluster img' c) :
    (fs.withImage img').readDirBytes source = fs.readDirBytes source := by
  cases source with
  | fixedRoot =>
    rw [FatFs.readDirBytes, FatFs.readDirBytes, readRegionVec_eq, readRegionVec_eq]
    exact h.rootDir
  | chain first size contiguous => exact readClusters_withImage hsource _

variable (hnav : fs.Navigated id)
include hnav

lemma SameFootprint.nodeMeta : (fs.withImage img').nodeMeta id = fs.nodeMeta id := by
  cases id with
  | root => rfl
  | entry d i =>
    have hbytes := h.readDirBytes (parentSource d) fun c hc =>
      h.cluster _ hnav c (Or.inr ⟨d, i, rfl, hc⟩)
    rw [FatFs.nodeMeta, FatFs.nodeMeta, FatFs.resolveEntry, FatFs.resolveEntry, hbytes]
    rfl

lemma SameFootprint.dataSource : (fs.withImage img').dataSource id = fs.dataSource id := by
  cases id with
  | root => rfl
  | entry d i =>
    have hmeta : (fs.withImage img').resolveEntry (.entry d i) = fs.resolveEntry (.entry d i) :=
      h.nodeMeta hnav
    rw [FatFs.dataSource, FatFs.dataSource, hmeta]

lemma SameFootprint.dirSource : (fs.withImage img').dirSource id = fs.dirSource id := by
  cases id with
  | root => rfl
  | entry d i =>
    have hmeta : (fs.withImage img').resolveEntry (.entry d i) = fs.resolveEntry (.entry d i) :=
      h.nodeMeta hnav
    rw [FatFs.dirSource, FatFs.dirSource, hmeta]

omit h hnav in
/-- A directory is listed from where its data lies. -/
lemma dataSource_of_dirSource {source : DirSource} (hsource : fs.dirSource id = .ok source) :
    fs.dataSource id = .ok source := by
  cases id with
  | root => exact hsource
  | entry d i =>
    obtain ⟨n, hn, -, rfl⟩ := dirSource_entry_ok.mp hsource
    exact bind_eq_ok.mpr ⟨n, hn, rfl⟩

lemma SameFootprint.readDir : (fs.withImage img').readDir id = fs.readDir id := by
  rw [FatFs.readDir, FatFs.readDir, h.dirSource hnav]
  cases hsource : fs.dirSource id with
  | error e => rfl
  | ok source =>
    have hbytes := h.readDirBytes source fun c hc =>
      h.cluster _ hnav c (Or.inl ⟨source, dataSource_of_dirSource hsource, hc⟩)
    simp only [bind, Except.bind, hbytes]
    rfl

lemma SameFootprint.dataExtent : (fs.withImage img').dataExtent id = fs.dataExtent id := by
  cases id with
  | root => rfl
  | entry d i =>
    have hmeta : (fs.withImage img').resolveEntry (.entry d i) = fs.resolveEntry (.entry d i) :=
      h.nodeMeta hnav
    rw [FatFs.dataExtent, FatFs.dataExtent, hmeta]
    rfl

lemma SameFootprint.runs : (fs.withImage img').runs id = fs.runs id := by
  rw [FatFs.runs, FatFs.runs, h.dataExtent hnav]
  simp only [runsFrom_congr (show (fs.withImage img').geom = fs.geom from rfl)]
  rfl

lemma SameFootprint.readAt (hopen : openImage img = .ok fs)
    (hopen' : openImage img' = .ok (fs.withImage img')) (off : ℕ) (buf : List UInt8) :
    (fs.withImage img').readAt id off buf = fs.readAt id off buf := by
  cases hextent : fs.dataExtent id with
  | error e =>
    have hextent' := (h.dataExtent hnav).trans hextent
    rw [FatFs.readAt, FatFs.readAt, hextent, hextent']
    rfl
  | ok extent =>
    obtain ⟨chain, total⟩ := extent
    have hextent' := (h.dataExtent hnav).trans hextent
    obtain ⟨source, hsource, hchain⟩ := dataExtent_ok.mp hextent
    have hbytes : (fs.withImage img').byteAt chain = fs.byteAt chain :=
      byteAt_withImage (openImage_valid hopen).clusterSize_pos fun c hc =>
        h.cluster _ hnav c (Or.inl ⟨source, hsource, by rw [hchain]; exact hc⟩)
    rw [readAt_eq_run hopen hextent, readAt_eq_run hopen' hextent', hbytes]

end Operations

end FatFs

/-! ## Sessions -/

namespace Vfs

open FatFs

variable {Other Stream : Type} (debug : Other → String) (debugStream : Stream → String)
  {fs : FatFs} {img img' : List UInt8}

/-- One call on a node that navigation leads to. -/
lemma readerAnswer_withImage (h : fs.SameFootprint img') (hopen : openImage img = .ok fs)
    (hopen' : openImage img' = .ok (fs.withImage img')) {id : FileId} (hnav : fs.Navigated id)
    (call : Call Stream) :
    readerAnswer debugStream (fs.withImage img') id call = readerAnswer debugStream fs id call := by
  cases call with
  | readDir => rw [readerAnswer, readerAnswer, h.readDir hnav]
  | lookup name => rw [readerAnswer, readerAnswer, FatFs.lookup, FatFs.lookup, h.readDir hnav]
  | nodeMeta => rw [readerAnswer, readerAnswer, h.nodeMeta hnav]
  | extents stream =>
    cases stream with
    | default => rw [readerAnswer, readerAnswer, h.runs hnav]
    | other s => rfl
  | readAt stream off buf =>
    cases stream with
    | default => rw [readerAnswer, readerAnswer, h.readAt hnav hopen hopen']
    | other s => rfl
  | readLink cap => rfl

/-- A caller who knows such nodes learns of no others. -/
lemma session_withImage (h : fs.SameFootprint img') (hopen : openImage img = .ok fs)
    (hopen' : openImage img' = .ok (fs.withImage img')) {known : List FileId}
    (hknown : ∀ id ∈ known, fs.Navigated id) (calls : List (ℕ × Call Stream)) :
    session (readerAnswer debugStream (fs.withImage img')) known calls
      = session (readerAnswer debugStream fs) known calls := by
  induction calls generalizing known with
  | nil => rfl
  | cons c calls ih =>
    obtain ⟨i, call⟩ := c
    rw [session, session]
    cases hi : known[i]? with
    | none => exact ih hknown
    | some id =>
      have hnav := hknown id (List.mem_of_getElem? hi)
      have hgiven : ∀ j ∈ known ++ (readerAnswer debugStream fs id call).ids, fs.Navigated j :=
        fun j hj =>
          (List.mem_append.mp hj).elim (hknown j) (navigated_of_mem_ids debugStream hnav)
      dsimp only
      rw [readerAnswer_withImage debugStream h hopen hopen' hnav, ih hgiven]

/-- **Nothing else has a say.**  Of an image that agrees with one that opens on what the reader can
be made to look at, the adapter gives the same answers in every session from the root. -/
theorem session_footprint (hopen : openImage img = .ok fs)
    (hagree : ∀ o ∈ fs.footprint, img'[o]? = img[o]?) :
    ∃ fs', openImage img' = .ok fs' ∧ fs'.geom = fs.geom ∧
      ∀ calls : List (ℕ × Call Stream), session (answer debug debugStream fs') [root] calls
        = session (answer debug debugStream fs) [root] calls := by
  have hopen' := openImage_withImage hopen hagree
  have h := sameFootprint_of_agree hopen hagree
  refine ⟨_, hopen', rfl, fun calls => ?_⟩
  have hroot : ∀ fs : FatFs, ∀ id ∈ [FatFs.root], fs.Navigated id := by
    intro fs id hid
    rw [List.mem_singleton.mp hid]
    exact .root
  have hmap : [root] = [FatFs.root].map (toVfsId : FileId → VfsId Other) := rfl
  rw [hmap, session_map debug debugStream (hroot _), session_map debug debugStream (hroot _),
    session_withImage debugStream h hopen hopen' (hroot fs)]

/-- Where the file of `twoClusterFile` and its root lie. -/
lemma storage_twoClusterFile :
    twoClusterFile.reader.geom.fatStart = 512 ∧
      twoClusterFile.reader.geom.fatSizeSectors * twoClusterFile.reader.geom.bytesPerSector = 512 ∧
      twoClusterFile.reader.geom.rootDirBytes = 0 ∧
      twoClusterFile.reader.geom.clusterSize = 512 ∧
      twoClusterFile.reader.geom.dataStart = 1024 ∧
      (twoClusterFile.listing .root).map Node.id = [.entry 2 0] ∧
      (twoClusterFile.reader.readDir (.entry 2 0)).toOption = none ∧
      (twoClusterFile.reader.dataExtent .root).toOption = some ([2], 512) ∧
      (twoClusterFile.reader.dataExtent (.entry 2 0)).toOption = some ([4, 5], 521) ∧
      (twoClusterFile.reader.sourceExtent (parentSource 2)).1 = [2] := by
  decide +kernel

lemma navigated_twoClusterFile {id : FileId} (h : twoClusterFile.reader.Navigated id) :
    id = .root ∨ id = .entry 2 0 := by
  obtain ⟨-, -, -, -, -, hlisting, hfile, -⟩ := storage_twoClusterFile
  induction h with
  | root => exact Or.inl rfl
  | @step d nodes n _ hread hn ih =>
    rcases ih with rfl | rfl
    · have hnodes : twoClusterFile.listing .root = nodes := by
        rw [Synth.Volume.listing, hread]
        rfl
      rw [hnodes] at hlisting
      have hid := List.mem_map_of_mem (f := Node.id) hn
      rw [hlisting, List.mem_singleton] at hid
      exact Or.inr hid
    · rw [hread] at hfile
      exact absurd hfile (by simp [Except.toOption])

lemma touched_twoClusterFile {id : FileId} (h : twoClusterFile.reader.Navigated id) {c : UInt32}
    (hc : c ∈ twoClusterFile.reader.touched id) : c ∈ [(2 : UInt32), 4, 5] := by
  obtain ⟨-, -, -, -, -, -, -, hroot, hfile, hparent⟩ := storage_twoClusterFile
  have hdata : ∀ source, twoClusterFile.reader.dataSource id = .ok source →
      (twoClusterFile.reader.dataExtent id).toOption
        = some (twoClusterFile.reader.sourceExtent source) := by
    intro source hsource
    rw [dataExtent_ok.mpr ⟨source, hsource, rfl⟩]
    rfl
  rcases navigated_twoClusterFile h with rfl | rfl
  · rcases hc with ⟨source, hsource, hc⟩ | ⟨d, i, hid, -⟩
    · rw [← Option.some.inj (hroot.symm.trans (hdata source hsource))] at hc
      exact List.mem_of_mem_take (i := 1) hc
    · exact absurd hid (by simp)
  · rcases hc with ⟨source, hsource, hc⟩ | ⟨d, i, hid, hc⟩
    · rw [← Option.some.inj (hfile.symm.trans (hdata source hsource))] at hc
      exact List.mem_cons_of_mem _ hc
    · obtain ⟨rfl, -⟩ := FileId.entry.inj hid
      rw [hparent] at hc
      exact List.mem_of_mem_take (i := 1) hc

/-- A byte of the unallocated cluster 3 has no say. -/
theorem session_footprint_twoClusterFile :
    ∃ fs', openImage (twoClusterFile.image.set 1600 1) = .ok fs' ∧
      fs'.geom = twoClusterFile.reader.geom ∧
      ∀ calls : List (ℕ × Call Empty),
        session (answer (fun _ : Empty => "") (fun _ => "") fs') [root] calls
          = session (answer (fun _ : Empty => "") (fun _ => "") twoClusterFile.reader) [root]
            calls := by
  obtain ⟨hfat, hsize, hrootdir, hcs, hdata, -⟩ := storage_twoClusterFile
  refine session_footprint _ _ twoClusterFile.openImage_image fun o ho => List.getElem?_set_ne ?_
  rintro rfl
  rw [footprint, hfat, hsize, hrootdir] at ho
  rcases ho with hlt | hlt | hlt | ⟨id, hnav, c, hc, base, hbase, ho⟩
  · omega
  · exact absurd hlt.2 (by omega)
  · exact absurd hlt.2 (by have := hlt.1; omega)
  · have hvalid := openImage_valid twoClusterFile.openImage_image
    have hmem := touched_twoClusterFile hnav hc
    simp only [List.mem_cons, List.not_mem_nil, or_false] at hmem
    rw [hcs] at ho
    rcases hmem with rfl | rfl | rfl
    all_goals
      rw [hvalid.clusterOffset_eq (by decide), hdata, hcs, Option.some.injEq] at hbase
      subst hbase
      simp at ho

end Vfs
end FatForensic
