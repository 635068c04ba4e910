import FatForensic.Directory.FatEntries
import FatForensic.Directory.Offsets
import FatForensic.Volume.Addresses
import FatForensic.Volume.Handles
import FatForensic.Volume.MirrorBlind
import FatForensic.Volume.Synth

/-!
# The high cluster word

Bytes 20 and 21 of a short entry are the high word of its first cluster on FAT32; FAT12 and FAT16
have another use for them.  The decoder is not told the variant, and takes them for the high word
always.  So two volumes that differ there only are told apart by a listing, and an entry that
differs there has other runs.
-/

namespace FatForensic

open Extent Window

/-- There is a first FAT. -/
lemma Geometry.mirrorStart_le_mirrorEnd {boot : List UInt8} {g : Geometry}
    (h : Geometry.parse boot = .ok g) : g.mirrorStart ≤ g.mirrorEnd := by
  obtain ⟨f, hf⟩ := Geometry.parse_ok h
  have hpos := hf.checked.numFats_pos
  rw [← hf.numFats] at hpos
  rw [mirrorStart, mirrorEnd, Nat.mul_assoc]
  exact Nat.add_le_add_left (Nat.le_mul_of_pos_left _ hpos) _

namespace Dirent

/-! ## One slot -/

/-- The field of the high word. -/
def highWord (slot : List UInt8) : UInt16 := leU16 slot 20

/-- The field of the low word. -/
def lowWord (slot : List UInt8) : UInt16 := leU16 slot 26

/-- The first cluster of an entry tells its high word. -/
lemma words_inj {hi lo hi' lo' : UInt16}
    (h : (hi.toUInt32 <<< 16) ||| lo.toUInt32 = (hi'.toUInt32 <<< 16) ||| lo'.toUInt32) :
    hi = hi' := by
  have hnat := congrArg UInt32.toNat h
  rw [toNat_words, toNat_words] at hnat
  have hlo := lo.toNat_lt
  have hlo' := lo'.toNat_lt
  rw [← UInt16.toNat_inj]
  omega

lemma firstCluster_slotEntry (slots : List (List UInt8)) (p : List UInt8 × ℕ) :
    (slotEntry slots p).firstCluster
      = ((highWord p.1).toUInt32 <<< 16) ||| (lowWord p.1).toUInt32 := by
  by_cases hdel : u8At p.1 0 = DELETED <;> simp [slotEntry, decodeShort, hdel, highWord, lowWord]

/-! ## The slots of a directory -/

/-- Whether byte `p` of a directory lies where a short entry has its high word. -/
def IsHighByte (p : ℕ) : Prop := 20 ≤ p % 32 ∧ p % 32 < 22

/-- Two slots that the scan treats alike. -/
structure SameShape (s s' : List UInt8) : Prop where
  first : u8At s' 0 = u8At s 0
  attr : u8At s' 11 = u8At s 11

/-- Slots that the scan treats alike are entries at the same positions. -/
lemma forall₂_entrySlots {slots slots' : List (List UInt8)}
    (h : List.Forall₂ SameShape slots slots') (idx : ℕ) :
    List.Forall₂ (fun p p' => p'.2 = p.2) (entrySlots slots idx) (entrySlots slots' idx) := by
  induction h generalizing idx with
  | nil => exact List.Forall₂.nil
  | cons hslot _ ih =>
    rw [entrySlots_cons, entrySlots_cons, hslot.first, hslot.attr]
    split
    · exact List.Forall₂.nil
    split
    · exact ih _
    · exact List.Forall₂.cons rfl (ih _)

/-- When the entries of two directories of one shape have the same first clusters, the slots of
the entries have the same high words. -/
lemma highWord_eq_of_firstClusters {data data' : List UInt8}
    (hshape : List.Forall₂ SameShape (chunksExact 32 data) (chunksExact 32 data'))
    (h : (parseDirectory data').map DirEntry.firstCluster
      = (parseDirectory data).map DirEntry.firstCluster) {i : ℕ}
    (hi : i ∈ (entrySlots (chunksExact 32 data) 0).map Prod.snd) {s s' : List UInt8}
    (hs : (chunksExact 32 data)[i]? = some s) (hs' : (chunksExact 32 data')[i]? = some s') :
    highWord s' = highWord s := by
  obtain ⟨p, hp, rfl⟩ := List.mem_map.mp hi
  obtain ⟨k, hk⟩ := List.mem_iff_getElem?.mp hp
  have hall := forall₂_entrySlots hshape 0
  obtain ⟨hlt, -⟩ := List.getElem?_eq_some_iff.mp hk
  obtain ⟨p', hk'⟩ : ∃ p', (entrySlots (chunksExact 32 data') 0)[k]? = some p' :=
    ⟨_, List.getElem?_eq_getElem (hall.length_eq ▸ hlt)⟩
  -- both entries are the `k`-th ones, at one position
  have hsnd : p'.2 = p.2 := by
    have hget := (List.forall₂_iff_get.mp hall).2 k hlt (hall.length_eq ▸ hlt)
    rw [List.getElem?_eq_getElem hlt, Option.some.injEq] at hk
    rw [List.getElem?_eq_getElem (hall.length_eq ▸ hlt), Option.some.injEq] at hk'
    simpa [← hk, ← hk'] using hget
  have hslot : p.1 = s := by
    have hget := getElem?_of_mem_entrySlots hp
    rw [Nat.sub_zero, hs, Option.some.injEq] at hget
    exact hget.symm
  have hslot' : p'.1 = s' := by
    have hget := getElem?_of_mem_entrySlots (List.mem_of_getElem? hk')
    rw [Nat.sub_zero, hsnd, hs', Option.some.injEq] at hget
    exact hget.symm
  have hfirst := congrArg (fun l => l[k]?) h
  simp only [parseDirectory_eq, List.map_map, List.getElem?_map, hk, hk', Option.map_some,
    Function.comp_apply, firstCluster_slotEntry, Option.some.injEq, hslot, hslot'] at hfirst
  exact words_inj hfirst

section Differ

variable {data data' : List UInt8} (hlen : data'.length = data.length)
  (h : ∀ p, data'[p]? ≠ data[p]? → IsHighByte p)

include hlen h

/-- Directories that differ in high words only have one shape. -/
lemma forall₂_sameShape :
    List.Forall₂ SameShape (chunksExact 32 data) (chunksExact 32 data') := by
  rw [chunksExact_eq_map, chunksExact_eq_map, hlen, List.forall₂_map_left_iff,
    List.forall₂_map_right_iff, List.forall₂_same]
  intro i _
  have hbyte : ∀ k < 32, ¬ IsHighByte (32 * i + k) →
      u8At (slice data' (32 * i) 32) k = u8At (slice data (32 * i) 32) k := by
    intro k hk hnot
    rw [u8At, u8At, getElem?_slice_of_lt hk, getElem?_slice_of_lt hk,
      not_not.mp fun hne => hnot (h _ hne)]
  exact ⟨hbyte 0 (by norm_num) (by rw [IsHighByte]; omega),
    hbyte 11 (by norm_num) (by rw [IsHighByte]; omega)⟩

/-- **A high word shows in the first cluster.**  Directories that differ in high words only, and
whose entries have the same first clusters, have the same bytes in the slots of the entries. -/
lemma getElem?_eq_of_firstClusters
    (hfirst : (parseDirectory data').map DirEntry.firstCluster
      = (parseDirectory data).map DirEntry.firstCluster) {p : ℕ}
    (hp : p / 32 ∈ (entrySlots (chunksExact 32 data) 0).map Prod.snd) :
    data'[p]? = data[p]? := by
  by_contra hne
  obtain ⟨hle, hlt⟩ := h p hne
  obtain ⟨q, hq, hqp⟩ := List.mem_map.mp hp
  have hslot := getElem?_of_mem_entrySlots hq
  rw [Nat.sub_zero, hqp, getElem?_chunksExact] at hslot
  split at hslot
  swap
  · exact absurd hslot (by simp)
  next hin =>
  have hs : (chunksExact 32 data)[p / 32]? = some (slice data (32 * (p / 32)) 32) := by
    rw [getElem?_chunksExact, if_pos hin]
  have hs' : (chunksExact 32 data')[p / 32]? = some (slice data' (32 * (p / 32)) 32) := by
    rw [getElem?_chunksExact, hlen, if_pos hin]
  have hword := highWord_eq_of_firstClusters (forall₂_sameShape hlen h) hfirst hp hs hs'
  -- the word of the slot has the byte in it
  have hwindow := slice_eq_of_leU16_eq (by rw [length_slice]; omega)
    (by rw [length_slice]; omega) hword
  have hbyte := congrArg (fun w => w[p % 32 - 20]?) hwindow
  have hk : p % 32 - 20 < 2 := by omega
  have hoff : 32 * (p / 32) + (20 + (p % 32 - 20)) = p := by omega
  simp only [getElem?_slice_of_lt hk] at hbyte
  rw [getElem?_slice_of_lt (by omega), getElem?_slice_of_lt (by omega), hoff] at hbyte
  exact hne hbyte

end Differ

end Dirent

namespace FatFs

variable {fs fs' : FatFs}

/-! ## Two volumes -/

/-- The handle `d`, got from the root by listings, is a directory with its byte `p` stored at the
offset `o` of the image. -/
structure Stores (fs : FatFs) (d : FileId) (source : DirSource) (p o : ℕ) : Prop where
  navigated : fs.Navigated d
  dirSource : fs.dirSource d = .ok source
  offset : (fs.dirOffsets source)[p]? = some o

/-- Byte `p` of a directory lies in the high word of the slot of a short entry. -/
def InHighWord (fs : FatFs) (source : DirSource) (p : ℕ) : Prop :=
  Dirent.IsHighByte p ∧
    p / 32 ∈ (Dirent.entrySlots (chunksExact 32 (fs.readDirBytes source)) 0).map Prod.snd

/-- The images of two readers differ in the high words of the short entries that their
directories list, and nowhere else. -/
structure DifferInHighWords (fs fs' : FatFs) : Prop where
  length_eq : fs'.image.length = fs.image.length
  stored : ∀ o, fs'.image[o]? ≠ fs.image[o]? →
    (∃ d source p, fs.Stores d source p o) ∨ ∃ d source p, fs'.Stores d source p o
  inHighWord : ∀ o, fs'.image[o]? ≠ fs.image[o]? → ∀ d source p,
    (fs.Stores d source p o → fs.InHighWord source p) ∧
      (fs'.Stores d source p o → fs'.InHighWord source p)

lemma DifferInHighWords.symm (h : fs.DifferInHighWords fs') : fs'.DifferInHighWords fs where
  length_eq := h.length_eq.symm
  stored o ho := (h.stored o ho.symm).symm
  inHighWord o ho d source p := (h.inHighWord o ho.symm d source p).symm

/-- The operations have the same results for a handle. -/
structure SameResults (fs fs' : FatFs) (id : FileId) : Prop where
  readDir : fs'.readDir id = fs.readDir id
  lookup : ∀ name, fs'.lookup id name = fs.lookup id name
  runs : fs'.runs id = fs.runs id
  readAt : ∀ off buf, fs'.readAt id off buf = fs.readAt id off buf

/-! ## One layout -/

/-- Two readers with everything in one place. -/
structure SameLayout (fs fs' : FatFs) : Prop where
  geom : fs'.geom = fs.geom
  fat : fs'.fat = fs.fat
  maxClusters : fs'.maxClusters = fs.maxClusters
  length_eq : fs'.image.length = fs.image.length

lemma SameLayout.symm (h : fs.SameLayout fs') : fs'.SameLayout fs :=
  ⟨h.geom.symm, h.fat.symm, h.maxClusters.symm, h.length_eq.symm⟩

lemma SameLayout.clusterOffsets (h : fs.SameLayout fs') (cs : List UInt32) (out : List ℕ) :
    fs'.clusterOffsets cs out = fs.clusterOffsets cs out := by
  induction cs generalizing out with
  | nil => rfl
  | cons c cs ih =>
    rw [FatFs.clusterOffsets, FatFs.clusterOffsets, h.geom, h.length_eq]
    simp only [ih]

lemma SameLayout.dirOffsets (h : fs.SameLayout fs') (source : DirSource) :
    fs'.dirOffsets source = fs.dirOffsets source := by
  cases source with
  | fixedRoot => rw [FatFs.dirOffsets, FatFs.dirOffsets, h.geom, h.length_eq]
  | chain first size contiguous =>
    have hclusters : fs'.clusters first size contiguous = fs.clusters first size contiguous := by
      rw [clusters, clusters, h.geom, h.fat, h.maxClusters]
    rw [FatFs.dirOffsets, FatFs.dirOffsets, hclusters, h.clusterOffsets]

/-- Clusters lie in the data region. -/
lemma le_of_mem_clusterOffsets {n : ℕ} (hdata : n ≤ fs.geom.dataStart) {cs : List UInt32}
    {out : List ℕ} (hout : ∀ o ∈ out, n ≤ o) : ∀ o ∈ fs.clusterOffsets cs out, n ≤ o := by
  induction cs generalizing out with
  | nil => exact hout
  | cons c cs ih =>
    rw [clusterOffsets]
    split
    · exact hout
    cases hbase : fs.geom.clusterOffset c with
    | none => exact hout
    | some base =>
      refine ih fun o ho => ?_
      rcases List.mem_append.mp ho with ho | ho
      · exact hout o ho
      · rw [List.mem_range'_1] at ho
        exact hdata.trans ((Geometry.dataStart_le_of_clusterOffset hbase).trans ho.1)

/-- A directory lies behind the FATs. -/
lemma mirrorEnd_le_of_mem_dirOffsets {img : List UInt8} (hopen : openImage img = .ok fs)
    (hvar : fs.geom.variant ≠ .exFat) {source : DirSource} {o : ℕ}
    (ho : o ∈ fs.dirOffsets source) : fs.geom.mirrorEnd ≤ o := by
  obtain ⟨-, hroot, hdata⟩ := Geometry.regions_of_parse (parse_of_openImage hopen hvar).2
  cases source with
  | fixedRoot =>
    rw [dirOffsets, List.mem_range'_1] at ho
    rcases hroot with hle | hzero <;> omega
  | chain first size contiguous => exact le_of_mem_clusterOffsets hdata (by simp) o ho

lemma Stores.mirrorEnd_le {img : List UInt8} (hopen : openImage img = .ok fs)
    (hvar : fs.geom.variant ≠ .exFat) {d : FileId} {source : DirSource} {p o : ℕ}
    (h : fs.Stores d source p o) : fs.geom.mirrorEnd ≤ o :=
  mirrorEnd_le_of_mem_dirOffsets hopen hvar (List.mem_of_getElem? h.offset)

section Layout

variable {img img' : List UInt8} (hopen : openImage img = .ok fs)
  (hopen' : openImage img' = .ok fs') (hvar : fs.geom.variant ≠ .exFat)
  (hvar' : fs'.geom.variant ≠ .exFat) (h : fs.DifferInHighWords fs')

include hopen hopen' hvar hvar' h

/-- Before the end of the FATs the images agree. -/
lemma DifferInHighWords.getElem?_eq {o : ℕ} (ho : o < fs.geom.mirrorEnd)
    (ho' : o < fs'.geom.mirrorEnd) : img'[o]? = img[o]? := by
  by_contra hne
  rw [← (openImage_ok hopen).image, ← (openImage_ok hopen').image] at hne
  rcases h.stored o hne with ⟨d, source, p, hstores⟩ | ⟨d, source, p, hstores⟩
  · have := hstores.mirrorEnd_le hopen hvar
    omega
  · have := hstores.mirrorEnd_le hopen' hvar'
    omega

/-- **The high words have no part in the layout.** -/
lemma DifferInHighWords.sameLayout : fs.SameLayout fs' := by
  have hopened := openImage_ok hopen
  have hopened' := openImage_ok hopen'
  have hparse := (parse_of_openImage hopen hvar).2
  have hparse' := (parse_of_openImage hopen' hvar').2
  have h512 : ∀ g : Geometry, 512 ≤ g.fatStart → 512 ≤ g.mirrorEnd :=
    fun g hg => hg.trans (Nat.le_add_right _ _)
  have hboot : img'.take 512 = img.take 512 := by
    apply List.ext_getElem?
    intro k
    rw [List.getElem?_take, List.getElem?_take]
    split
    next hk =>
      exact h.getElem?_eq hopen hopen' hvar hvar'
        (hk.trans_le (h512 _ (Geometry.regions_of_parse hparse).1))
        (hk.trans_le (h512 _ (Geometry.regions_of_parse hparse').1))
    next => rfl
  have hgeom : fs'.geom = fs.geom := by
    rw [hboot, hparse, Except.ok.injEq] at hparse'
    exact hparse'.symm
  refine ⟨hgeom, ?_, by rw [hopened'.maxClusters, hopened.maxClusters, hgeom], h.length_eq⟩
  rw [hopened'.fat, hopened.fat, hgeom]
  apply List.ext_getElem?
  intro k
  rw [getElem?_slice, getElem?_slice]
  split
  next hk =>
    have hlt : fs.geom.fatStart + k < fs.geom.mirrorEnd := by
      have hle := Geometry.mirrorStart_le_mirrorEnd hparse
      rw [Geometry.mirrorStart] at hle
      omega
    exact h.getElem?_eq hopen hopen' hvar hvar' hlt (hgeom ▸ hlt)
  next => rfl

end Layout

/-! ## One directory -/

/-- A handle with one marker on both volumes is stored in one place. -/
lemma dirOffsets_eq_of_marker (hlayout : fs.SameLayout fs') (hvar : fs.geom.variant ≠ .exFat)
    {d : FileId} {source source' : DirSource} (hsource : fs.dirSource d = .ok source)
    (hsource' : fs'.dirSource d = .ok source')
    (hmarker : sourceMarker source' = sourceMarker source) :
    fs'.dirOffsets source' = fs.dirOffsets source := by
  rw [hlayout.dirOffsets]
  have hvar' : fs'.geom.variant ≠ .exFat := hlayout.geom ▸ hvar
  cases d with
  | root =>
    have hroot : fs'.dirSource .root = fs.dirSource .root := by
      rw [dirSource, dirSource, rootIsClustered, rootIsClustered, hlayout.geom]
    rw [hroot, hsource, Except.ok.injEq] at hsource'
    rw [hsource']
  | entry c i =>
    obtain ⟨n, hn, -, rfl⟩ := dirSource_entry_ok.mp hsource
    obtain ⟨n', hn', -, rfl⟩ := dirSource_entry_ok.mp hsource'
    have hfirst : n'.firstCluster = n.firstCluster := hmarker
    rw [contiguous_of_resolveEntry hvar hn, contiguous_of_resolveEntry hvar' hn', dirOffsets,
      dirOffsets, hfirst, clusters_chain n.firstCluster n'.size n.size]

/-- A slot of a short entry is listed. -/
lemma exists_mem_listNodes (hvar : fs.geom.variant ≠ .exFat) {bytes : List UInt8} (marker : UInt32)
    {i : ℕ} (hi : i ∈ (Dirent.entrySlots (chunksExact 32 bytes) 0).map Prod.snd) :
    ∃ n, n ∈ fs.listNodes bytes marker := by
  obtain ⟨q, hq, -⟩ := List.mem_map.mp hi
  refine ⟨nodeFrom marker (Dirent.slotEntry (chunksExact 32 bytes) q), ?_⟩
  rw [listNodes, if_neg hvar, Dirent.parseDirectory_eq]
  exact List.mem_map_of_mem (List.mem_map_of_mem hq)

/-- The ids of a listing name the marker. -/
lemma marker_eq_of_listNodes_eq {bytes bytes' : List UInt8} {marker marker' : UInt32} {n : Node}
    (hn : n ∈ fs.listNodes bytes marker)
    (h : fs'.listNodes bytes' marker' = fs.listNodes bytes marker) : marker' = marker := by
  obtain ⟨i, hi⟩ := exists_index_of_mem_listNodes hn
  rw [← h] at hn
  obtain ⟨i', hi'⟩ := exists_index_of_mem_listNodes hn
  rw [hi, FileId.entry.injEq] at hi'
  exact hi'.1.symm

lemma firstClusters_listNodes (hvar : fs.geom.variant ≠ .exFat) (bytes : List UInt8)
    (marker : UInt32) : (fs.listNodes bytes marker).map Node.firstCluster
      = (Dirent.parseDirectory bytes).map Dirent.DirEntry.firstCluster := by
  rw [listNodes, if_neg hvar, List.map_map]
  rfl

/-- **A listing tells the bytes of the slots it shows.** -/
lemma Stores.getElem?_image_eq (hlayout : fs.SameLayout fs') (hvar : fs.geom.variant ≠ .exFat)
    (hdiff : fs.DifferInHighWords fs') {d : FileId} {source : DirSource} {p o : ℕ}
    (h : fs.Stores d source p o) (hread : fs'.readDir d = fs.readDir d) :
    fs'.image[o]? = fs.image[o]? := by
  by_contra hne
  have hvar' : fs'.geom.variant ≠ .exFat := hlayout.geom ▸ hvar
  have hhigh := (hdiff.inHighWord o hne d source p).1 h
  rw [readDir_ok.mpr ⟨source, h.dirSource, rfl⟩] at hread
  obtain ⟨source', hsource', hnodes⟩ := readDir_ok.mp hread
  -- the listing is not empty, so it names the place of the directory
  obtain ⟨n, hn⟩ := exists_mem_listNodes hvar (sourceMarker source) hhigh.2
  have hoffsets := dirOffsets_eq_of_marker hlayout hvar h.dirSource hsource'
    (marker_eq_of_listNodes_eq hn hnodes)
  have hlen : (fs'.readDirBytes source').length = (fs.readDirBytes source).length := by
    rw [(forall₂_readDirBytes source').length_eq, (forall₂_readDirBytes source).length_eq,
      hoffsets]
  have hbytes : ∀ k, (fs'.readDirBytes source')[k]? ≠ (fs.readDirBytes source)[k]? →
      Dirent.IsHighByte k := by
    intro k hk
    rw [getElem?_readDirBytes, getElem?_readDirBytes, hoffsets] at hk
    cases ho : (fs.dirOffsets source)[k]? with
    | none =>
      rw [ho] at hk
      exact absurd rfl hk
    | some o' =>
      rw [ho] at hk
      exact ((hdiff.inHighWord o' hk d source k).1 ⟨h.navigated, h.dirSource, ho⟩).1
  have hfirst := congrArg (List.map Node.firstCluster) hnodes
  rw [firstClusters_listNodes hvar', firstClusters_listNodes hvar] at hfirst
  have hbyte := Dirent.getElem?_eq_of_firstClusters hlen hbytes hfirst hhigh.2
  rw [getElem?_readDirBytes, getElem?_readDirBytes, hoffsets, h.offset] at hbyte
  exact hne hbyte

/-! ## One entry -/

/-- The runs of an entry start at its first cluster. -/
lemma getElem?_addresses_runs {img : List UInt8} (hopen : openImage img = .ok fs) {d : UInt32}
    {i : UInt16} {n : Node} (hn : fs.nodeMeta (.entry d i) = .ok n) (h2 : 2 ≤ n.firstCluster) :
    ∃ rs, fs.runs (.entry d i) = .ok rs ∧
      (addresses rs)[0]? = fs.geom.clusterOffset n.firstCluster := by
  have hcs := (openImage_valid hopen).clusterSize_pos
  have hmax : 0 < fs.maxClusters := by
    rw [(openImage_ok hopen).maxClusters]
    omega
  have hfirst := getElem?_clusters_zero hcs hmax h2 n.size n.contiguous
  obtain ⟨total, htotal, hextent⟩ : ∃ total, 0 < total ∧ fs.dataExtent (.entry d i)
      = .ok (fs.clusters n.firstCluster n.size n.contiguous, total) := by
    refine ⟨_, ?_, dataExtent_entry_ok.mpr ⟨n, hn, rfl⟩⟩
    split
    next hsize => exact UInt64.lt_iff_toNat_lt.mp hsize
    next => exact Nat.mul_pos (List.getElem?_eq_some_iff.mp hfirst).1 hcs
  generalize fs.clusters n.firstCluster n.size n.contiguous = chain at hfirst hextent
  have hlen := (List.getElem?_eq_some_iff.mp hfirst).1
  refine ⟨fs.runsFrom chain total [],
    by rw [runs_eq hextent, if_neg (List.ne_nil_of_length_pos hlen)], ?_⟩
  have haddresses := addresses_runsFrom (openImage_valid hopen)
    (two_le_of_dataExtent hcs hextent) total []
  rw [addresses_nil, List.map_nil, List.nil_append] at haddresses
  have hpos : 0 < min total (chain.length * fs.geom.clusterSize) :=
    lt_min htotal (Nat.mul_pos hlen hcs)
  have hget := congrArg (fun l => l[0]?) haddresses
  simp only [List.getElem?_map, List.getElem?_range hpos, Option.map_some] at hget
  rw [position, Nat.zero_div, hfirst, Nat.zero_mod, Option.bind_some] at hget
  have hoff := (openImage_valid hopen).clusterOffset_eq h2
  rw [hoff] at hget ⊢
  cases haddr : (addresses (fs.runsFrom chain total []))[0]? with
  | none => simp [haddr] at hget
  | some a => simpa [haddr] using hget

/-- An entry without a cluster has no run but one at the fixed root region. -/
lemma addresses_runs_of_lt_two {d : UInt32} {i : UInt16} {n : Node}
    (hn : fs.nodeMeta (.entry d i) = .ok n) (h2 : n.firstCluster < 2) {rs : List (ℕ × ℕ)}
    (hrs : fs.runs (.entry d i) = .ok rs) {a : ℕ} (ha : (addresses rs)[0]? = some a) :
    a = fs.geom.rootDirStart := by
  obtain ⟨total, hextent⟩ : ∃ total, fs.dataExtent (.entry d i) = .ok ([], total) := by
    refine ⟨(fs.extentOf n.firstCluster n.size n.contiguous).2,
      dataExtent_entry_ok.mpr ⟨n, hn, ?_⟩⟩
    rw [extentOf, clusters, if_pos h2]
  rw [runs_eq hextent, if_pos rfl, Except.ok.injEq] at hrs
  rw [← hrs] at ha
  split at ha
  · exact absurd ha (by simp)
  · rw [addresses_singleton] at ha
    obtain ⟨hlt, hget⟩ := List.getElem?_eq_some_iff.mp ha
    rw [List.getElem_range'] at hget
    omega

/-- A cluster with a high word is not among the first ones. -/
lemma two_lt_of_shiftRight_ne_zero {c : UInt32} (h : c >>> 16 ≠ 0) : 2 < c := by
  by_contra hle
  have hle := UInt32.le_iff_toNat_le.mp (UInt32.not_lt.mp hle)
  rw [show (2 : UInt32).toNat = 2 by rfl] at hle
  apply h
  apply UInt32.toNat_inj.mp
  rw [UInt32.toNat_shiftRight, show (16 : UInt32).toNat % 32 = 16 by rfl,
    Nat.shiftRight_eq_div_pow, Nat.div_eq_of_lt (by omega)]
  rfl

/-- An entry past the first cluster has other runs than one without a cluster. -/
lemma runs_ne_of_lt_two {img : List UInt8} (hopen : openImage img = .ok fs)
    (hvar : fs.geom.variant ≠ .exFat) (hgeom : fs'.geom = fs.geom) {d : UInt32} {i : UInt16}
    {n n' : Node} (hn : fs.nodeMeta (.entry d i) = .ok n)
    (hn' : fs'.nodeMeta (.entry d i) = .ok n') (hlt : 2 < n.firstCluster)
    (h2 : n'.firstCluster < 2) : fs'.runs (.entry d i) ≠ fs.runs (.entry d i) := by
  intro hruns
  have hvalid := openImage_valid hopen
  obtain ⟨rs, hrs, hfirst⟩ := getElem?_addresses_runs hopen hn (UInt32.le_of_lt hlt)
  rw [hvalid.clusterOffset_eq (UInt32.le_of_lt hlt)] at hfirst
  have hroot := addresses_runs_of_lt_two hn' h2 (hruns.trans hrs) hfirst
  have hstart := Geometry.rootDir_le_dataStart (parse_of_openImage hopen hvar).2
  have hpos : 0 < (n.firstCluster.toNat - 2) * fs.geom.clusterSize := by
    have hnat := UInt32.lt_iff_toNat_lt.mp hlt
    exact Nat.mul_pos (Nat.sub_pos_of_lt hnat) hvalid.clusterSize_pos
  rw [hgeom] at hroot
  omega

/-- **A high word shows in the runs.**  When the entries of one handle on two volumes of one layout
have different high words, they have different runs. -/
theorem runs_ne_of_highWord_ne {img img' : List UInt8} (hopen : openImage img = .ok fs)
    (hopen' : openImage img' = .ok fs') (hvar : fs.geom.variant ≠ .exFat)
    (hlayout : fs.SameLayout fs') {d : UInt32} {i : UInt16} {n n' : Node}
    (hn : fs.nodeMeta (.entry d i) = .ok n) (hn' : fs'.nodeMeta (.entry d i) = .ok n')
    (hword : n'.firstCluster >>> 16 ≠ n.firstCluster >>> 16) :
    fs'.runs (.entry d i) ≠ fs.runs (.entry d i) := by
  have hgeom := hlayout.geom
  have hzero : ∀ c : UInt32, c < 2 → c >>> 16 = 0 := fun c hc =>
    not_not.mp fun h => absurd (two_lt_of_shiftRight_ne_zero h) (UInt32.lt_asymm hc)
  by_cases h2 : n.firstCluster < 2
  · rw [hzero _ h2] at hword
    exact (runs_ne_of_lt_two hopen' (hgeom ▸ hvar) hgeom.symm hn' hn
      (two_lt_of_shiftRight_ne_zero hword) h2).symm
  by_cases h2' : n'.firstCluster < 2
  · rw [hzero _ h2'] at hword
    exact runs_ne_of_lt_two hopen hvar hgeom hn hn' (two_lt_of_shiftRight_ne_zero hword.symm) h2'
  intro hruns
  have hvalid := openImage_valid hopen
  obtain ⟨rs, hrs, hfirst⟩ := getElem?_addresses_runs hopen hn (UInt32.not_lt.mp h2)
  obtain ⟨rs', hrs', hfirst'⟩ := getElem?_addresses_runs hopen' hn' (UInt32.not_lt.mp h2')
  rw [hruns, hrs, Except.ok.injEq] at hrs'
  rw [← hrs', hfirst, hgeom, hvalid.clusterOffset_eq (UInt32.not_lt.mp h2),
    hvalid.clusterOffset_eq (UInt32.not_lt.mp h2'), Option.some.injEq, Nat.add_left_cancel_iff,
    Nat.mul_left_inj hvalid.clusterSize_pos.ne'] at hfirst'
  have hle := UInt32.le_iff_toNat_le.mp (UInt32.not_lt.mp h2)
  have hle' := UInt32.le_iff_toNat_le.mp (UInt32.not_lt.mp h2')
  have htwo : (2 : UInt32).toNat = 2 := rfl
  have heq : n'.firstCluster = n.firstCluster := UInt32.toNat_inj.mp (by omega)
  exact hword (by rw [heq])

/-! ## The whole volume -/

/-- Volumes whose listings are the same are navigated in the same way. -/
lemma Navigated.of_readDir (h : ∀ d, fs.Navigated d → fs'.readDir d = fs.readDir d) {d : FileId}
    (hnav : fs'.Navigated d) : fs.Navigated d := by
  induction hnav with
  | root => exact .root
  | step _ hread hn ih => exact .step ih ((h _ ih).symm.trans hread) hn

/-- **The high word is never ignored.**  Of two FAT volumes that differ in the high words of the
short entries of their directories only, the operations have the same results for every
directory and file just when the volumes do not differ at all. -/
theorem sameResults_iff {img img' : List UInt8} (hopen : openImage img = .ok fs)
    (hopen' : openImage img' = .ok fs') (hvar : fs.geom.variant ≠ .exFat)
    (hvar' : fs'.geom.variant ≠ .exFat) (hdiff : fs.DifferInHighWords fs') :
    (∀ id, fs.Navigated id → fs.SameResults fs' id) ↔ img' = img := by
  constructor
  · intro h
    have hread : ∀ d, fs.Navigated d → fs'.readDir d = fs.readDir d := fun d hd => (h d hd).readDir
    have hlayout := hdiff.sameLayout hopen hopen' hvar hvar'
    rw [← (openImage_ok hopen).image, ← (openImage_ok hopen').image]
    apply List.ext_getElem?
    intro o
    by_contra hne
    rcases hdiff.stored o hne with ⟨d, source, p, hstores⟩ | ⟨d, source, p, hstores⟩
    · exact hne (hstores.getElem?_image_eq hlayout hvar hdiff (hread d hstores.navigated))
    · have hnav := Navigated.of_readDir hread hstores.navigated
      exact hne (hstores.getElem?_image_eq hlayout.symm hvar' hdiff.symm (hread d hnav).symm).symm
  · rintro rfl
    rw [hopen, Except.ok.injEq] at hopen'
    subst hopen'
    exact fun _ _ => ⟨rfl, fun _ => rfl, rfl, fun _ _ => rfl⟩

/-- A FAT12 volume whose root lists one file, of five bytes in cluster 3. -/
def plain : Synth.Volume where
  image := Synth.bpb 1 16 5 0 ++ Synth.table 1 [0xF8, 0xFF, 0xFF, 0xFF, 0xFF, 0xFF]
    ++ Synth.sectors 1 (Synth.shortEntry (Synth.name 0x41) 0x20 3 5)
    ++ List.replicate 512 7 ++ List.replicate 512 8
  opens := by decide +kernel

/-- The same volume with another byte 20 of the slot of the file. -/
def tagged : Synth.Volume where
  image := plain.image.set 1044 1
  opens := by decide +kernel

/-- A volume with a root region of one sector at byte 1024, and one file in it. -/
structure OneFile (fs : FatFs) : Prop where
  root : fs.dirSource .root = .ok .fixedRoot
  offsets : fs.dirOffsets .fixedRoot = List.range' 1024 512
  slots : (Dirent.entrySlots (chunksExact 32 (fs.readDirBytes .fixedRoot)) 0).map Prod.snd = [0]
  ids : (fs.readDir .root).map (List.map Node.id) = .ok [.entry FIXED_ROOT 0]
  file : (fs.dirSource (.entry FIXED_ROOT 0)).toOption = none

lemma OneFile.navigated (h : fs.OneFile) {d : FileId} (hnav : fs.Navigated d) :
    d = .root ∨ d = .entry FIXED_ROOT 0 := by
  induction hnav with
  | root => exact Or.inl rfl
  | step _ hread hn ih =>
    right
    rcases ih with rfl | rfl
    · obtain ⟨nodes, hnodes, hids⟩ := map_eq_ok.mp h.ids
      rw [hread, Except.ok.injEq] at hnodes
      have hid := List.mem_map_of_mem (f := Node.id) hn
      rw [hnodes, hids] at hid
      simpa using hid
    · obtain ⟨source, hsource, -⟩ := readDir_ok.mp hread
      have hfile := h.file
      rw [hsource] at hfile
      exact absurd hfile (by simp [Except.toOption])

/-- Only the root has bytes, and it has them in one sector. -/
lemma OneFile.of_stores (h : fs.OneFile) {d : FileId} {source : DirSource} {p o : ℕ}
    (hstores : fs.Stores d source p o) : source = .fixedRoot ∧ o = 1024 + p := by
  have hsource := hstores.dirSource
  rcases h.navigated hstores.navigated with rfl | rfl
  · rw [h.root, Except.ok.injEq] at hsource
    have hoffset := hstores.offset
    rw [← hsource, h.offsets] at hoffset
    obtain ⟨hlt, hget⟩ := List.getElem?_eq_some_iff.mp hoffset
    rw [List.getElem_range'] at hget
    exact ⟨hsource.symm, by omega⟩
  · have hfile := h.file
    rw [hsource] at hfile
    exact absurd hfile (by simp [Except.toOption])

instance (fs : FatFs) : Decidable fs.OneFile :=
  decidable_of_iff (fs.dirSource .root = .ok .fixedRoot ∧
      fs.dirOffsets .fixedRoot = List.range' 1024 512 ∧
      (Dirent.entrySlots (chunksExact 32 (fs.readDirBytes .fixedRoot)) 0).map Prod.snd = [0] ∧
      (fs.readDir .root).map (List.map Node.id) = .ok [.entry FIXED_ROOT 0] ∧
      (fs.dirSource (.entry FIXED_ROOT 0)).toOption = none)
    ⟨fun ⟨hroot, hoffsets, hslots, hids, hfile⟩ => ⟨hroot, hoffsets, hslots, hids, hfile⟩,
      fun h => ⟨h.root, h.offsets, h.slots, h.ids, h.file⟩⟩

lemma oneFile_plain : plain.reader.OneFile := by decide +kernel

lemma oneFile_tagged : tagged.reader.OneFile := by decide +kernel

lemma differInHighWords_tagged : plain.reader.DifferInHighWords tagged.reader := by
  have himg := (openImage_ok plain.openImage_image).image
  have himg' : tagged.reader.image = plain.image.set 1044 1 :=
    (openImage_ok tagged.openImage_image).image
  have hone : ∀ o, tagged.reader.image[o]? ≠ plain.reader.image[o]? → o = 1044 := by
    intro o ho
    by_contra hne
    rw [himg, himg', List.getElem?_set_ne (Ne.symm hne)] at ho
    exact ho rfl
  have hhigh {fs : FatFs} (h : fs.OneFile) {d : FileId} {source : DirSource} {p : ℕ}
      (hstores : fs.Stores d source p 1044) : fs.InHighWord source p := by
    obtain ⟨rfl, ho⟩ := h.of_stores hstores
    obtain rfl : p = 20 := by omega
    refine ⟨⟨by decide, by decide⟩, ?_⟩
    rw [h.slots]
    decide
  refine ⟨by rw [himg, himg', List.length_set], fun o ho => ?_, fun o ho d source p => ?_⟩
  · obtain rfl := hone o ho
    refine Or.inl ⟨.root, .fixedRoot, 20, .root, oneFile_plain.root, ?_⟩
    rw [oneFile_plain.offsets]
    rfl
  · obtain rfl := hone o ho
    exact ⟨hhigh oneFile_plain, hhigh oneFile_tagged⟩

theorem sameResults_iff_tagged :
    (∀ id, plain.reader.Navigated id → plain.reader.SameResults tagged.reader id) ↔
      tagged.image = plain.image :=
  sameResults_iff plain.openImage_image tagged.openImage_image (by decide +kernel)
    (by decide +kernel) differInHighWords_tagged

/-- **A reserved word hides a file**: the file of `plain` has content, and that of `tagged`, which
has another byte 20 in its slot, has none. -/
theorem not_sameResults_tagged :
    ¬ ∀ (img img' : List UInt8) (fs fs' : FatFs), openImage img = .ok fs →
      openImage img' = .ok fs' → fs.geom.variant ∈ [FatVariant.fat12, .fat16] →
      fs'.geom.variant ∈ [FatVariant.fat12, .fat16] → fs.DifferInHighWords fs' →
      ∀ id, fs.Navigated id → fs.SameResults fs' id := by
  intro h
  have hnav : plain.reader.Navigated (.entry FIXED_ROOT 0) := by
    obtain ⟨nodes, hnodes, hids⟩ := map_eq_ok.mp oneFile_plain.ids
    obtain ⟨n, hn, hid⟩ : ∃ n ∈ nodes, n.id = .entry FIXED_ROOT 0 := by
      rw [← List.mem_map, hids]
      exact List.mem_singleton_self _
    exact hid ▸ .step .root hnodes hn
  have hsame := h _ _ _ _ plain.openImage_image tagged.openImage_image (by decide +kernel)
    (by decide +kernel) differInHighWords_tagged _ hnav
  have hread : plain.reader.readAt (.entry FIXED_ROOT 0) 0 [0, 0, 0] = .ok (3, [8, 8, 8]) ∧
      tagged.reader.readAt (.entry FIXED_ROOT 0) 0 [0, 0, 0] = .ok (0, [0, 0, 0]) := by
    decide +kernel
  have heq := hsame.readAt 0 [0, 0, 0]
  rw [hread.1, hread.2] at heq
  exact absurd heq (by simp)

end FatFs
end FatForensic
