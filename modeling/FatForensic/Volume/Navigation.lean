import FatForensic.Volume.RunsAgree
import FatForensic.Volume.Stored

/-!
# Navigating a stored hierarchy

Handles show objects: the root handle shows the root, and a handle whose node describes an object
shows this object.  Listing, lookup and reading at a handle give what the object holds, and the
handles that they give show the objects below; so every path leads to the same object in the
reader and in the store.
-/

namespace FatForensic

open Window Extent Hierarchy

namespace Plan

variable {ρ κ : Type} {P : Plan ρ κ} {F : DirFormat ρ} {img : List UInt8} {fs : FatFs}
  {id : FileId} {k : κ}

/-- The handle shows the object: it is the root's, or that of a node that describes the object. -/
inductive Shows (P : Plan ρ κ) (fs : FatFs) : FileId → κ → Prop where
  | root : Shows P fs .root P.root
  | entry {d : UInt32} {i : UInt16} {n : Node} {k : κ} :
    fs.nodeMeta (.entry d i) = .ok n → P.Names n k → Shows P fs (.entry d i) k

/-! ## The bytes of a directory -/

/-- What is read of a directory up to its cap holds all its records. -/
lemma exists_encode_of_prefix {records : List ρ} {tail bytes : List UInt8}
    (hslots : (F.slotsOf records).length ≤ 65536) (htail : Terminated tail)
    (hpre : bytes <+: F.encode records tail) (hlen : MAX_DIR_BYTES ≤ bytes.length) :
    ∃ tail', Terminated tail' ∧ bytes = F.encode records tail' := by
  have hrecords := DirFormat.length_flatten_slotsOf (F := F) records
  have hcap : (F.slotsOf records).flatten.length ≤ bytes.length := by
    rw [MAX_DIR_BYTES] at hlen
    omega
  refine ⟨tail.take (bytes.length - (F.slotsOf records).flatten.length), fun hlong => ?_, ?_⟩
  · rw [List.length_take] at hlong
    have h0 := htail (by omega)
    rwa [u8At, List.getElem?_take_of_lt (by omega)]
  · rw [DirFormat.encode, ← List.take_length_add_append, Nat.add_sub_of_le hcap]
    exact List.prefix_iff_eq_take.mp hpre

/-- Reading the clusters of a directory gives its records. -/
lemma exists_readClusters (h : P.StoredIn F img fs.geom) (hopen : FatFs.openImage img = .ok fs)
    {records : List ρ} {tail : List UInt8} (hslots : (F.slotsOf records).length ≤ 65536)
    (htail : Terminated tail) (hbytes : P.extent img fs.geom k = F.encode records tail) :
    ∃ tail', Terminated tail' ∧ fs.readClusters (P.chain k) [] = F.encode records tail' := by
  have hvalid := FatFs.openImage_valid hopen
  have hoff : ∀ c ∈ P.chain k, (fs.geom.clusterOffset c).isSome := by
    intro c hc
    rw [hvalid.clusterOffset_eq (h.heap k c hc).two_le]
    rfl
  have hwindows : ∀ cs : List UInt32, (∀ c ∈ cs, c ∈ P.chain k) →
      cs.flatMap fs.clusterBytes = cs.flatMap (fs.geom.clusterWindow img) := fun cs hcs =>
    List.flatMap_congr fun c hc => clusterBytes_eq hopen (h.heap k c (hcs c hc)).two_le
  rw [FatFs.readClusters_eq hoff, List.nil_append]
  cases hfind : (P.chain k).inits.find? fun p =>
      decide (MAX_DIR_BYTES ≤ ([] : List UInt8).length + (p.flatMap fs.clusterBytes).length) with
  | none =>
    rw [Option.getD_none, hwindows _ fun c hc => hc]
    exact ⟨tail, htail, hbytes⟩
  | some p =>
    have hcap := List.find?_some hfind
    rw [decide_eq_true_eq, List.length_nil, Nat.zero_add] at hcap
    have hp := (List.mem_inits _ _).mp (List.mem_of_find?_eq_some hfind)
    rw [Option.getD_some]
    refine exists_encode_of_prefix hslots htail ?_ hcap
    rw [hwindows _ fun c hc => hp.subset hc, ← hbytes]
    exact hp.flatMap _

/-- The head of a chain is not the marker of the fixed root. -/
lemma StoredIn.headD_ne_fixedRoot (h : P.StoredIn F img fs.geom) (k : κ) :
    (P.chain k).headD 0 ≠ FIXED_ROOT := by
  have hcount := h.count_lt
  intro heq
  cases hchain : P.chain k with
  | nil =>
    rw [hchain] at heq
    exact absurd heq (by decide)
  | cons c chain =>
    rw [hchain, List.headD_cons] at heq
    have hc := (h.heap k c (by rw [hchain]; exact List.mem_cons_self)).2
    have hnat : FIXED_ROOT.toNat = 2 ^ 32 - 1 := by decide
    rw [heq, hnat] at hc
    omega

/-- The source of a directory, and that of its marker, have the bytes of its records. -/
structure Sources (P : Plan ρ κ) (F : DirFormat ρ) (fs : FatFs) (k : κ) (records : List ρ)
    (source : DirSource) : Prop where
  bytes : ∃ tail, Terminated tail ∧ fs.readDirBytes source = F.encode records tail
  marker : fs.readDirBytes (FatFs.parentSource (sourceMarker source)) = fs.readDirBytes source

/-- A directory in the cluster heap is read from the head of its chain. -/
lemma StoredIn.sources_chain (h : P.StoredIn F img fs.geom) (hopen : FatFs.openImage img = .ok fs)
    {items : List (ρ × Option κ)} {tail : List UInt8} (hdir : P.content k = .dir items tail)
    (hbytes : P.extent img fs.geom k = F.encode (items.map Prod.fst) tail) (size : UInt64) :
    Sources P F fs k (items.map Prod.fst) (.chain ((P.chain k).headD 0) size false) := by
  obtain ⟨hcont, hslots, htail, -⟩ := h.dir k items tail hdir
  constructor
  · rw [FatFs.readDirBytes, h.clusters_linked hopen hcont]
    exact exists_readClusters h hopen hslots htail hbytes
  · rw [sourceMarker, FatFs.parentSource, if_neg (h.headD_ne_fixedRoot k), FatFs.readDirBytes,
      FatFs.readDirBytes, FatFs.clusters_chain _ 0 size]

/-- **A handle that shows a directory is read from the bytes of its records.** -/
lemma Shows.dirSource (hid : P.Shows fs id k) (h : P.StoredIn F img fs.geom)
    (hopen : FatFs.openImage img = .ok fs) {items : List (ρ × Option κ)} {tail : List UInt8}
    (hdir : P.content k = .dir items tail) :
    ∃ source, fs.dirSource id = .ok source ∧ Sources P F fs k (items.map Prod.fst) source := by
  obtain ⟨hcont, hslots, htail, hhas⟩ := h.dir k items tail hdir
  cases hid with
  | root =>
    by_cases hroot : fs.geom.RootInHeap
    · have hclustered : fs.rootIsClustered = true := decide_eq_true hroot
      have hhead : (P.chain P.root).headD 0 = fs.geom.rootCluster := by
        rw [List.headD_eq_head?_getD, h.root_chain hroot, Option.getD_some]
      have hbytes : P.extent img fs.geom P.root = F.encode (items.map Prod.fst) tail := by
        rcases hhas with ⟨-, hnot, -⟩ | ⟨-, hbytes⟩
        · exact absurd hroot hnot
        · exact hbytes
      have hsources := h.sources_chain hopen hdir hbytes 0
      rw [hhead] at hsources
      exact ⟨_, by rw [FatFs.dirSource, if_pos hclustered], hsources⟩
    · have hclustered : ¬ fs.rootIsClustered = true := by
        simpa [FatFs.rootIsClustered, Geometry.RootInHeap] using hroot
      have hbytes : slice img fs.geom.rootDirStart fs.geom.rootDirBytes
          = F.encode (items.map Prod.fst) tail := by
        rcases hhas with ⟨-, -, hbytes⟩ | ⟨hheap, -⟩
        · exact hbytes
        · exact absurd (hheap rfl) hroot
      refine ⟨_, by rw [FatFs.dirSource, if_neg hclustered], ⟨tail, htail, ?_⟩, rfl⟩
      rw [FatFs.readDirBytes, FatFs.readRegionVec_eq, (FatFs.openImage_ok hopen).image, hbytes]
  | @entry d i n k hmeta hn =>
    have hkind := hn.kind
    rw [hdir] at hkind
    have hbytes : P.extent img fs.geom k = F.encode (items.map Prod.fst) tail := by
      rcases hhas with ⟨heq, -⟩ | ⟨-, hbytes⟩
      · exact absurd heq hn.ne_root
      · exact hbytes
    have hsources := h.sources_chain hopen hdir hbytes n.size
    refine ⟨_, FatFs.dirSource_entry_ok.mpr ⟨n, hmeta, hkind, ?_⟩, hsources⟩
    rw [hn.firstCluster, hn.contiguous, hcont]

/-! ## Listing -/

/-- **Listing a directory** gives the nodes of its records, and `meta` gives each again. -/
lemma Shows.readDir (hid : P.Shows fs id k) (h : P.StoredIn F img fs.geom)
    (hopen : FatFs.openImage img = .ok fs) (hreads : fs.Reads F)
    {items : List (ρ × Option κ)} {tail : List UInt8} (hdir : P.content k = .dir items tail) :
    ∃ marker, fs.readDir id = .ok (F.nodesFrom marker 0 (items.map Prod.fst)) ∧
      ∀ n ∈ F.nodesFrom marker 0 (items.map Prod.fst), fs.nodeMeta n.id = .ok n := by
  obtain ⟨source, hsource, ⟨tail', htail', hbytes⟩, hmarker⟩ := hid.dirSource h hopen hdir
  have hslots := (h.dir k items tail hdir).2.1
  have hnodes := hreads (sourceMarker source) (items.map Prod.fst) tail' hslots htail'
  refine ⟨sourceMarker source, FatFs.readDir_ok.mpr ⟨source, hsource, by rw [hbytes, hnodes]⟩,
    fun n hn => ?_⟩
  obtain ⟨r, -, b, j, -, rfl⟩ := DirFormat.mem_nodesFrom hn
  have hnode : fs.resolveEntry (b.at (sourceMarker source) j).id
      = .ok (b.at (sourceMarker source) j) := by
    refine FatFs.resolveEntry_ok.mpr ?_
    rw [hmarker, hbytes]
    exact FatFs.find?_hasIndex_encode hreads hslots htail' hn rfl
  exact hnode

/-- A node of a listing that describes an object shows it. -/
lemma shows_of_names {n : Node} (hmeta : fs.nodeMeta n.id = .ok n) (hn : P.Names n k)
    (hid : ∃ d i, n.id = .entry d i) : P.Shows fs n.id k := by
  obtain ⟨d, i, hid⟩ := hid
  rw [hid] at hmeta ⊢
  exact .entry hmeta hn

/-! ## Lookup -/

/-- A name that is not taken for a way back. -/
def IsPlain (name : List UInt8) : Prop := name ≠ [0x2E] ∧ name ≠ [0x2E, 0x2E]

/-- A dot entry has no plain name. -/
lemma nameBytes_ne_of_isDot {n : Node} (hdot : n.IsDot) {name : List UInt8} (hname : IsPlain name) :
    n.nameBytes ≠ name := by
  rcases hdot with hdot | hdot
  · rw [Node.nameBytes, hdot]
    exact Ne.symm hname.1
  · rw [Node.nameBytes, hdot]
    exact Ne.symm hname.2

/-- **The first live node of a name describes the first object of this name.** -/
lemma find?_rel {items : List (ρ × Option κ)}
    (hitems : ∀ r, (∀ j, (r, some j) ∈ items → ∃ n, F.body r = some n ∧ P.Names n j) ∧
      ((r, none) ∈ items → ∀ n, F.body r = some n →
        n.isDeleted = true ∨ n.isVolumeLabel = true ∨ n.IsDot))
    {name : List UInt8} (hname : IsPlain name) (marker : UInt32) (i : ℕ) :
    Option.Rel P.Names
      ((F.nodesFrom marker i (items.map Prod.fst)).find? fun n =>
        !n.isDeleted && !n.isVolumeLabel && n.nameBytes == name)
      (((entries F items).find? (·.1 = name)).map Prod.snd) := by
  induction items generalizing i with
  | nil => exact .none
  | cons x items ih =>
    obtain ⟨r, o⟩ := x
    have ih := ih (fun r' => ⟨fun j hj => (hitems r').1 j (List.mem_cons_of_mem _ hj),
      fun hj => (hitems r').2 (List.mem_cons_of_mem _ hj)⟩) (i + (F.slots r).length)
    rw [List.map_cons, DirFormat.nodesFrom, entries, List.filterMap_cons]
    cases o with
    | none =>
      -- the record names no object: it has no node, or one that is passed over
      have hother := (hitems r).2 List.mem_cons_self
      cases hb : F.body r with
      | none => exact ih
      | some b =>
        have hskip : (!(b.at marker (i + F.lead r)).isDeleted
            && !(b.at marker (i + F.lead r)).isVolumeLabel
            && (b.at marker (i + F.lead r)).nameBytes == name) = false := by
          rcases hother b hb with hdel | hlabel | hdot
          · simp [Node.at, hdel]
          · simp [Node.at, hlabel]
          · have hne := nameBytes_ne_of_isDot hdot hname
            have hne : (b.at marker (i + F.lead r)).nameBytes ≠ name := hne
            simp [hne]
        rw [Option.map_some, Option.toList_some, List.singleton_append, List.find?_cons, hskip]
        exact ih
    | some j =>
      obtain ⟨b, hb, hnames⟩ := (hitems r).1 j List.mem_cons_self
      have hat := hnames.at marker (i + F.lead r)
      rw [hb, Option.map_some, Option.toList_some, List.singleton_append, List.find?_cons,
        hat.live, hat.not_label]
      simp only [Option.bind_some, Option.map_some, List.find?_cons]
      by_cases heq : b.nameBytes = name
      · have heq' : (b.at marker (i + F.lead r)).nameBytes = name := heq
        simp only [heq', heq, beq_self_eq_true, decide_true, Bool.not_false, Bool.and_self]
        exact .some hat
      · have heq' : ¬ (b.at marker (i + F.lead r)).nameBytes = name := heq
        simp only [beq_eq_false_iff_ne.mpr heq', heq, decide_false, Bool.and_false]
        exact ih

/-- **Looking up a plain name** in a directory leads to the object of this name. -/
lemma Shows.lookup (hid : P.Shows fs id k) (h : P.StoredIn F img fs.geom)
    (hopen : FatFs.openImage img = .ok fs) (hreads : fs.Reads F)
    {items : List (ρ × Option κ)} {tail : List UInt8} (hdir : P.content k = .dir items tail)
    {name : List UInt8} (hname : IsPlain name) :
    ∃ r, fs.lookup id name = .ok r ∧ Option.Rel (P.Shows fs) r (child (P.store F) k name) := by
  obtain ⟨marker, hread, hmeta⟩ := hid.readDir h hopen hreads hdir
  refine ⟨((F.nodesFrom marker 0 (items.map Prod.fst)).find? fun n =>
    !n.isDeleted && !n.isVolumeLabel && n.nameBytes == name).map Node.id, ?_, ?_⟩
  · rw [FatFs.lookup, hread]
    rfl
  · have hrel := find?_rel (h.items k items tail hdir) hname marker 0
    rw [child, store, hdir]
    dsimp only
    generalize hfind : (F.nodesFrom marker 0 (items.map Prod.fst)).find? (fun n =>
      !n.isDeleted && !n.isVolumeLabel && n.nameBytes == name) = found at hrel
    generalize ((entries F items).find? (·.1 = name)).map Prod.snd = object at hrel
    cases hrel with
    | none => exact .none
    | @some n j hn =>
      have hmem := List.mem_of_find?_eq_some hfind
      obtain ⟨r, -, b, i, -, heq⟩ := DirFormat.mem_nodesFrom hmem
      exact .some (shows_of_names (hmeta n hmem) hn ⟨_, _, congrArg Node.id heq⟩)

/-- There is nothing to look up in a file. -/
lemma Shows.readDir_file (hid : P.Shows fs id k) (h : P.StoredIn F img fs.geom) {bytes : List UInt8}
    (hfile : P.content k = .file bytes) :
    ∃ name, fs.readDir id = .error (.corrupt (.notADirectory name)) := by
  cases hid with
  | root =>
    obtain ⟨items, tail, hroot⟩ := h.root_dir
    rw [hroot] at hfile
    exact absurd hfile (by simp)
  | @entry d i n k hmeta hn =>
    have hkind := hn.kind
    rw [hfile] at hkind
    have hnode : fs.resolveEntry (.entry d i) = .ok n := hmeta
    refine ⟨n.name, ?_⟩
    simp only [FatFs.readDir, FatFs.dirSource, hnode, bind, Except.bind, hkind.1,
      Bool.false_eq_true, not_false_eq_true, if_true]

/-! ## Reading -/

/-- **The extent of a file** has its clusters and its length. -/
lemma Shows.dataExtent (hid : P.Shows fs id k) (h : P.StoredIn F img fs.geom)
    (hopen : FatFs.openImage img = .ok fs) {bytes : List UInt8}
    (hfile : P.content k = .file bytes) :
    fs.dataExtent id = .ok (P.chain k, bytes.length) := by
  cases hid with
  | root =>
    obtain ⟨items, tail, hroot⟩ := h.root_dir
    rw [hroot] at hfile
    exact absurd hfile (by simp)
  | @entry d i n k hmeta hn =>
    have hkind := hn.kind
    rw [hfile] at hkind
    obtain ⟨-, hsize⟩ := hkind
    refine FatFs.dataExtent_entry_ok.mpr ⟨n, hmeta, ?_⟩
    rw [FatFs.extentOf, h.clusters_eq hopen hn]
    rcases Nat.eq_zero_or_pos bytes.length with hzero | hpos
    · rw [if_neg (fun hlt => by have := FatFs.size_pos.mp hlt; omega),
        (h.file k bytes hfile).2.1 (List.eq_nil_of_length_eq_zero hzero), hzero,
        List.length_nil, Nat.zero_mul]
    · rw [if_pos (FatFs.size_pos.mpr (by omega)), hsize]

/-- Along the clusters of a file lies its content. -/
lemma StoredIn.run_byteAt (h : P.StoredIn F img fs.geom) (hopen : FatFs.openImage img = .ok fs)
    {bytes : List UInt8} (hfile : P.content k = .file bytes) {off len : ℕ}
    (hlen : off + len ≤ bytes.length ∨ len = 0) :
    run (fs.byteAt (P.chain k)) off len = slice bytes off len := by
  obtain ⟨t, ht⟩ := (h.file k bytes hfile).1
  rw [← run_getElem? bytes]
  refine run_congr fun i hi => ?_
  rw [h.byteAt_eq hopen, ← ht, List.getElem?_append_left (by omega)]

/-- **Reading a file** delivers its content. -/
lemma Shows.readAt (hid : P.Shows fs id k) (h : P.StoredIn F img fs.geom)
    (hopen : FatFs.openImage img = .ok fs) {bytes : List UInt8}
    (hfile : P.content k = .file bytes) (off : ℕ) (buf : List UInt8) :
    fs.readAt id off buf = .ok ((slice bytes off buf.length).length,
      overwrite buf 0 (slice bytes off buf.length)) := by
  have hrun : run (fs.byteAt (P.chain k)) off (min (off + buf.length) bytes.length - off)
      = slice bytes off buf.length := by
    rw [h.run_byteAt hopen hfile (by omega), slice, slice, List.take_eq_take_iff,
      List.length_drop]
    omega
  rw [FatFs.readAt_eq_run hopen (hid.dataExtent h hopen hfile), hrun]

/-- **The runs of a file** hold its content. -/
lemma Shows.runs (hid : P.Shows fs id k) (h : P.StoredIn F img fs.geom)
    (hopen : FatFs.openImage img = .ok fs) {bytes : List UInt8}
    (hfile : P.content k = .file bytes) :
    ∃ runs, fs.runs id = .ok runs ∧ fs.runBytes runs = bytes := by
  have hvalid := FatFs.openImage_valid hopen
  refine ⟨_, FatFs.runs_eq (hid.dataExtent h hopen hfile), ?_⟩
  have hwhole : run (fs.byteAt (P.chain k)) 0 bytes.length = bytes := by
    rw [h.run_byteAt hopen hfile (by omega), slice, List.drop_zero, List.take_length]
  split
  next hnil =>
    rw [hnil] at hwhole
    have hzero : bytes.length = 0 := by
      rw [← hwhole, run_succ_none rfl, List.length_nil]
    rw [if_pos hzero, List.eq_nil_of_length_eq_zero hzero]
    rfl
  next =>
    have h2 : ∀ c ∈ P.chain k, 2 ≤ c := fun c hc => (h.heap k c hc).two_le
    have hagree := (FatFs.run_eq_runBytes_iff hvalid h2 bytes.length).mpr ?_
    · rw [← hagree, hwhole]
    intro i j c d _ _ hc _ _
    have hmem := List.mem_of_getElem? hc
    rw [FatFs.holdsCluster_eq (hvalid.clusterOffset_eq (h2 c hmem)),
      (FatFs.openImage_ok hopen).image]
    exact h.whole k c hmem

/-- **The handle gives what the object holds**: a node that describes the object, unless it is
the root; the content of a file, by reading and by its runs; the nodes of a directory's records,
in order, each of which `meta` gives again. -/
def Presents (P : Plan ρ κ) (F : DirFormat ρ) (fs : FatFs) (id : FileId) (k : κ) : Prop :=
  (k ≠ P.root → ∃ n, fs.nodeMeta id = .ok n ∧ P.Names n k) ∧
  match P.content k with
  | .file bytes =>
    (∀ off buf, fs.readAt id off buf = .ok ((slice bytes off buf.length).length,
      overwrite buf 0 (slice bytes off buf.length))) ∧
    (∃ runs, fs.runs id = .ok runs ∧ fs.runBytes runs = bytes) ∧
    ∃ name, fs.readDir id = .error (.corrupt (.notADirectory name))
  | .dir items _ => ∃ nodes, fs.readDir id = .ok nodes ∧
    List.Forall₂ (fun n b => ∃ marker i, n = b.at marker i) nodes
      ((items.map Prod.fst).filterMap F.body) ∧
    ∀ n ∈ nodes, fs.nodeMeta n.id = .ok n

lemma Shows.presents (hid : P.Shows fs id k) (h : P.StoredIn F img fs.geom)
    (hopen : FatFs.openImage img = .ok fs) (hreads : fs.Reads F) : P.Presents F fs id k := by
  constructor
  · intro hne
    cases hid with
    | root => exact absurd rfl hne
    | @entry d i n k hmeta hn => exact ⟨n, hmeta, hn⟩
  · cases hcontent : P.content k with
    | file bytes =>
      exact ⟨hid.readAt h hopen hcontent, hid.runs h hopen hcontent, hid.readDir_file h hcontent⟩
    | dir items tail =>
      obtain ⟨marker, hread, hmeta⟩ := hid.readDir h hopen hreads hcontent
      refine ⟨_, hread, ?_, hmeta⟩
      exact (DirFormat.forall₂_nodesFrom marker 0 _).imp fun n b hn => ⟨marker, hn⟩

end Plan

/-! ## Paths -/

/-- One step of navigation: the handle that `lookup` finds, if it finds one. -/
def FatFs.step (fs : FatFs) (id : FileId) (name : List UInt8) : Option FileId :=
  (fs.lookup id name).toOption.join

/-- Navigation from the root along the names of a path. -/
def FatFs.resolvePath (fs : FatFs) (path : List (List UInt8)) : Option FileId :=
  path.foldlM fs.step FatFs.root

namespace Plan

variable {ρ κ : Type} {P : Plan ρ κ} {F : DirFormat ρ} {img : List UInt8} {fs : FatFs}
  {id : FileId} {k : κ}

/-- **One step** leads to the same object in the reader and in the store. -/
lemma Shows.step (hid : P.Shows fs id k) (h : P.StoredIn F img fs.geom)
    (hopen : FatFs.openImage img = .ok fs) (hreads : fs.Reads F) {name : List UInt8}
    (hname : IsPlain name) :
    Option.Rel (P.Shows fs) (fs.step id name) (child (P.store F) k name) := by
  cases hcontent : P.content k with
  | file bytes =>
    obtain ⟨text, hread⟩ := hid.readDir_file h hcontent
    rw [FatFs.step, FatFs.lookup, hread, child, store, hcontent]
    exact .none
  | dir items tail =>
    obtain ⟨r, hlookup, hrel⟩ := hid.lookup h hopen hreads hcontent hname
    rw [FatFs.step, hlookup]
    exact hrel

/-- **Every path** leads to the same object in the reader and in the store. -/
lemma StoredIn.resolvePath (h : P.StoredIn F img fs.geom) (hopen : FatFs.openImage img = .ok fs)
    (hreads : fs.Reads F) {path : List (List UInt8)} (hpath : ∀ name ∈ path, IsPlain name) :
    Option.Rel (P.Shows fs) (fs.resolvePath path)
      (resolve (P.store F) P.root path) :=
  foldlM_rel (f := fs.step) (g := child (P.store F))
    (fun name hname _ _ hid => Shows.step hid h hopen hreads (hpath name hname)) .root

end Plan
end FatForensic
