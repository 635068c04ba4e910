import FatForensic.Core.Audit
import FatForensic.Directory.Scan
import FatForensic.Lib.DepthSearch
import FatForensic.Volume.Geometry

/-!
# The walk for deleted entries is a depth-limited search

`collect_deleted` searches the directories depth first, with the first cluster as the key
that is seen once.  What it reports is what the directories at the ends of the first paths
list as deleted.
-/

namespace FatForensic
namespace Audit

open DepthSearch Window

/-- The finding for a deleted node. -/
def deletedFinding (node : Node) : Anomaly := .new (.deletedDirectoryEntry node.name)

/-- A live directory that the walk may enter. -/
def isEntered (node : Node) : Bool :=
  node.name ≠ "." ∧ node.name ≠ ".." ∧ ¬ node.isDeleted ∧ node.isDir ∧ ¬ node.isVolumeLabel

/-- A deleted node that the walk reports. -/
def isReported (node : Node) : Bool := node.name ≠ "." ∧ node.name ≠ ".." ∧ node.isDeleted

/-- What the walk sees in a node. -/
def nodeItem (node : Node) : Option (Item UInt32 FileId Anomaly) :=
  if isReported node then some (.report (deletedFinding node))
  else if isEntered node then some (.descend node.firstCluster node.id)
  else none

/-- The nodes of a directory; none where it cannot be read. -/
def nodesOf (fs : FatFs) (dir : FileId) : List Node :=
  match fs.readDir dir with
  | .error _ => []
  | .ok nodes => nodes

/-- What the walk sees in a directory. -/
def walkItems (fs : FatFs) (dir : FileId) : List (Item UInt32 FileId Anomaly) :=
  (nodesOf fs dir).filterMap nodeItem

lemma nodesOf_eq {fs : FatFs} {dir : FileId} {nodes : List Node}
    (h : fs.readDir dir = .ok nodes) : nodesOf fs dir = nodes := by
  rw [nodesOf, h]

/-- A round of the loop is a visit of what the walk sees in the node. -/
lemma collectNode_eq (descend : FileId → WalkState → WalkState) (st : WalkState) (node : Node) :
    collectNode descend st node = (nodeItem node).elim st (visit descend st) := by
  by_cases hdot : node.name = "." ∨ node.name = ".."
  · have hr : isReported node = false := by
      rcases hdot with h | h <;> simp [isReported, h]
    have he : isEntered node = false := by
      rcases hdot with h | h <;> simp [isEntered, h]
    rw [collectNode, if_pos hdot, nodeItem, hr, he]
    rfl
  · obtain ⟨h1, h2⟩ := not_or.mp hdot
    rw [collectNode, if_neg hdot, nodeItem]
    by_cases hdel : node.isDeleted = true
    · have hr : isReported node = true := by simp [isReported, h1, h2, hdel]
      rw [if_pos hdel, if_pos hr]
      rfl
    · have hr : ¬ isReported node = true := by simp [isReported, hdel]
      rw [if_neg hdel, if_neg hr]
      by_cases hdir : node.isDir = true ∧ ¬ node.isVolumeLabel = true
      · have he : isEntered node = true := by
          simpa [isEntered, h1, h2, hdel] using hdir
        rw [if_pos he]
        simp only [Option.elim, visit]
        by_cases hseen : node.firstCluster ∈ st.1
        · rw [if_pos hseen, if_neg fun h => h.2.2 hseen]
        · rw [if_neg hseen, if_pos ⟨hdir.1, hdir.2, hseen⟩]
      · have he : ¬ isEntered node = true := by
          simpa [isEntered, h1, h2, hdel] using hdir
        rw [if_neg he, if_neg (fun h => hdir ⟨h.1, h.2.1⟩)]
        rfl

/-- **The walk is the depth-limited search of what it sees.** -/
theorem collectDeleted_eq_search (fs : FatFs) (levels : ℕ) (dir : FileId) (st : WalkState) :
    collectDeleted fs levels dir st = search (walkItems fs) levels dir st := by
  induction levels generalizing dir st with
  | zero => rfl
  | succ levels ih =>
    have hdown : collectDeleted fs levels = search (walkItems fs) levels := by
      funext dir st
      exact ih dir st
    have hfold : ∀ (nodes : List Node) (st : WalkState),
        nodes.foldl (collectNode (collectDeleted fs levels)) st
          = (nodes.filterMap nodeItem).foldl (visit (search (walkItems fs) levels)) st := by
      intro nodes
      induction nodes with
      | nil => exact fun st => rfl
      | cons node nodes ihn =>
        intro st
        rw [List.foldl_cons, collectNode_eq, ihn, List.filterMap_cons, hdown]
        cases nodeItem node with
        | none => rfl
        | some x => rfl
    rw [collectDeleted, search, walkItems, nodesOf]
    cases fs.readDir dir with
    | error e => rfl
    | ok nodes => exact hfold nodes st

/-- The directories that the walk expands: the ends of the first paths below the cap. -/
def firstDirs (fs : FatFs) : List FileId :=
  ((firstPaths (walkItems fs) MAX_DEPTH FatFs.root).filter (·.length < MAX_DEPTH)).map
    (target FatFs.root)

/-- The findings in a directory are those of its deleted nodes. -/
lemma reportsOf_walkItems (fs : FatFs) (dir : FileId) :
    reportsOf (walkItems fs dir) = ((nodesOf fs dir).filter isReported).map deletedFinding := by
  rw [walkItems, reportsOf]
  induction nodesOf fs dir with
  | nil => rfl
  | cons node nodes ih =>
    rw [List.filterMap_cons, List.filter_cons]
    by_cases hr : isReported node = true
    · have hitem : nodeItem node = some (.report (deletedFinding node)) := by
        rw [nodeItem, if_pos hr]
      rw [hitem, if_pos hr]
      simp [ih]
    · rw [if_neg hr]
      by_cases he : isEntered node = true
      · have hitem : nodeItem node = some (.descend node.firstCluster node.id) := by
          rw [nodeItem, if_neg hr, if_pos he]
        rw [hitem]
        simp [ih]
      · have hitem : nodeItem node = none := by
          rw [nodeItem, if_neg hr, if_neg he]
        rw [hitem]
        exact ih

/-- **What the walk reports**: the deleted nodes of the directories it expands, each as often
as it is listed there. -/
theorem collectDeleted_reports (fs : FatFs) (out : List Anomaly) :
    ((collectDeleted fs MAX_DEPTH FatFs.root ([], out)).2 : Multiset Anomaly) =
      out + (firstDirs fs).flatMap fun dir =>
        ((nodesOf fs dir).filter isReported).map deletedFinding := by
  rw [collectDeleted_eq_search, search_reports, reportsAt, firstDirs, List.flatMap_map]
  simp only [reportsOf_walkItems]

/-- The walk keeps the findings made before it and adds findings of deleted entries. -/
lemma mem_collectDeleted {fs : FatFs} {out : List Anomaly} {a : Anomaly} :
    a ∈ (collectDeleted fs MAX_DEPTH FatFs.root ([], out)).2 ↔
      a ∈ out ∨ ∃ dir ∈ firstDirs fs, ∃ n ∈ nodesOf fs dir,
        isReported n ∧ a = deletedFinding n := by
  have h := collectDeleted_reports fs out
  rw [← Multiset.mem_coe, h, Multiset.mem_add, Multiset.mem_coe, Multiset.mem_coe]
  simp only [List.mem_flatMap, List.mem_map, List.mem_filter]
  constructor
  · rintro (ha | ⟨dir, hdir, n, ⟨hn, hr⟩, rfl⟩)
    · exact Or.inl ha
    · exact Or.inr ⟨dir, hdir, n, hn, hr, rfl⟩
  · rintro (ha | ⟨dir, hdir, n, hn, hr, rfl⟩)
    · exact Or.inl ha
    · exact Or.inr ⟨dir, hdir, n, ⟨hn, hr⟩, rfl⟩

/-! ## Deleted entries of a FAT volume -/

lemma nodesOf_fat {fs : FatFs} (hvar : fs.geom.variant ≠ .exFat) {dir : FileId}
    {source : DirSource} (h : fs.dirSource dir = .ok source) :
    nodesOf fs dir = (Dirent.parseDirectory (fs.readDirBytes source)).map
      (nodeFrom (sourceMarker source)) := by
  have hread : fs.readDir dir
      = .ok (fs.listNodes (fs.readDirBytes source) (sourceMarker source)) := by
    rw [FatFs.readDir, h]
    rfl
  rw [nodesOf_eq hread, FatFs.listNodes, if_neg hvar]

lemma dirSource_of_mem_nodesOf {fs : FatFs} {dir : FileId} {n : Node} (hn : n ∈ nodesOf fs dir) :
    ∃ source, fs.dirSource dir = .ok source := by
  cases h : fs.dirSource dir with
  | ok source => exact ⟨source, rfl⟩
  | error e =>
    have hread : fs.readDir dir = .error e := by
      rw [FatFs.readDir, h]
      rfl
    rw [nodesOf, hread] at hn
    exact absurd hn (by simp)

/-- On a FAT volume no name keeps the walk from reporting a deleted node. -/
lemma isReported_iff_isDeleted {fs : FatFs} (hvar : fs.geom.variant ≠ .exFat) {dir : FileId}
    {n : Node} (hn : n ∈ nodesOf fs dir) : isReported n = n.isDeleted := by
  obtain ⟨source, hsource⟩ := dirSource_of_mem_nodesOf hn
  rw [nodesOf_fat hvar hsource] at hn
  obtain ⟨e, he, rfl⟩ := List.mem_map.mp hn
  cases hdel : (nodeFrom (sourceMarker source) e).isDeleted with
  | false => simp [isReported, hdel]
  | true =>
    obtain ⟨p, -, hp⟩ := Dirent.exists_decodedFrom he
    obtain ⟨h1, h2⟩ := Dirent.name_ne_dot_of_deleted hp hdel
    simpa [isReported, hdel] using ⟨h1, h2⟩

/-! ## The whole audit of a volume that opens -/

/-- What is reported on an accepted volume before the walk. -/
def structuralFindings (img : List UInt8) (geom : Geometry) : List Anomaly :=
  if geom.variant = .exFat then auditExfatChecksum img geom
  else if geom.numFats ≥ 2 then auditFatMirror img geom
  else []

/-- Whether a finding is one of a deleted entry. -/
def isDeletedFinding (a : Anomaly) : Bool :=
  match a.kind with
  | .deletedDirectoryEntry _ => true
  | _ => false

lemma isDeletedFinding_deletedFinding (n : Node) : isDeletedFinding (deletedFinding n) = true := rfl

lemma not_isDeletedFinding_of_mem_structuralFindings {img : List UInt8} {geom : Geometry}
    {a : Anomaly} (h : a ∈ structuralFindings img geom) : isDeletedFinding a = false := by
  unfold structuralFindings at h
  split at h
  · simp only [auditExfatChecksum] at h
    split at h
    · exact absurd h (by simp)
    · split at h
      · rw [List.mem_singleton.mp h]
        rfl
      · exact absurd h (by simp)
  · split at h
    · simp only [auditFatMirror] at h
      split at h
      · exact absurd h (by simp)
      split at h
      · exact absurd h (by simp)
      split at h
      · exact absurd h (by simp)
      split at h
      · rw [List.mem_singleton.mp h]
        rfl
      · exact absurd h (by simp)
    · exact absurd h (by simp)

/-- The audit of an image that opens: the checks of its structure, then the walk. -/
lemma auditReader_eq {img : List UInt8} {fs : FatFs} (hopen : FatFs.openImage img = .ok fs) :
    auditReader img =
      .ok (collectDeleted fs MAX_DEPTH FatFs.root ([], structuralFindings img fs.geom)).2 := by
  have hlen := (FatFs.openImage_ok hopen).le_length
  have hgeom := (FatFs.openImage_ok hopen).parsed
  have h55 : leU16 (img.take 512) 510 = 0xAA55 := by
    split at hgeom
    · obtain ⟨b, s, hg⟩ := Geometry.parseBoot_ok hgeom
      exact hg.bootSignature
    · exact Geometry.signature_of_parse hgeom
  have hslice : slice (img.take 512) 3 8 = slice img 3 8 := slice_take img (by norm_num)
  simp only [auditReader, readExact_boot hlen, bind, Except.bind, hslice, hgeom, h55, ne_eq,
    not_true_eq_false, if_false, hopen, structuralFindings, List.nil_append]

/-! ## The calls of `read_dir` -/

/-- What the audit does: its findings, and the directories that it calls `read_dir` on, each when
it is done with it. -/
def auditTrace (img : List UInt8) (fs : FatFs) : List (FileId ⊕ Anomaly) :=
  (search (announced (walkItems fs)) MAX_DEPTH FatFs.root
    ([], (structuralFindings img fs.geom).map .inr)).2

/-- The directories that the walk of the audit calls `read_dir` on. -/
def readDirCalls (img : List UInt8) (fs : FatFs) : List FileId := calls (auditTrace img fs)

/-- The findings of the trace are those of the audit. -/
lemma auditReader_eq_findings {img : List UInt8} {fs : FatFs}
    (hopen : FatFs.openImage img = .ok fs) :
    auditReader img = .ok (findings (auditTrace img fs)) := by
  have hsome : ∀ out : List Anomaly, findings (out.map (Sum.inr (α := FileId))) = out := by
    intro out
    simp [findings, List.filterMap_map, Function.comp_def]
  have hsearch := congrArg Prod.snd (search_announced (walkItems fs) MAX_DEPTH FatFs.root
    ([], (structuralFindings img fs.geom).map .inr))
  rw [auditReader_eq hopen, collectDeleted_eq_search, auditTrace]
  exact congrArg Except.ok (hsearch.trans (by rw [hsome])).symm

/-- The calls are of the directories at the ends of the first paths below the cap. -/
lemma readDirCalls_eq (img : List UInt8) (fs : FatFs) :
    (readDirCalls img fs : Multiset FileId) = firstDirs fs :=
  calls_search (walkItems fs) MAX_DEPTH FatFs.root (structuralFindings img fs.geom)

lemma mem_readDirCalls {img : List UInt8} {fs : FatFs} {dir : FileId} :
    dir ∈ readDirCalls img fs ↔ dir ∈ firstDirs fs := by
  rw [← Multiset.mem_coe, readDirCalls_eq, Multiset.mem_coe]

/-- What the walk goes down to is a live directory that is listed. -/
lemma exists_node_of_descend {fs : FatFs} {dir next : FileId} {k : UInt32}
    (h : .descend k next ∈ walkItems fs dir) :
    ∃ n ∈ nodesOf fs dir, isEntered n = true ∧ n.firstCluster = k ∧ n.id = next := by
  obtain ⟨n, hn, hitem⟩ := List.mem_filterMap.mp h
  rw [nodeItem] at hitem
  split at hitem
  · exact absurd hitem (by simp)
  split at hitem
  next hent =>
    obtain ⟨rfl, rfl⟩ := Item.descend.inj (Option.some.inj hitem)
    exact ⟨n, hn, hent, rfl, rfl⟩
  next => exact absurd hitem (by simp)

/-! ## Live paths -/

/-- The live paths that the walk could take: from a directory through nodes that it would
enter, each listed by the directory before it, to the directory at the end. -/
inductive LivePath (fs : FatFs) : FileId → List Node → FileId → Prop where
  | nil (dir : FileId) : LivePath fs dir [] dir
  | cons {dir stop : FileId} {nodes path : List Node} {n : Node} :
    fs.readDir dir = .ok nodes → n ∈ nodes → isEntered n → LivePath fs n.id path stop →
      LivePath fs dir (n :: path) stop

lemma readDir_of_mem_nodesOf {fs : FatFs} {dir : FileId} {n : Node} (hn : n ∈ nodesOf fs dir) :
    fs.readDir dir = .ok (nodesOf fs dir) := by
  rw [nodesOf] at hn ⊢
  cases h : fs.readDir dir with
  | error e =>
    rw [h] at hn
    exact absurd hn (by simp)
  | ok nodes => rfl

/-- The paths of the search are live paths. -/
lemma exists_livePath {fs : FatFs} {k : ℕ} {dir : FileId} {p : List (Step UInt32 FileId)}
    (hp : p ∈ paths (walkItems fs) k dir) :
    ∃ path, LivePath fs dir path (target dir p) ∧ path.length = p.length := by
  induction k generalizing dir p with
  | zero =>
    rw [paths, List.mem_singleton] at hp
    subst hp
    exact ⟨[], .nil dir, rfl⟩
  | succ k ih =>
    rw [paths] at hp
    rcases List.mem_cons.mp hp with rfl | hp
    · exact ⟨[], .nil dir, rfl⟩
    obtain ⟨⟨x, j⟩, hx, hp⟩ := List.mem_flatMap.mp hp
    cases x with
    | report o => exact absurd hp (by simp [through])
    | descend key next =>
      obtain ⟨q, hq, rfl⟩ := List.mem_map.mp hp
      obtain ⟨n, hn, hent, -, rfl⟩ := exists_node_of_descend (List.fst_mem_of_mem_zipIdx hx)
      obtain ⟨path, hpath, hlen⟩ := ih hq
      rw [target_cons]
      exact ⟨n :: path, .cons (readDir_of_mem_nodesOf hn) hn hent hpath,
        by rw [List.length_cons, List.length_cons, hlen]⟩

end Audit
end FatForensic
