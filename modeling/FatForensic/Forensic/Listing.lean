import FatForensic.Core.Cli
import FatForensic.Forensic.Walk
import FatForensic.Lib.Hierarchy
import FatForensic.Volume.Synth

/-!
# The listing of the command line

`list` prints what live directories lead to, to a depth of 64.  It remembers no directory that it
has been to: what the auditor finds is listed, and where directories lead back to each other the
listing doubles at every level.
-/

namespace FatForensic
namespace Cli

open Audit DepthSearch Hierarchy

/-- A node that the listing has a line for. -/
def isShown (n : Node) : Bool := n.name ≠ "." ∧ n.name ≠ ".." ∧ ¬ n.isVolumeLabel

/-- The directory that the listing goes down to at a node. -/
def descent (n : Node) : Option FileId := if n.isDir ∧ ¬ n.isDeleted then some n.id else none

/-- The nodes that the listing has lines for in a directory, with what they lead to. -/
def rows (fs : FatFs) (dir : FileId) : List (Node × Option FileId) :=
  ((nodesOf fs dir).filter isShown).map fun n => (n, descent n)

variable {fs : FatFs}

lemma mem_rows {dir : FileId} {n : Node} {next : Option FileId} :
    (n, next) ∈ rows fs dir ↔ n ∈ nodesOf fs dir ∧ isShown n ∧ next = descent n := by
  simp only [rows, List.mem_map, List.mem_filter, Prod.mk.injEq]
  constructor
  · rintro ⟨m, ⟨hm, hshown⟩, rfl, rfl⟩
    exact ⟨hm, hshown, rfl⟩
  · rintro ⟨hn, hshown, rfl⟩
    exact ⟨n, ⟨hn, hshown⟩, rfl, rfl⟩

/-- **The listing is the preorder** of what the directories list. -/
lemma list_eq (fs : FatFs) (levels depth : ℕ) (dir : FileId) :
    list fs levels depth dir
      = (preorder (rows fs) levels depth dir).map fun p => line p.1 p.2 := by
  induction levels generalizing depth dir with
  | zero => rfl
  | succ levels ih =>
    have hnode : ∀ n, listNode (list fs levels (depth + 1)) depth n
        = if isShown n then line depth n :: (descent n).elim [] (list fs levels (depth + 1))
          else [] := by
      intro n
      by_cases hshown : isShown n = true
      · have hnot : ¬ (n.name = "." ∨ n.name = ".." ∨ n.isVolumeLabel = true) := by
          simpa [isShown] using hshown
        rw [listNode, if_neg hnot, if_pos hshown, descent]
        split <;> rfl
      · have hskip : n.name = "." ∨ n.name = ".." ∨ n.isVolumeLabel = true := by
          by_contra hnot
          exact hshown (by simpa [isShown] using hnot)
        rw [listNode, if_pos hskip, if_neg hshown]
    have hflat : ∀ nodes : List Node, nodes.flatMap (listNode (list fs levels (depth + 1)) depth)
        = (((nodes.filter isShown).map fun n => (n, descent n)).flatMap fun row =>
            (depth, row.1) :: row.2.elim [] (preorder (rows fs) levels (depth + 1))).map
              fun p => line p.1 p.2 := by
      intro nodes
      induction nodes with
      | nil => rfl
      | cons n nodes ihn =>
        rw [List.flatMap_cons, ihn, hnode, List.filter_cons]
        by_cases hshown : isShown n = true
        · rw [if_pos hshown, if_pos hshown, List.map_cons, List.flatMap_cons, List.map_append,
            List.map_cons, List.cons_append]
          congr 2
          cases descent n with
          | none => rfl
          | some next => exact ih (depth + 1) next
        · rw [if_neg hshown, if_neg hshown, List.nil_append]
    rw [list, preorder_succ, rows, nodesOf]
    cases fs.readDir dir with
    | error e => rfl
    | ok nodes => exact hflat nodes

/-! ## What the auditor finds is listed -/

/-- Where a live path leads, the listing does. -/
lemma leadsTo_of_livePath {dir stop : FileId} {path : List Node} (h : LivePath fs dir path stop) :
    LeadsTo (rows fs) path.length dir stop := by
  induction h with
  | nil dir => exact .here dir
  | @cons dir stop nodes path n hread hn he _ ih =>
    simp only [isEntered, decide_eq_true_eq] at he
    obtain ⟨h1, h2, hlive, hdir, hlabel⟩ := he
    have hrow : (n, some n.id) ∈ rows fs dir := by
      refine mem_rows.mpr
        ⟨by rw [nodesOf_eq hread]; exact hn, by simp [isShown, h1, h2, hlabel], ?_⟩
      rw [descent, if_pos ⟨hdir, hlive⟩]
    exact .down hrow ih

/-- **What the auditor finds, the listing shows.**  Every finding of a deleted entry, on any volume
that opens, is one of a deleted node that a directory at the end of a live path lists, and the
listing has a line for it at the depth of this path, unless the node is a volume label. -/
theorem line_mem_list_of_finding {img : List UInt8} (hopen : FatFs.openImage img = .ok fs)
    {anoms : List Anomaly} (haudit : auditReader img = .ok anoms) {a : Anomaly} (ha : a ∈ anoms)
    (hdel : isDeletedFinding a = true) :
    ∃ path dir nodes n, LivePath fs FatFs.root path dir ∧ path.length < LIST_DEPTH ∧
      fs.readDir dir = .ok nodes ∧ n ∈ nodes ∧ n.isDeleted = true ∧
      a = .new (.deletedDirectoryEntry n.name) ∧
      (n.isVolumeLabel = false → line path.length n ∈ list fs LIST_DEPTH 0 FatFs.root) := by
  rw [auditReader_eq hopen, Except.ok.injEq] at haudit
  subst haudit
  rcases mem_collectDeleted.mp ha with hstruct | ⟨dir, hdir, n, hn, hrep, rfl⟩
  · rw [not_isDeletedFinding_of_mem_structuralFindings hstruct] at hdel
    exact absurd hdel (by decide)
  simp only [isReported, decide_eq_true_eq] at hrep
  obtain ⟨h1, h2, hdeleted⟩ := hrep
  obtain ⟨p, hp, rfl⟩ := List.mem_map.mp hdir
  obtain ⟨hfirst, hlen⟩ := List.mem_filter.mp hp
  obtain ⟨path, hpath, hlength⟩ := exists_livePath (mem_paths_of_mem_firstPaths hfirst)
  have hlen : path.length < LIST_DEPTH := hlength ▸ of_decide_eq_true hlen
  refine ⟨path, _, _, n, hpath, hlen, readDir_of_mem_nodesOf hn, hn, hdeleted, rfl,
    fun hlabel => ?_⟩
  have hrow : (n, descent n) ∈ rows fs (target FatFs.root p) :=
    mem_rows.mpr ⟨hn, by simp [isShown, h1, h2, hlabel], rfl⟩
  rw [list_eq]
  refine List.mem_map.mpr ⟨(path.length, n), mem_preorder.mpr ⟨path.length, hlen, by omega, _,
    leadsTo_of_livePath hpath, _, hrow⟩, rfl⟩

/-- The deleted file of the nested volume is found, and listed. -/
theorem line_mem_list_of_finding_nested :
    ∃ path dir nodes n, LivePath Synth.nested.reader FatFs.root path dir ∧
      path.length < LIST_DEPTH ∧ Synth.nested.reader.readDir dir = .ok nodes ∧ n ∈ nodes ∧
      n.isDeleted = true ∧ Anomaly.new (.deletedDirectoryEntry "?ååååååå.ååå")
        = .new (.deletedDirectoryEntry n.name) ∧
      (n.isVolumeLabel = false →
        line path.length n ∈ list Synth.nested.reader LIST_DEPTH 0 FatFs.root) :=
  line_mem_list_of_finding Synth.nested.openImage_image
    (show auditReader Synth.nested.image
      = .ok ((auditReader Synth.nested.image).toOption.getD []) by decide +kernel)
    (by decide +kernel) rfl

/-! ## Where the two walks agree -/

/-- The live directories of a listing. -/
def listedDirs (fs : FatFs) : List Node :=
  ((preorder (rows fs) LIST_DEPTH 0 FatFs.root).map Prod.snd).filter fun n => (descent n).isSome

/-- The deleted nodes of a listing. -/
def listedDeleted (fs : FatFs) : List Node :=
  ((preorder (rows fs) LIST_DEPTH 0 FatFs.root).map Prod.snd).filter Node.isDeleted

/-- Below the root, no deleted entry is a volume label. -/
def NoDeletedLabel (fs : FatFs) (levels : ℕ) (dir : FileId) : Prop :=
  ∀ i < levels, ∀ d, LeadsTo (rows fs) i dir d →
    ∀ n ∈ nodesOf fs d, n.isDeleted = true → n.isVolumeLabel = false

/-- What the walk meets in one directory, by the rows of the listing. -/
lemma nodeItem_cases (n : Node) (hlabel : n.isDeleted = true → n.isVolumeLabel = false) :
    (nodeItem n = some (.report (deletedFinding n)) ∧ isShown n ∧ n.isDeleted = true) ∨
      (nodeItem n = some (.descend n.firstCluster n.id) ∧ isShown n ∧ n.isDeleted = false ∧
        n.isDir = true) ∨
      (nodeItem n = none ∧ (isShown n → n.isDeleted = false ∧ n.isDir = false)) := by
  by_cases hdot : n.name = "." ∨ n.name = ".."
  · refine Or.inr (Or.inr ⟨?_, fun hshown => ?_⟩)
    · have hr : isReported n = false := by rcases hdot with h | h <;> simp [isReported, h]
      have he : isEntered n = false := by rcases hdot with h | h <;> simp [isEntered, h]
      simp [nodeItem, hr, he]
    · rcases hdot with h | h <;> simp [isShown, h] at hshown
  obtain ⟨h1, h2⟩ := not_or.mp hdot
  by_cases hdel : n.isDeleted = true
  · exact Or.inl ⟨by simp [nodeItem, isReported, h1, h2, hdel],
      by simp [isShown, h1, h2, hlabel hdel], hdel⟩
  · have hlive : n.isDeleted = false := by simpa using hdel
    by_cases hdir : n.isDir = true ∧ ¬ n.isVolumeLabel = true
    · exact Or.inr (Or.inl ⟨by simpa [nodeItem, isReported, isEntered, h1, h2, hlive] using hdir,
        by simpa [isShown, h1, h2] using hdir.2, hlive, hdir.1⟩)
    · refine Or.inr (Or.inr ⟨?_, fun hshown => ⟨hlive, ?_⟩⟩)
      · simpa [nodeItem, isReported, isEntered, h1, h2, hlive] using hdir
      · have hlab : ¬ n.isVolumeLabel = true := by simpa [isShown, h1, h2] using hshown
        simpa using fun h => hdir ⟨h, hlab⟩

/-- What the walk meets is what the listing shows: its reports are the deleted nodes, and its keys
the first clusters of the live directories. -/
lemma below_walkItems {levels : ℕ} (depth : ℕ) {dir : FileId}
    (h : NoDeletedLabel fs levels dir) :
    reportsBelow (walkItems fs) levels dir
        = (((preorder (rows fs) levels depth dir).map Prod.snd).filter Node.isDeleted).map
            deletedFinding ∧
      keysBelow (walkItems fs) levels dir
        = (((preorder (rows fs) levels depth dir).map Prod.snd).filter
            fun n => (descent n).isSome).map Node.firstCluster := by
  induction levels generalizing depth dir with
  | zero => exact ⟨rfl, rfl⟩
  | succ levels ih =>
    rw [reportsBelow, keysBelow, preorder_succ, walkItems]
    have hrows : ∀ n ∈ nodesOf fs dir, (n.isDeleted = true → n.isVolumeLabel = false) ∧
        (isShown n → n.isDir = true → n.isDeleted = false → NoDeletedLabel fs levels n.id) := by
      intro n hn
      refine ⟨h 0 levels.succ_pos dir (.here dir) n hn, fun hshown hdir hlive i hi d hd m hm => ?_⟩
      have hrow : (n, some n.id) ∈ rows fs dir :=
        mem_rows.mpr ⟨hn, hshown, by rw [descent, if_pos ⟨hdir, by simp [hlive]⟩]⟩
      exact h (i + 1) (by omega) d (.down hrow hd) m hm
    rw [rows]
    generalize nodesOf fs dir = nodes at hrows
    induction nodes with
    | nil => exact ⟨rfl, rfl⟩
    | cons n nodes ihn =>
      obtain ⟨ihr, ihk⟩ := ihn fun m hm => hrows m (List.mem_cons_of_mem _ hm)
      obtain ⟨hlabel, hbelow⟩ := hrows n List.mem_cons_self
      rw [List.filterMap_cons, List.filter_cons]
      rcases nodeItem_cases n hlabel with
        ⟨hitem, hshown, hdel⟩ | ⟨hitem, hshown, hlive, hdir⟩ | ⟨hitem, hrest⟩
      · -- a deleted node: a report, and a line without a way down
        have hdescent : descent n = none := if_neg fun h => h.2 hdel
        simp only [hitem, if_pos hshown, List.map_cons, List.flatMap_cons, hdescent,
          Option.elim_none, List.filter_cons, hdel, if_true, Option.isSome_none, Bool.false_eq_true,
          if_false, ihr, ihk,
          List.nil_append, List.cons_append]
        exact ⟨trivial, trivial⟩
      · -- a live directory: a key, and what lies below
        obtain ⟨hr, hk⟩ := ih (depth + 1) (hbelow hshown hdir hlive)
        have hdescent : descent n = some n.id := if_pos ⟨hdir, by simp [hlive]⟩
        simp only [hitem, if_pos hshown, List.map_cons, List.flatMap_cons, hdescent,
          Option.elim_some, List.map_append, List.filter_append, List.filter_cons, hlive,
          Bool.false_eq_true, if_false, Option.isSome_some, if_true, ihr, ihk, hr, hk,
          List.cons_append]
        exact ⟨trivial, trivial⟩
      · -- a node that the walk passes over: no line, or that of a file
        rw [hitem]
        by_cases hshown : isShown n = true
        · obtain ⟨hlive, hfile⟩ := hrest hshown
          have hdescent : descent n = none := if_neg fun h => by simp [hfile] at h
          simp only [if_pos hshown, List.map_cons, List.flatMap_cons, hdescent, Option.elim_none,
            List.map_append, List.filter_append, List.filter_cons, hlive, Bool.false_eq_true,
            if_false, List.filter_nil, List.map_nil, Option.isSome_none, ihr, ihk, List.nil_append]
          exact ⟨trivial, trivial⟩
        · rw [if_neg hshown]
          exact ⟨ihr, ihk⟩

/-- Where no first cluster is met twice, the audit reports all that lies below the root. -/
lemma auditReader_of_nodup {img : List UInt8} (hopen : FatFs.openImage img = .ok fs)
    (hnodup : (keysBelow (walkItems fs) LIST_DEPTH FatFs.root).Nodup) :
    auditReader img = .ok (structuralFindings img fs.geom
      ++ reportsBelow (walkItems fs) LIST_DEPTH FatFs.root) := by
  rw [auditReader_eq hopen, collectDeleted_eq_search, show MAX_DEPTH = LIST_DEPTH from rfl,
    search_of_nodup hnodup fun k _ => by simp]

/-- **Where the two walks agree.**  On a volume of which no two live directories in the listing have
the same first cluster, and no deleted entry is a volume label, the findings of the audit are
those of the structure, and then the deleted entries of the listing, each once and in its order. -/
theorem auditReader_eq_listing {img : List UInt8} (hopen : FatFs.openImage img = .ok fs)
    (hlabel : NoDeletedLabel fs LIST_DEPTH FatFs.root)
    (hnodup : ((listedDirs fs).map Node.firstCluster).Nodup) :
    auditReader img = .ok (structuralFindings img fs.geom
      ++ (listedDeleted fs).map deletedFinding) := by
  obtain ⟨hreports, hkeys⟩ := below_walkItems 0 hlabel
  rw [auditReader_of_nodup hopen (by rw [hkeys]; exact hnodup), hreports]
  rfl

/-- What the directories of the pruned volume list. -/
lemma rows_pruned :
    (∀ d ∈ [FileId.root, .entry 2 1], (∀ row ∈ rows Synth.pruned.reader d, ∀ b ∈ row.2,
        b ∈ [FileId.root, .entry 2 1]) ∧
      ∀ n ∈ nodesOf Synth.pruned.reader d, n.isDeleted = true → n.isVolumeLabel = false) ∧
      ((listedDirs Synth.pruned.reader).map Node.firstCluster).Nodup := by
  decide +kernel

/-- The audit of the pruned volume finds what its listing shows as deleted. -/
theorem auditReader_eq_listing_pruned :
    auditReader Synth.pruned.image
      = .ok (structuralFindings Synth.pruned.image Synth.pruned.reader.geom
        ++ (listedDeleted Synth.pruned.reader).map deletedFinding) := by
  obtain ⟨hdirs, hnodup⟩ := rows_pruned
  refine auditReader_eq_listing Synth.pruned.openImage_image (fun i hi d hd => ?_) hnodup
  clear hi
  have hmem : d ∈ [FileId.root, .entry 2 1] := by
    generalize hroot : FatFs.root = r at hd
    have hr : r ∈ [FileId.root, .entry 2 1] := by rw [← hroot]; exact List.mem_cons_self
    clear hroot
    induction hd with
    | here => exact hr
    | down hrow _ ih => exact ih ((hdirs _ hr).1 _ hrow _ rfl)
  exact (hdirs d hmem).2

end Cli
end FatForensic
