import FatForensic.Forensic.Listing
import FatForensic.Volume.Hierarchies

/-!
# The output on a stored volume

On a volume that stores a plan the command line writes the tree of the plan, and then, where the
audit enters every directory once, the deleted entries of the plan.  No cluster number and no
handle shows in the tree.
-/

namespace FatForensic
namespace Plan

open Cli Audit DepthSearch Hierarchy

variable {ρ κ : Type} (P : Plan ρ κ) (F : DirFormat ρ)

/-- The row of an item: its node, if the listing has a line for it, and where it leads. -/
def itemRow (x : ρ × Option κ) : Option (Node × Option κ) :=
  (F.body x.1).bind fun b =>
    if isShown b then some (b, if b.isDir ∧ ¬ b.isDeleted then x.2 else none) else none

/-- The nodes of an object that a listing has lines for, with the objects that they lead to. -/
def rows (k : κ) : List (Node × Option κ) :=
  match P.content k with
  | .file _ => []
  | .dir items _ => items.filterMap (itemRow F)

/-- The nodes of the tree of the plan, with their depths. -/
def tree : List (ℕ × Node) := preorder (rows P F) LIST_DEPTH 0 P.root

variable {P F} {img : List UInt8} {fs : FatFs}

/-- Two rows agree but for the handle: they lead to a handle and to the object that it shows. -/
def RowRel (P : Plan ρ κ) (fs : FatFs) (row : Node × Option FileId) (row' : Node × Option κ) :
    Prop :=
  (∃ marker i, row.1 = row'.1.at marker i) ∧ Option.Rel (P.Shows fs) row.2 row'.2

/-- The rows of a listing are those of the items. -/
lemma rowRel_items {items : List (ρ × Option κ)}
    (hitems : ∀ r, (∀ j, (r, some j) ∈ items → ∃ n, F.body r = some n ∧ P.Names n j) ∧
      ((r, none) ∈ items → ∀ n, F.body r = some n →
        n.isDeleted = true ∨ n.isVolumeLabel = true ∨ n.IsDot))
    (marker : UInt32) (i : ℕ)
    (hmeta : ∀ n ∈ F.nodesFrom marker i (items.map Prod.fst), fs.nodeMeta n.id = .ok n) :
    List.Forall₂ (RowRel P fs)
      (((F.nodesFrom marker i (items.map Prod.fst)).filter isShown).map fun n => (n, descent n))
      (items.filterMap (itemRow F)) := by
  induction items generalizing i with
  | nil => exact .nil
  | cons x items ih =>
    obtain ⟨r, o⟩ := x
    rw [List.map_cons, DirFormat.nodesFrom] at hmeta ⊢
    have ih := ih (fun r' => ⟨fun j hj => (hitems r').1 j (List.mem_cons_of_mem _ hj),
      fun hj => (hitems r').2 (List.mem_cons_of_mem _ hj)⟩) (i + (F.slots r).length)
      fun n hn => hmeta n (List.mem_append_right _ hn)
    rw [List.filterMap_cons]
    cases hb : F.body r with
    | none =>
      rw [itemRow, hb]
      exact ih
    | some b =>
      rw [hb] at hmeta
      have hnode := hmeta (b.at marker (i + F.lead r)) (by simp)
      rw [Option.map_some, Option.toList_some, List.singleton_append, List.filter_cons,
        show isShown (b.at marker (i + F.lead r)) = isShown b from rfl, itemRow, hb,
        Option.bind_some]
      by_cases hshown : isShown b = true
      · rw [if_pos hshown, if_pos hshown, List.map_cons]
        refine .cons ⟨⟨_, _, rfl⟩, ?_⟩ ih
        change Option.Rel _ (if b.isDir ∧ ¬ b.isDeleted then some _ else none) _
        by_cases hdown : b.isDir ∧ ¬ b.isDeleted
        · rw [if_pos hdown, if_pos hdown]
          cases o with
          | none =>
            -- a live directory that is shown has an object
            have hother := (hitems r).2 List.mem_cons_self b hb
            simp only [isShown, decide_eq_true_eq] at hshown
            rcases hother with hdel | hlabel | hdot | hdot
            · exact absurd hdel hdown.2
            · exact absurd hlabel hshown.2.2
            · exact absurd hdot hshown.1
            · exact absurd hdot hshown.2.1
          | some j =>
            obtain ⟨b', hb', hnames⟩ := (hitems r).1 j List.mem_cons_self
            rw [hb, Option.some.injEq] at hb'
            subst hb'
            exact .some (shows_of_names hnode (hnames.at _ _) ⟨_, _, rfl⟩)
        · rw [if_neg hdown, if_neg hdown]
          exact .none
      · rw [if_neg hshown, if_neg hshown]
        exact ih

/-- **The rows of a handle are those of the object that it shows.** -/
lemma Shows.rows {id : FileId} {k : κ} (hid : P.Shows fs id k) (h : P.StoredIn F img fs.geom)
    (hopen : FatFs.openImage img = .ok fs) (hF : fs.HasFormat F) :
    List.Forall₂ (RowRel P fs) (Cli.rows fs id) (rows P F k) := by
  cases hcontent : P.content k with
  | file bytes =>
    obtain ⟨name, hread⟩ := hid.readDir_file h hcontent
    rw [Cli.rows, nodesOf, hread, Plan.rows, hcontent]
    exact .nil
  | dir items tail =>
    obtain ⟨marker, hread, hmeta⟩ := hid.readDir h hopen hF.reads hcontent
    rw [Cli.rows, nodesOf_eq hread, Plan.rows, hcontent]
    exact rowRel_items (h.items k items tail hcontent) marker 0 hmeta

/-- The lines of a listing and of the tree of a plan, each at its depth. -/
lemma StoredIn.forall₂_preorder (h : P.StoredIn F img fs.geom)
    (hopen : FatFs.openImage img = .ok fs) (hF : fs.HasFormat F) :
    List.Forall₂ (fun p p' => p.1 = p'.1 ∧ ∃ marker i, p.2 = p'.2.at marker i)
      (preorder (Cli.rows fs) LIST_DEPTH 0 FatFs.root) (tree P F) :=
  preorder_rel (R := P.Shows fs) (S := fun n (n' : Node) => ∃ marker i, n = n'.at marker i)
    (fun _ _ hid => hid.rows h hopen hF) LIST_DEPTH 0 .root

/-- What does not depend on the handles is the same for the listing and for the tree. -/
lemma StoredIn.filterMap_preorder (h : P.StoredIn F img fs.geom)
    (hopen : FatFs.openImage img = .ok fs) (hF : fs.HasFormat F) {α : Type}
    {f : ℕ × Node → Option α} (hf : ∀ d n marker i, f (d, n.at marker i) = f (d, n)) :
    (preorder (Cli.rows fs) LIST_DEPTH 0 FatFs.root).filterMap f = (tree P F).filterMap f := by
  have hrel := h.forall₂_preorder hopen hF
  generalize preorder (Cli.rows fs) LIST_DEPTH 0 FatFs.root = ps, tree P F = ps' at hrel
  induction hrel with
  | nil => rfl
  | @cons p p' ps ps' hp _ ih =>
    obtain ⟨d, n⟩ := p
    obtain ⟨d', n'⟩ := p'
    obtain ⟨rfl, marker, i, hn⟩ := hp
    change n = n'.at marker i at hn
    rw [List.filterMap_cons, List.filterMap_cons, ih, hn, hf]

/-! ## The tree and the findings -/

/-- **The listing of a stored volume** is the tree of the plan. -/
lemma StoredIn.list_eq (h : P.StoredIn F img fs.geom) (hopen : FatFs.openImage img = .ok fs)
    (hF : fs.HasFormat F) :
    list fs LIST_DEPTH 0 FatFs.root = (tree P F).map fun p => line p.1 p.2 := by
  rw [Cli.list_eq, ← List.filterMap_eq_map]
  exact h.filterMap_preorder hopen hF fun _ _ _ _ => rfl

/-- What a listing and the tree have of a kind of nodes, but for the handles. -/
lemma StoredIn.map_filter_preorder (h : P.StoredIn F img fs.geom)
    (hopen : FatFs.openImage img = .ok fs) (hF : fs.HasFormat F) {α : Type} {p : Node → Bool}
    {g : Node → α} (hp : ∀ n marker i, p (n.at marker i) = p n)
    (hg : ∀ n marker i, g (n.at marker i) = g n) :
    (((preorder (Cli.rows fs) LIST_DEPTH 0 FatFs.root).map Prod.snd).filter p).map g
      = (((tree P F).map Prod.snd).filter p).map g := by
  have hmap : ∀ l : List (ℕ × Node), ((l.map Prod.snd).filter p).map g
      = l.filterMap fun x => if p x.2 then some (g x.2) else none := by
    intro l
    induction l with
    | nil => rfl
    | cons x l ih =>
      rw [List.map_cons, List.filter_cons, List.filterMap_cons, ← ih]
      by_cases hx : p x.2 = true
      · simp only [if_pos hx, List.map_cons]
      · simp only [if_neg hx]
  rw [hmap, hmap]
  exact h.filterMap_preorder hopen hF fun d n marker i => by rw [hp, hg]

/-- The first clusters of the live directories of the tree. -/
def treeClusters (P : Plan ρ κ) (F : DirFormat ρ) : List UInt32 :=
  (((tree P F).map Prod.snd).filter fun b => b.isDir ∧ ¬ b.isDeleted).map Node.firstCluster

/-- The deleted nodes of the tree. -/
def treeDeleted (P : Plan ρ κ) (F : DirFormat ρ) : List Node :=
  ((tree P F).map Prod.snd).filter Node.isDeleted

/-- No deleted record of the plan is a volume label. -/
def NoDeletedLabel (P : Plan ρ κ) (F : DirFormat ρ) : Prop :=
  ∀ k items tail, P.content k = .dir items tail → ∀ x ∈ items, ∀ b, F.body x.1 = some b →
    b.isDeleted = true → b.isVolumeLabel = false

/-- The nodes that a handle lists are those of the records. -/
lemma Shows.noDeletedLabel {id : FileId} {k : κ} (hid : P.Shows fs id k)
    (h : P.StoredIn F img fs.geom) (hopen : FatFs.openImage img = .ok fs) (hF : fs.HasFormat F)
    (hlabel : NoDeletedLabel P F) :
    ∀ n ∈ nodesOf fs id, n.isDeleted = true → n.isVolumeLabel = false := by
  intro n hn hdel
  cases hcontent : P.content k with
  | file bytes =>
    obtain ⟨name, hread⟩ := hid.readDir_file h hcontent
    rw [nodesOf, hread] at hn
    exact absurd hn (by simp)
  | dir items tail =>
    obtain ⟨marker, hread, -⟩ := hid.readDir h hopen hF.reads hcontent
    rw [nodesOf_eq hread] at hn
    obtain ⟨r, hr, b, i, hb, rfl⟩ := DirFormat.mem_nodesFrom hn
    obtain ⟨x, hx, rfl⟩ := List.mem_map.mp hr
    exact hlabel k items tail hcontent x hx b hb hdel

/-- **The audit of a stored volume**: the findings of the structure, and the deleted entries of the
tree in its order, where no two directories of the tree have the same first cluster. -/
lemma StoredIn.auditReader_eq (h : P.StoredIn F img fs.geom)
    (hopen : FatFs.openImage img = .ok fs) (hF : fs.HasFormat F) (hlabel : NoDeletedLabel P F)
    (hnodup : (treeClusters P F).Nodup) :
    auditReader img = .ok (structuralFindings img fs.geom
      ++ (treeDeleted P F).map deletedFinding) := by
  have hnone : Cli.NoDeletedLabel fs LIST_DEPTH FatFs.root := by
    intro i _ d hd
    obtain ⟨k, -, hid⟩ := hd.rel (R := P.Shows fs)
      (S := fun n (n' : Node) => ∃ marker i, n = n'.at marker i)
      (fun _ _ hid => hid.rows h hopen hF) .root
    exact hid.noDeletedLabel h hopen hF hlabel
  obtain ⟨hreports, hkeys⟩ := below_walkItems 0 hnone
  have hclusters : keysBelow (walkItems fs) LIST_DEPTH FatFs.root = treeClusters P F := by
    have hdescent : (fun n => (descent n).isSome) = fun b => decide (b.isDir ∧ ¬ b.isDeleted) := by
      funext n
      rw [descent]
      split <;> simp_all
    rw [hkeys, hdescent]
    exact h.map_filter_preorder hopen hF (fun _ _ _ => rfl) fun _ _ _ => rfl
  rw [auditReader_of_nodup hopen (by rw [hclusters]; exact hnodup), hreports]
  exact congrArg _ (congrArg _
    (h.map_filter_preorder hopen hF (fun _ _ _ => rfl) fun _ _ _ => rfl))

/-- **The output on a stored volume** is a function of the plan, of the variant, and of what the
audit finds in the boot region and the FAT copies: the tree of the plan, and the findings with the
deleted entries of the tree. -/
theorem run_eq_of_storedIn {beyond : Char → Bool} {debugSeverity : Severity → String}
    {openFile : String → Except String (List UInt8)} {path : String}
    (hfile : openFile path = .ok img) (hopen : FatFs.openImage img = .ok fs) (hF : fs.HasFormat F)
    (h : P.StoredIn F img fs.geom) (hlabel : NoDeletedLabel P F)
    (hnodup : (treeClusters P F).Nodup) :
    run beyond debugSeverity openFile path =
      (0, s!"variant: {debugVariant fs.geom.variant}" :: "files:" ::
        (tree P F).map (fun p => line p.1 p.2) ++ "anomalies:" ::
          auditLines beyond debugSeverity (.ok (structuralFindings img fs.geom
            ++ (treeDeleted P F).map deletedFinding))) := by
  have haudit : auditPath openFile path = auditReader img := by rw [auditPath, hfile]
  rw [run, hfile]
  dsimp only
  rw [hopen]
  dsimp only
  rw [h.list_eq hopen hF, haudit, h.auditReader_eq hopen hF hlabel hnodup]

/-- The one file that can be opened holds the FAT sample. -/
def openSample (path : String) : Except String (List UInt8) :=
  if path = "usb.img" then .ok sampleVolume.image else .error "No such file or directory"

lemma noDeletedLabel_sample : NoDeletedLabel samplePlan fatFormat := by
  intro k items tail hk x hx b hb _
  obtain ⟨rfl, hk⟩ | ⟨rfl, hk⟩ := dirs_sample hk
  all_goals
    cases hk
    fin_cases hx <;> cases hb <;> rfl

/-- The format `{:?}` of a severity. -/
def debugSample : Severity → String
  | .info => "Info"
  | .medium => "Medium"
  | .high => "High"

/-- The output on the FAT sample, whose names have no character beyond U+00FF. -/
theorem run_eq_of_storedIn_sample :
    run (fun _ => false) debugSample openSample "usb.img" =
      (0, s!"variant: {debugVariant sampleVolume.reader.geom.variant}" :: "files:" ::
        (tree samplePlan fatFormat).map (fun p => line p.1 p.2) ++ "anomalies:" ::
          auditLines (fun _ => false) debugSample (.ok (structuralFindings sampleVolume.image
            sampleVolume.reader.geom ++ (treeDeleted samplePlan fatFormat).map deletedFinding))) :=
  run_eq_of_storedIn rfl sampleVolume.openImage_image hasFormat_sample storedIn_sample
    noDeletedLabel_sample (by decide +kernel)

example : (run (fun _ => false) debugSample openSample "usb.img").2 =
    ["variant: Fat12", "files:", "  A (521 bytes)", "  AB/", "    AC (0 bytes)",
      "    aaaaaaaaaaaaaa (3 bytes)", "    ?E (100 bytes) (deleted)", "anomalies:",
      "  [Info] FAT-DIR-ENTRY-DELETED: deleted directory entry present: \"?E\" (recovery lead)"]
    := by
  decide +kernel

end Plan
end FatForensic
