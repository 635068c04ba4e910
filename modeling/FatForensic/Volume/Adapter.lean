import FatForensic.Volume.Addresses
import FatForensic.Volume.Hierarchies

/-!
# The adapter presents the reader

A caller of the adapter has no addresses but those that it was given.  Whatever it asks for, one
call after the other, is what the reader answers for the handles; and what the adapter shows of a
stored volume are the objects of the plan, with their names, kinds, sizes and contents.
-/

namespace FatForensic
namespace Vfs

open Window Extent Hierarchy

variable {Other Stream : Type} (debug : Other → String) (debugStream : Stream → String)

/-! ## Sessions -/

/-- A call of the interface on a node. -/
inductive Call (Stream : Type) where
  | readDir
  | lookup (name : List UInt8)
  | nodeMeta
  | extents (stream : StreamId Stream)
  | readAt (stream : StreamId Stream) (off : ℕ) (buf : List UInt8)
  | readLink (cap : ℕ)

/-- What a call gives, over the identities `ι` of nodes. -/
inductive Answer (ι : Type) where
  | entries (entries : List (List UInt8 × ι × NodeKind))
  | found (id : Option ι)
  | info (info : FsMeta)
  | runs (runs : List RunInfo)
  | data (count : ℕ) (buf : List UInt8)
  | target (bytes : List UInt8)
  | refused (e : VfsError)

namespace Answer

variable {ι ι' : Type}

/-- The answer with other identities. -/
def map (f : ι → ι') : Answer ι → Answer ι'
  | entries es => .entries (es.map fun e => (e.1, f e.2.1, e.2.2))
  | found id => .found (id.map f)
  | info m => .info m
  | runs rs => .runs rs
  | data count buf => .data count buf
  | target bytes => .target bytes
  | refused e => .refused e

/-- The identities that an answer gives. -/
def ids : Answer ι → List ι
  | entries es => es.map fun e => e.2.1
  | found id => id.toList
  | _ => []

/-- The answer to a call that may fail. -/
def of {α : Type} (f : α → Answer ι) : Except VfsError α → Answer ι
  | .ok a => f a
  | .error e => .refused e

lemma of_map {α β : Type} (f : β → Answer ι) (g : α → β) (r : Except VfsError α) :
    of f (r.map g) = of (fun a => f (g a)) r := by
  cases r <;> rfl

lemma map_of {α : Type} (g : ι → ι') (f : α → Answer ι) (r : Except VfsError α) :
    (of f r).map g = of (fun a => (f a).map g) r := by
  cases r <;> rfl

lemma ids_map (f : ι → ι') (r : Answer ι) : (r.map f).ids = r.ids.map f := by
  cases r with
  | entries es => simp [map, ids]
  | found id => cases id <;> rfl
  | _ => rfl

end Answer

/-- What the adapter answers. -/
def answer (fs : FatFs) (ino : VfsId Other) : Call Stream → Answer (VfsId Other)
  | .readDir => .of (fun es => .entries (es.map fun e => (e.name, e.id, e.kind)))
      (readDir debug fs ino)
  | .lookup name => .of .found (lookup debug fs ino name)
  | .nodeMeta => .of .info (nodeMeta debug fs ino)
  | .extents stream => .of .runs (extents debug debugStream fs ino stream)
  | .readAt stream off buf => .of (fun r => .data r.1 r.2)
      (readAt debug debugStream fs ino stream off buf)
  | .readLink cap => .of .target (readLink ino cap)

/-- A node that the adapter lists. -/
def isListed (n : Node) : Bool :=
  !n.isDeleted && !n.isVolumeLabel && n.name != "." && n.name != ".."

/-- What the reader has to say to a call on the node of a handle. -/
def readerAnswer (fs : FatFs) (id : FileId) : Call Stream → Answer FileId
  | .readDir => .of (fun nodes => .entries ((nodes.filter isListed).map fun n =>
      (n.nameBytes, n.id, nodeKind n))) (lift (fs.readDir id))
  | .lookup name => .of .found (lift (fs.lookup id name))
  | .nodeMeta => .of (fun n => .info (buildMeta id n)) (lift (fs.nodeMeta id))
  | .extents .default => .of (fun rs => .runs (rs.map fun r => ⟨r.1, r.2⟩)) (lift (fs.runs id))
  | .readAt .default off buf => .of (fun r => .data r.1 r.2) (lift (fs.readAt id off buf))
  | .extents (.other s) => .refused (.unsupported "fat stream" (debugStream s))
  | .readAt (.other s) _ _ => .refused (.unsupported "fat stream" (debugStream s))
  | .readLink _ => .target []

/-- The calls with their answers of a caller that knows some identities, and of each answer the
ones that it gives; a call is on the node of a known identity, by its position. -/
def session {ι : Type} (answer : ι → Call Stream → Answer ι) :
    List ι → List (ℕ × Call Stream) → List (Call Stream × Answer ι)
  | _, [] => []
  | known, (i, call) :: calls =>
    match known[i]? with
    | none => session answer known calls
    | some id => (call, answer id call) :: session answer (known ++ (answer id call).ids) calls

variable {fs : FatFs}

/-! ## One call -/

section Calls

variable {ino : VfsId Other} {id : FileId} (hfrom : fromVfsId debug ino = .ok id)
include hfrom

lemma readDir_eq : readDir debug fs ino = (lift (fs.readDir id)).map fun nodes =>
    (nodes.filter isListed).map fun n => ⟨n.nameBytes, toVfsId n.id, nodeKind n⟩ := by
  rw [readDir, hfrom]
  dsimp only [bind, Except.bind]
  cases fs.readDir id <;> rfl

lemma lookup_eq (name : List UInt8) :
    lookup debug fs ino name = (lift (fs.lookup id name)).map (Option.map toVfsId) := by
  rw [lookup, hfrom]
  dsimp only [bind, Except.bind]
  cases fs.lookup id name <;> rfl

lemma nodeMeta_eq : nodeMeta debug fs ino = (lift (fs.nodeMeta id)).map (buildMeta id) := by
  rw [nodeMeta, hfrom]
  dsimp only [bind, Except.bind]
  cases fs.nodeMeta id <;> rfl

lemma extents_default : extents debug debugStream fs ino .default
    = (lift (fs.runs id)).map fun runs => runs.map fun r => ⟨r.1, r.2⟩ := by
  rw [extents, hfrom]
  dsimp only [requireDefault, bind, Except.bind]
  cases fs.runs id <;> rfl

lemma readAt_default (off : ℕ) (buf : List UInt8) :
    readAt debug debugStream fs ino .default off buf = lift (fs.readAt id off buf) := by
  rw [readAt, hfrom]
  rfl

end Calls

/-- One call on the address of a handle gets what the reader answers for the handle. -/
lemma answer_toVfsId {id : FileId} (hnav : fs.Navigated id) (call : Call Stream) :
    answer debug debugStream fs (toVfsId id) call
      = (readerAnswer debugStream fs id call).map toVfsId := by
  have hfrom : fromVfsId debug (toVfsId id) = .ok id := fromVfsId_toVfsId debug hnav
  cases call with
  | readDir =>
    rw [answer, readerAnswer, readDir_eq debug hfrom, Answer.of_map, Answer.map_of]
    simp only [Answer.map, List.map_map, Function.comp_def]
  | lookup name =>
    rw [answer, readerAnswer, lookup_eq debug hfrom, Answer.of_map, Answer.map_of]
    rfl
  | nodeMeta =>
    rw [answer, readerAnswer, nodeMeta_eq debug hfrom, Answer.of_map, Answer.map_of]
    rfl
  | extents stream =>
    cases stream with
    | default =>
      rw [answer, readerAnswer, extents_default debug debugStream hfrom, Answer.of_map,
        Answer.map_of]
      rfl
    | other s => rfl
  | readAt stream off buf =>
    cases stream with
    | default =>
      rw [answer, readerAnswer, readAt_default debug debugStream hfrom, Answer.map_of]
      rfl
    | other s => rfl
  | readLink cap => rfl

/-- The reader gives handles that navigation leads to. -/
lemma navigated_of_mem_ids {id j : FileId} (hnav : fs.Navigated id) {call : Call Stream}
    (hj : j ∈ (readerAnswer debugStream fs id call).ids) : fs.Navigated j := by
  cases call with
  | readDir =>
    rw [readerAnswer] at hj
    cases hread : fs.readDir id with
    | error e => simp [hread, lift, Answer.of, Answer.ids] at hj
    | ok nodes =>
      simp only [hread, lift, Answer.of, Answer.ids, List.map_map, List.mem_map] at hj
      obtain ⟨n, hn, rfl⟩ := hj
      exact .step hnav hread (List.mem_filter.mp hn).1
  | lookup name =>
    rw [readerAnswer, FatFs.lookup] at hj
    cases hread : fs.readDir id with
    | error e => simp [hread, lift, bind, Except.bind, Answer.of, Answer.ids] at hj
    | ok nodes =>
      simp only [hread, lift, bind, Except.bind, Answer.of, Answer.ids, Option.mem_toList,
        Option.map_eq_some_iff] at hj
      obtain ⟨n, hn, rfl⟩ := hj
      exact .step hnav hread (List.mem_of_find?_eq_some hn)
  | nodeMeta =>
    rw [readerAnswer] at hj
    cases h : fs.nodeMeta id <;> simp [h, lift, Answer.of, Answer.ids] at hj
  | extents stream =>
    cases stream with
    | default =>
      rw [readerAnswer] at hj
      cases h : fs.runs id <;> simp [h, lift, Answer.of, Answer.ids] at hj
    | other s => simp [readerAnswer, Answer.ids] at hj
  | readAt stream off buf =>
    cases stream with
    | default =>
      rw [readerAnswer] at hj
      cases h : fs.readAt id off buf <;> simp [h, lift, Answer.of, Answer.ids] at hj
    | other s => simp [readerAnswer, Answer.ids] at hj
  | readLink cap => simp [readerAnswer, Answer.ids] at hj

/-- A session of a caller that knows addresses of handles. -/
lemma session_map {known : List FileId} (hknown : ∀ id ∈ known, fs.Navigated id)
    (calls : List (ℕ × Call Stream)) :
    session (answer debug debugStream fs) (known.map toVfsId) calls
      = (session (readerAnswer debugStream fs) known calls).map fun e =>
        (e.1, e.2.map toVfsId) := by
  induction calls generalizing known with
  | nil => rfl
  | cons c calls ih =>
    obtain ⟨i, call⟩ := c
    rw [session, session, List.getElem?_map]
    cases hi : known[i]? with
    | none => exact ih hknown
    | some id =>
      have hnav := hknown id (List.mem_of_getElem? hi)
      have hgiven : ∀ j ∈ known ++ (readerAnswer debugStream fs id call).ids, fs.Navigated j :=
        fun j hj =>
          (List.mem_append.mp hj).elim (hknown j) (navigated_of_mem_ids debugStream hnav)
      have hrest := ih hgiven
      rw [List.map_append, ← Answer.ids_map] at hrest
      simp only [Option.map_some, List.map_cons, answer_toVfsId debug debugStream hnav, hrest]

/-! ## What is refused -/

/-- One step of navigation by addresses. -/
def step (fs : FatFs) (ino : VfsId Other) (name : List UInt8) : Option (VfsId Other) :=
  (lookup debug fs ino name).toOption.join

/-- Navigation from the root along the names of a path. -/
def resolvePath (fs : FatFs) (path : List (List UInt8)) : Option (VfsId Other) :=
  path.foldlM (step debug fs) root

variable {ρ κ : Type}

/-- The kind of a content. -/
def kindOf : Content ρ κ → NodeKind
  | .file _ => .file
  | .dir _ _ => .dir

/-- **The address gives what the object holds**: metadata of its kind and its size; the content of
a file, by reading and by its extents; and for a directory the entries that name objects, in order,
with the kinds of the objects. -/
structure Serves (P : Plan ρ κ) (F : DirFormat ρ) (fs : FatFs) (ino : VfsId Other) (k : κ) :
    Prop where
  info : ∃ m, nodeMeta debug fs ino = .ok m ∧ m.kind = kindOf (P.content k) ∧
    m.allocated = .allocated ∧ ∀ bytes, P.content k = .file bytes → m.size.toNat = bytes.length
  content : match P.content k with
    | .file bytes =>
      (∀ off buf, readAt debug debugStream fs ino .default off buf
        = .ok ((slice bytes off buf.length).length,
          overwrite buf 0 (slice bytes off buf.length))) ∧
      ∃ runs, extents debug debugStream fs ino .default = .ok runs ∧
        fs.runBytes (runs.map fun r => (r.imageOffset, r.len)) = bytes
    | .dir items _ => ∃ entries, readDir debug fs ino = .ok entries ∧
      List.Forall₂ (fun e x => e.name = x.1 ∧ e.kind = kindOf (P.content x.2)) entries
        (Plan.entries F items)

variable {P : Plan ρ κ} {F : DirFormat ρ} {img : List UInt8}

/-- A node that describes an object is listed, and has its kind. -/
lemma isListed_of_names {n : Node} {k : κ} (hn : P.Names n k) :
    isListed n = true ∧ nodeKind n = kindOf (P.content k) := by
  constructor
  · obtain ⟨h1, h2⟩ := not_or.mp hn.not_dot
    simp [isListed, hn.live, hn.not_label, h1, h2]
  · have hkind := hn.kind
    cases hcontent : P.content k with
    | file bytes =>
      rw [hcontent] at hkind
      simp [nodeKind, hkind.1, kindOf]
    | dir items tail =>
      rw [hcontent] at hkind
      simp [nodeKind, show n.isDir = true from hkind, kindOf]

/-- **The listed nodes of a directory are those that name objects.** -/
lemma forall₂_filter_isListed {items : List (ρ × Option κ)}
    (hitems : ∀ r, (∀ j, (r, some j) ∈ items → ∃ n, F.body r = some n ∧ P.Names n j) ∧
      ((r, none) ∈ items → ∀ n, F.body r = some n →
        n.isDeleted = true ∨ n.isVolumeLabel = true ∨ n.IsDot)) (marker : UInt32) (i : ℕ) :
    List.Forall₂ (fun n x => n.nameBytes = x.1 ∧ nodeKind n = kindOf (P.content x.2))
      ((F.nodesFrom marker i (items.map Prod.fst)).filter isListed) (Plan.entries F items) := by
  induction items generalizing i with
  | nil => exact .nil
  | cons x items ih =>
    obtain ⟨r, o⟩ := x
    have ih := ih (fun r' => ⟨fun j hj => (hitems r').1 j (List.mem_cons_of_mem _ hj),
      fun hj => (hitems r').2 (List.mem_cons_of_mem _ hj)⟩) (i + (F.slots r).length)
    rw [List.map_cons, DirFormat.nodesFrom, Plan.entries, List.filterMap_cons]
    cases o with
    | none =>
      have hother := (hitems r).2 List.mem_cons_self
      cases hb : F.body r with
      | none => exact ih
      | some b =>
        have hskip : isListed (b.at marker (i + F.lead r)) = false := by
          rcases hother b hb with hdel | hlabel | hdot | hdot
          · simp [isListed, Node.at, hdel]
          · simp [isListed, Node.at, hlabel]
          · simp [isListed, Node.at, hdot]
          · simp [isListed, Node.at, hdot]
        rw [Option.map_some, Option.toList_some, List.singleton_append, List.filter_cons, hskip]
        exact ih
    | some j =>
      obtain ⟨b, hb, hnames⟩ := (hitems r).1 j List.mem_cons_self
      obtain ⟨hlisted, hkind⟩ := isListed_of_names (hnames.at marker (i + F.lead r))
      rw [hb, Option.map_some, Option.toList_some, List.singleton_append, List.filter_cons,
        if_pos hlisted]
      exact .cons ⟨rfl, hkind⟩ ih

/-- What the address of a handle serves is the object that the handle shows. -/
lemma serves_of_shows {id : FileId} {k : κ} (hid : P.Shows fs id k) (hnav : fs.Navigated id)
    (h : P.StoredIn F img fs.geom) (hopen : FatFs.openImage img = .ok fs)
    (hF : fs.HasFormat F) : Serves debug debugStream P F fs (toVfsId id) k := by
  have hfrom : fromVfsId debug (toVfsId id) = .ok id := fromVfsId_toVfsId debug hnav
  constructor
  · rw [nodeMeta_eq debug hfrom]
    cases hid with
    | root =>
      obtain ⟨items, tail, hroot⟩ := h.root_dir
      exact ⟨_, rfl, by rw [hroot]; rfl, rfl, fun bytes hfile => by simp [hroot] at hfile⟩
    | @entry d i n k hmeta hn =>
      refine ⟨buildMeta (.entry d i) n, by rw [hmeta]; rfl, (isListed_of_names hn).2, ?_, ?_⟩
      · rw [buildMeta, if_neg (by rw [hn.live]; decide)]
      · intro bytes hfile
        have hkind := hn.kind
        rw [hfile] at hkind
        exact hkind.2
  · cases hcontent : P.content k with
    | file bytes =>
      refine ⟨fun off buf => ?_, ?_⟩
      · rw [readAt_default debug debugStream hfrom, hid.readAt h hopen hcontent]
        rfl
      · obtain ⟨runs, hruns, hbytes⟩ := hid.runs h hopen hcontent
        refine ⟨runs.map fun r => ⟨r.1, r.2⟩, ?_, ?_⟩
        · rw [extents_default debug debugStream hfrom, hruns]
          rfl
        · rw [List.map_map]
          exact (congrArg fs.runBytes (List.map_id runs)).trans hbytes
    | dir items tail =>
      obtain ⟨marker, hread, -⟩ := hid.readDir h hopen hF.reads hcontent
      refine ⟨_, by rw [readDir_eq debug hfrom, hread]; rfl, ?_⟩
      rw [List.forall₂_map_left_iff]
      exact forall₂_filter_isListed (h.items k items tail hcontent) marker 0

/-- One step from the address of a handle is that of the reader. -/
lemma step_toVfsId {id : FileId} (hnav : fs.Navigated id) (name : List UInt8) :
    step debug fs (toVfsId id) name = (fs.step id name).map toVfsId := by
  rw [step, lookup_eq debug (fromVfsId_toVfsId debug hnav), FatFs.step]
  cases fs.lookup id name <;> rfl

lemma navigated_of_step {id j : FileId} (hnav : fs.Navigated id) {name : List UInt8}
    (hj : fs.step id name = some j) : fs.Navigated j := by
  rw [FatFs.step, FatFs.lookup] at hj
  cases hread : fs.readDir id with
  | error e => simp [hread, bind, Except.bind, Except.toOption] at hj
  | ok nodes =>
    simp only [hread, bind, Except.bind, Except.toOption, Option.join_some,
      Option.map_eq_some_iff] at hj
    obtain ⟨n, hn, rfl⟩ := hj
    exact .step hnav hread (List.mem_of_find?_eq_some hn)

/-- **Stored volumes are read back through the adapter.**  Along every path of names but `.` and
`..` the addresses lead where the plan's names lead, and fail where they fail; and the address at
the end serves the object. -/
theorem resolvePath_serves (hopen : FatFs.openImage img = .ok fs) (hF : fs.HasFormat F)
    (h : P.StoredIn F img fs.geom) {path : List (List UInt8)}
    (hpath : ∀ name ∈ path, Plan.IsPlain name) :
    Option.Rel (Serves debug debugStream P F fs) (resolvePath debug fs path)
      (resolve (P.store F) P.root path) := by
  have hrel : Option.Rel (fun ino k => ∃ id, ino = toVfsId id ∧ fs.Navigated id ∧ P.Shows fs id k)
      (path.foldlM (step debug fs) root) (path.foldlM (child (P.store F)) P.root) := by
    refine foldlM_rel (fun name hname ino k hino => ?_) ⟨.root, rfl, .root, .root⟩
    obtain ⟨id, rfl, hnav, hid⟩ := hino
    have hstep := Plan.Shows.step hid h hopen hF.reads (hpath name hname)
    rw [step_toVfsId debug hnav]
    generalize child (P.store F) k name = k' at hstep
    generalize hj : fs.step id name = j at hstep
    cases hstep with
    | none => exact .none
    | some hshows => exact .some ⟨_, rfl, navigated_of_step hnav hj, hshows⟩
  rw [resolvePath, resolve]
  generalize path.foldlM (step debug fs) root = r at hrel
  generalize path.foldlM (child (P.store F)) P.root = r' at hrel
  cases hrel with
  | none => exact .none
  | some hino =>
    obtain ⟨id, rfl, hnav, hid⟩ := hino
    exact .some (serves_of_shows debug debugStream hid hnav h hopen hF)

/-- The format of an address or of a stream where there is no other one. -/
def debugNone (e : Empty) : String := e.elim

/-- The samples through the adapter, with no other addresses and no other streams. -/
theorem resolvePath_serves_samples :
    Option.Rel (Serves debugNone debugNone Plan.samplePlan fatFormat Plan.sampleVolume.reader)
        (resolvePath debugNone Plan.sampleVolume.reader Plan.samplePath)
        (resolve (Plan.samplePlan.store fatFormat) Plan.samplePlan.root Plan.samplePath) ∧
      Option.Rel (Serves debugNone debugNone Plan.exfatPlan exfatFormat Plan.exfatVolume.reader)
        (resolvePath debugNone Plan.exfatVolume.reader [[0x42], [0x43]])
        (resolve (Plan.exfatPlan.store exfatFormat) Plan.exfatPlan.root [[0x42], [0x43]]) :=
  ⟨resolvePath_serves _ _ Plan.sampleVolume.openImage_image Plan.hasFormat_sample
      Plan.storedIn_sample (by unfold Plan.IsPlain; decide),
    resolvePath_serves _ _ Plan.exfatVolume.openImage_image Plan.hasFormat_exfat
      Plan.storedIn_exfat (by unfold Plan.IsPlain; decide)⟩

end Vfs
end FatForensic
