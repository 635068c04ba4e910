import FatForensic.Core.ReaderFs
import FatForensic.Volume.Chunking
import FatForensic.Volume.Geometry
import FatForensic.Volume.Synth

/-!
# The reader over any source

Over a source that delivers an image in pieces, is interrupted and fails, every operation of the
reader gives what it gives on the image, or the error of the one seek or read that failed.  No
failure is swallowed, and none stays behind for the calls after it.
-/

namespace FatForensic

open Faults Program Window

/-! ## Sessions -/

namespace Reader

/-- A call of the reader. -/
inductive Request where
  | readDir (dir : FileId)
  | lookup (dir : FileId) (name : List UInt8)
  | nodeMeta (id : FileId)
  | runs (id : FileId)
  | readAt (id : FileId) (off : ℕ) (buf : List UInt8)

/-- What a call returns. -/
inductive Reply where
  | nodes (nodes : List Node)
  | found (id : Option FileId)
  | node (node : Node)
  | runs (runs : List (ℕ × ℕ))
  | data (count : ℕ) (buf : List UInt8)
deriving DecidableEq

end Reader

/-- The reply on an image. -/
def FatFs.reply (fs : FatFs) : Reader.Request → Result Reader.Reply
  | .readDir dir => do
    let nodes ← fs.readDir dir
    .ok (.nodes nodes)
  | .lookup dir name => do
    let id ← fs.lookup dir name
    .ok (.found id)
  | .nodeMeta id => do
    let node ← fs.nodeMeta id
    .ok (.node node)
  | .runs id => do
    let runs ← fs.runs id
    .ok (.runs runs)
  | .readAt id off buf => do
    let out ← fs.readAt id off buf
    .ok (.data out.1 out.2)

namespace Reader

section Programs

variable {σ : Type} (r : Reader σ) (fuel : σ → ℕ)

/-- The reply over a source. -/
def reply (m : Mounted) : Request → Io σ Reply
  | .readDir dir => do
    let nodes ← r.readDir fuel m dir
    pure (.nodes nodes)
  | .lookup dir name => do
    let id ← r.lookup fuel m dir name
    pure (.found id)
  | .nodeMeta id => do
    let node ← r.nodeMeta fuel m id
    pure (.node node)
  | .runs id => do
    let runs ← r.runs fuel m id
    pure (.runs runs)
  | .readAt id off buf => do
    let out ← r.readAt fuel m id off buf
    pure (.data out.1 out.2)

/-- The replies to one call after the other; a call that fails does not end the session. -/
def serve (m : Mounted) : List Request → Io σ (List (Result Reply))
  | [] => pure []
  | q :: qs => do
    let reply ← (r.reply fuel m q).attempt
    let replies ← serve m qs
    pure (reply :: replies)

/-- Open the source, and serve the calls. -/
def session (requests : List Request) : Io σ (List (Result Reply)) := do
  let m ← r.openFs fuel
  r.serve fuel m requests

end Programs

/-- A source over an image: it delivers the image, the fuel is enough for its loops, and the log
has the seeks and reads that failed. -/
structure IsOver {σ : Type} (r : Reader σ) (fuel : σ → ℕ) (img : List UInt8)
    (rest : σ → List UInt8) (interrupts : σ → ℕ) (log : σ → List IoError) : Prop where
  delivers : r.Delivers rest interrupts
  seeks : r.Seeks rest img
  lt_fuel (s : σ) : (rest s).length + interrupts s < fuel s
  log_delivered {s s' len bytes} : r.read s len = (.ok bytes, s') → log s' = log s
  log_interrupted {s s' len e} :
    r.read s len = (.error e, s') → e.kind = .interrupted → log s' = log s
  log_failed {s s' len e} :
    r.read s len = (.error e, s') → e.kind ≠ .interrupted → log s' = log s ++ [e]
  log_sought {s s' offset} : r.seek s offset = (.ok (), s') → log s' = log s
  log_lost {s s' offset e} : r.seek s offset = (.error e, s') → log s' = log s ++ [e]

lemma map_eq_error {α β : Type} {x : Result α} {f : α → β} {e : FatError} :
    x.map f = .error e ↔ x = .error e := by
  cases x with
  | error e => simp [Except.map]
  | ok a => simp [Except.map]

/-- The error is the report of a failure. -/
def Reported (f : IoError) (e : FatError) : Prop := ∃ op, e = .io op f.text

variable {σ : Type} {r : Reader σ} {fuel : σ → ℕ} {img : List UInt8} {rest : σ → List UInt8}
  {interrupts : σ → ℕ} {log : σ → List IoError}

/-! ## Reading -/

/-- The loop of `read_fill` logs nothing when it succeeds, and the failure that it ends with. -/
lemma IsOver.log_fillFrom (h : r.IsOver fuel img rest interrupts log) {n filled : ℕ} {s s' : σ}
    {buf buf' : List UInt8} {out : Result ℕ}
    (hfill : r.fillFrom n s buf filled = some (out, buf', s')) :
    (∃ k, out = .ok k) ∧ log s' = log s ∨
      ∃ e, out = .error (.io "read" e.text) ∧ log s' = log s ++ [e] := by
  induction n generalizing s buf filled with
  | zero => exact absurd hfill (by simp [fillFrom])
  | succ n ih =>
    rw [fillFrom] at hfill
    split at hfill
    · rcases hread : r.read s (buf.length - filled) with ⟨e | bytes, s₁⟩
      · rw [hread] at hfill
        dsimp only at hfill
        split at hfill
        next hkind =>
          rw [← h.log_interrupted hread hkind]
          exact ih hfill
        next hkind =>
          simp only [Option.some.injEq, Prod.mk.injEq] at hfill
          obtain ⟨rfl, -, rfl⟩ := hfill
          exact Or.inr ⟨e, rfl, h.log_failed hread hkind⟩
      · rw [hread] at hfill
        dsimp only at hfill
        rw [← h.log_delivered hread]
        split at hfill
        · simp only [Option.some.injEq, Prod.mk.injEq] at hfill
          obtain ⟨rfl, -, rfl⟩ := hfill
          exact Or.inl ⟨⟨_, rfl⟩, rfl⟩
        · exact ih hfill
    · simp only [Option.some.injEq, Prod.mk.injEq] at hfill
      obtain ⟨rfl, -, rfl⟩ := hfill
      exact Or.inl ⟨⟨_, rfl⟩, rfl⟩

/-- Behind a seek the loop fills the buffer as it does on the image, or ends with the failure that
it logs. -/
lemma IsOver.readFill_cases (h : r.IsOver fuel img rest interrupts log) {s : σ} {offset : ℕ}
    (hrest : rest s = img.drop offset) (buf : List UInt8) :
    (∃ s', r.readFill (fuel s) s buf = some (.ok (FatForensic.readFill img offset buf).1,
        (FatForensic.readFill img offset buf).2, s') ∧ log s' = log s) ∨
      ∃ e buf' s', r.readFill (fuel s) s buf = some (.error (.io "read" e.text), buf', s') ∧
        log s' = log s ++ [e] := by
  by_cases hfails : ∃ e, r.FailsWith buf.length s 0 e
  · obtain ⟨e, hfails⟩ := hfails
    obtain ⟨buf', s', hfill⟩ := h.delivers.fillFrom_error (h.lt_fuel s) hfails
    rcases h.log_fillFrom hfill with ⟨⟨k, hk⟩, -⟩ | ⟨e', he', hlog⟩
    · exact absurd hk (by simp)
    · rw [he'] at hfill
      exact Or.inr ⟨e', buf', s', hfill, hlog⟩
  · obtain ⟨s', hfill⟩ := h.delivers.readFill_eq_cursor hrest (h.lt_fuel s) (not_exists.mp hfails)
    rcases h.log_fillFrom hfill with ⟨-, hlog⟩ | ⟨e', he', -⟩
    · exact Or.inl ⟨s', hfill, hlog⟩
    · exact absurd he' (by simp)

/-- A seek puts the source at the offset, or ends with the failure that it logs. -/
lemma IsOver.seekTo (h : r.IsOver fuel img rest interrupts log) (s : σ) (offset : ℕ) :
    (r.seekTo offset).Meets s fun out =>
      out.1 = .ok () ∧ rest out.2 = img.drop offset ∧ log out.2 = log s ∨
        ∃ e, out.1 = .error (.io "seek" e.text) ∧ log out.2 = log s ++ [e] := by
  rcases hseek : r.seek s offset with ⟨e | ⟨⟩, s'⟩
  · refine ⟨(.error (.io "seek" e.text), s'), ?_, Or.inr ⟨e, rfl, h.log_lost hseek⟩⟩
    rw [Reader.seekTo, exec_ofExec, hseek]
  · refine ⟨(.ok (), s'), ?_, Or.inl ⟨rfl, h.seeks _ _ _ hseek, h.log_sought hseek⟩⟩
    rw [Reader.seekTo, exec_ofExec, hseek]

/-- A program that seeks first simulates what it gives behind the seek. -/
lemma IsOver.simulates_seekTo {α : Type} (h : r.IsOver fuel img rest interrupts log) {offset : ℕ}
    {p : Io σ α} {x : Result α}
    (hp : ∀ s, rest s = img.drop offset → p.Meets s (Ends log Reported x s)) :
    Simulates log Reported (r.seekTo offset >>= fun _ => p) x := by
  intro s
  refine (h.seekTo s offset).bind (fun _ s' hend => ?_) fun e s' hend => ?_
  · rcases hend with ⟨-, hrest, hlog⟩ | ⟨e, he, -⟩
    · exact (hp s' hrest).mono fun out hout => hout.congr hlog
    · exact absurd he (by simp)
  · rcases hend with ⟨he, -⟩ | ⟨f, he, hlog⟩
    · exact absurd he (by simp)
    · exact .faulted hlog ⟨"seek", Except.error.inj he⟩

lemma IsOver.readRegion (h : r.IsOver fuel img rest interrupts log) (offset : ℕ)
    (buf : List UInt8) : Simulates log Reported (r.readRegion fuel offset buf)
      (.ok (FatForensic.readFill img offset buf)) := by
  refine h.simulates_seekTo fun s hrest => ?_
  rcases h.readFill_cases hrest buf with ⟨s', hfill, hlog⟩ | ⟨e, buf', s', hfill, hlog⟩
  · exact ⟨_, by rw [fill, exec_ofExec, hfill], .answered hlog⟩
  · exact ⟨_, by rw [fill, exec_ofExec, hfill], .faulted hlog ⟨"read", rfl⟩⟩

lemma IsOver.readRegionVec (h : r.IsOver fuel img rest interrupts log) (offset len : ℕ) :
    Simulates log Reported (r.readRegionVec fuel offset len)
      (.ok (FatForensic.readUpto img offset len)) :=
  (h.readRegion offset (List.replicate len 0)).bind_ok (.pure _)

lemma IsOver.exactAt (h : r.IsOver fuel img rest interrupts log) (op : String) (offset : ℕ)
    {len : ℕ} (hlen : 0 < len) :
    Simulates log Reported (r.exactAt fuel op offset len) (readExact op img offset len) := by
  refine h.simulates_seekTo fun s hrest => ?_
  rcases h.readFill_cases hrest (List.replicate len 0) with
    ⟨s', hfill, hlog⟩ | ⟨e, buf', s', hfill, hlog⟩
  · refine ⟨(readExact op img offset len, s'), ?_, .answered hlog⟩
    rw [fillExact, exec_ofExec, hfill]
    dsimp only
    rw [readFill_eq, List.length_replicate, length_slice, readExact]
    by_cases hle : offset + len ≤ img.length
    · have hmin : min len (img.length - offset) = len := by omega
      rw [if_pos hmin, if_pos hle, hmin, List.drop_replicate, Nat.sub_self, List.replicate_zero,
        List.append_nil]
    · have hmin : min len (img.length - offset) ≠ len := by omega
      rw [if_neg hmin, if_neg hle]
  · exact ⟨_, by rw [fillExact, exec_ofExec, hfill], .faulted hlog ⟨op, rfl⟩⟩

/-! ## The operations -/

lemma offline_runsFrom (fs : FatFs) (chain : List UInt32) (total : ℕ) (runs : List (ℕ × ℕ)) :
    (Mounted.of fs).offline.runsFrom chain total runs = fs.runsFrom chain total runs := by
  induction chain generalizing total runs with
  | nil => rfl
  | cons c rest ih =>
    have hgeom : (Mounted.of fs).offline.geom = fs.geom := rfl
    rw [FatFs.runsFrom, FatFs.runsFrom, hgeom]
    split
    · rfl
    · split
      · rfl
      · exact ih _ _

lemma IsOver.openFs (h : r.IsOver fuel img rest interrupts log) :
    Simulates log Reported (r.openFs fuel) ((FatFs.openImage img).map Mounted.of) := by
  have hsteps : (FatFs.openImage img).map Mounted.of =
      (readExact "read boot sector" img 0 512 >>= fun boot =>
        (if slice boot 3 8 = Exfat.SIGNATURE then Exfat.parseBoot boot
          else Geometry.parse boot) >>= fun geom =>
        .ok ⟨geom, FatForensic.readUpto img geom.fatStart
          (min (geom.fatSizeSectors * geom.bytesPerSector) MAX_FAT_BYTES),
          geom.countOfClusters + 2⟩) := by
    rw [FatFs.openImage]
    cases readExact "read boot sector" img 0 512 with
    | error e => rfl
    | ok boot =>
      dsimp only [bind, Except.bind]
      generalize (if slice boot 3 8 = Exfat.SIGNATURE then Exfat.parseBoot boot
        else Geometry.parse boot) = parsed
      cases parsed <;> rfl
  rw [hsteps]
  refine (h.exactAt _ 0 (by norm_num)).bind fun boot _ => ?_
  refine (Simulates.ofExcept _).bind fun geom _ => ?_
  exact (h.readRegionVec _ _).bind_ok (.pure _)

section Operations

variable {fs : FatFs} (h : r.IsOver fuel fs.image rest interrupts log)
include h

lemma IsOver.readClusters (chain : List UInt32) (out : List UInt8) :
    Simulates log Reported (r.readClusters fuel (.of fs) chain out)
      (.ok (fs.readClusters chain out)) := by
  induction chain generalizing out with
  | nil => exact .pure _
  | cons c rest ih =>
    rw [Reader.readClusters, FatFs.readClusters]
    split
    · exact .pure _
    · cases hbase : fs.geom.clusterOffset c with
      | none =>
        have hbase' : (Mounted.of fs).geom.clusterOffset c = none := hbase
        rw [hbase']
        exact .pure _
      | some base =>
        have hbase' : (Mounted.of fs).geom.clusterOffset c = some base := hbase
        rw [hbase']
        exact (h.readRegionVec base fs.geom.clusterSize).bind_ok (ih _)

lemma IsOver.readDirBytes (source : DirSource) :
    Simulates log Reported (r.readDirBytes fuel (.of fs) source)
      (.ok (fs.readDirBytes source)) := by
  cases source with
  | fixedRoot => exact h.readRegionVec _ _
  | chain first size contiguous => exact h.readClusters _ []

lemma IsOver.resolveEntry (id : FileId) :
    Simulates log Reported (r.resolveEntry fuel (.of fs) id) (fs.resolveEntry id) := by
  cases id with
  | root => exact .pure _
  | entry d i =>
    refine (h.readDirBytes (FatFs.parentSource d)).bind_ok ?_
    rw [FatFs.resolveEntry]
    generalize fs.readDirBytes (FatFs.parentSource d) = bytes
    have hlist : (Mounted.of fs).offline.listNodes bytes d = fs.listNodes bytes d := rfl
    rw [hlist]
    cases (fs.listNodes bytes d).find? (FatFs.hasIndex i) with
    | none => exact .throw _
    | some node => exact .pure _

lemma IsOver.dirSource (id : FileId) :
    Simulates log Reported (r.dirSource fuel (.of fs) id) (fs.dirSource id) := by
  cases id with
  | root =>
    have hroot : (Mounted.of fs).offline.rootIsClustered = fs.rootIsClustered := rfl
    rw [Reader.dirSource, FatFs.dirSource, hroot]
    split
    · exact .pure _
    · exact .pure _
  | entry d i =>
    refine (h.resolveEntry (.entry d i)).bind fun node _ => ?_
    split
    · exact .throw _
    · exact .pure _

lemma IsOver.dataExtent (id : FileId) :
    Simulates log Reported (r.dataExtent fuel (.of fs) id) (fs.dataExtent id) := by
  cases id with
  | root =>
    refine (h.dirSource .root).bind fun source _ => ?_
    cases source with
    | fixedRoot => exact .pure _
    | chain first size contiguous => exact .pure _
  | entry d i => exact (h.resolveEntry (.entry d i)).bind fun node _ => .pure _

lemma IsOver.readDir (id : FileId) :
    Simulates log Reported (r.readDir fuel (.of fs) id) (fs.readDir id) := by
  refine (h.dirSource id).bind fun source _ => ?_
  exact (h.readDirBytes source).bind_ok (.pure _)

lemma IsOver.lookup (dir : FileId) (name : List UInt8) :
    Simulates log Reported (r.lookup fuel (.of fs) dir name) (fs.lookup dir name) :=
  (h.readDir dir).bind fun _ _ => .pure _

lemma IsOver.nodeMeta (id : FileId) :
    Simulates log Reported (r.nodeMeta fuel (.of fs) id) (fs.nodeMeta id) := by
  cases id with
  | root => exact .pure _
  | entry d i => exact h.resolveEntry (.entry d i)

lemma IsOver.runs (id : FileId) :
    Simulates log Reported (r.runs fuel (.of fs) id) (fs.runs id) := by
  refine (h.dataExtent id).bind fun extent _ => ?_
  dsimp only
  rw [offline_runsFrom]
  split
  · exact .pure _
  · exact .pure _

lemma IsOver.readAtFrom (chain : List UInt32) (stop rounds pos written : ℕ) (buf : List UInt8) :
    Simulates log Reported (r.readAtFrom fuel (.of fs) chain stop rounds pos written buf)
      (.ok (fs.readAtFrom chain stop rounds pos written buf)) := by
  induction rounds generalizing pos written buf with
  | zero => exact .pure _
  | succ rounds ih =>
    have hgeom : (Mounted.of fs).geom = fs.geom := rfl
    rw [Reader.readAtFrom, FatFs.readAtFrom, hgeom]
    split
    · cases hc : chain[pos / fs.geom.clusterSize]? with
      | none => exact .pure _
      | some c =>
        dsimp only
        cases hbase : fs.geom.clusterOffset c with
        | none => exact .pure _
        | some base =>
          dsimp only
          refine (h.readRegion _ _).bind_ok ?_
          rw [FatFs.readRegion]
          split
          · exact .pure _
          · exact ih _ _ _
    · exact .pure _

lemma IsOver.readAt (id : FileId) (off : ℕ) (buf : List UInt8) :
    Simulates log Reported (r.readAt fuel (.of fs) id off buf) (fs.readAt id off buf) := by
  refine (h.dataExtent id).bind fun extent _ => ?_
  dsimp only
  split
  · exact .pure _
  · exact h.readAtFrom _ _ _ _ _ _

end Operations

/-! ## Whole sessions -/

/-- The replies to calls when the failures are met in this order: each call has the reply on the
image, or the error of one failure. -/
inductive Served (fs : FatFs) : List Request → List (Result Reply) → List IoError → Prop where
  | nil : Served fs [] [] []
  | answered {q qs replies faults} :
    Served fs qs replies faults → Served fs (q :: qs) (fs.reply q :: replies) faults
  | failed {q qs replies faults f e} : Reported f e → Served fs qs replies faults →
      Served fs (q :: qs) (.error e :: replies) (f :: faults)

/-- Without a failure the replies are those on the image. -/
lemma Served.eq_map {fs : FatFs} {requests : List Request} {replies : List (Result Reply)}
    (h : Served fs requests replies []) : replies = requests.map fs.reply := by
  generalize hf : ([] : List IoError) = faults at h
  induction h with
  | nil => rfl
  | answered _ ih => rw [List.map_cons, ih hf]
  | failed _ _ => exact absurd hf (by simp)

lemma IsOver.reply {fs : FatFs} (h : r.IsOver fuel fs.image rest interrupts log) (q : Request) :
    Simulates log Reported (r.reply fuel (.of fs) q) (fs.reply q) := by
  cases q with
  | readDir dir => exact (h.readDir dir).bind fun _ _ => .pure _
  | lookup dir name => exact (h.lookup dir name).bind fun _ _ => .pure _
  | nodeMeta id => exact (h.nodeMeta id).bind fun _ _ => .pure _
  | runs id => exact (h.runs id).bind fun _ _ => .pure _
  | readAt id off buf => exact (h.readAt id off buf).bind fun _ _ => .pure _

/-- Every call is served, whatever failed before it. -/
lemma IsOver.serve {fs : FatFs} (h : r.IsOver fuel fs.image rest interrupts log)
    (requests : List Request) (s : σ) :
    (r.serve fuel (.of fs) requests).Meets s fun out => ∃ replies, out.1 = .ok replies ∧
      ∃ faults, log out.2 = log s ++ faults ∧ Served fs requests replies faults := by
  induction requests generalizing s with
  | nil => exact .pure ⟨[], rfl, [], (List.append_nil _).symm, .nil⟩
  | cons q qs ih =>
    refine (h.reply q).bind_attempt s fun reply s₁ hend => ?_
    refine Meets.bind_value (R := fun replies s₂ => ∃ faults, log s₂ = log s₁ ++ faults ∧
      Served fs qs replies faults) (ih s₁) fun replies s₂ hrest => ?_
    obtain ⟨faults, hlog, hserved⟩ := hrest
    cases hend with
    | answered hlog' => exact .pure ⟨_, rfl, faults, by rw [hlog, hlog'], .answered hserved⟩
    | faulted hlog' hrep =>
      refine .pure ⟨_, rfl, _ :: faults, ?_, .failed hrep hserved⟩
      rw [hlog, hlog', List.append_assoc, List.singleton_append]

/-- **No failure is swallowed and none is made up.**  Over any source of an image a session ends,
each of its calls with the reply on the image or with the error of one failed seek or read; the
failures that the source met are the ones that the caller is told of, in their order. -/
theorem IsOver.session_served (h : r.IsOver fuel img rest interrupts log)
    (requests : List Request) (s : σ) :
    ∃ out s' faults, (r.session fuel requests).exec s = some (out, s') ∧
      log s' = log s ++ faults ∧
      (faults = [] → out = (FatFs.openImage img).map fun fs => requests.map fs.reply) ∧
      (∀ e, out = .error e →
        FatFs.openImage img = .error e ∨ ∃ f, faults = [f] ∧ Reported f e) ∧
      ∀ replies, out = .ok replies →
        ∃ fs, FatFs.openImage img = .ok fs ∧ Served fs requests replies faults := by
  suffices hmeets : (r.session fuel requests).Meets s fun out => ∃ faults,
      log out.2 = log s ++ faults ∧
      (faults = [] → out.1 = (FatFs.openImage img).map fun fs => requests.map fs.reply) ∧
      (∀ e, out.1 = .error e →
        FatFs.openImage img = .error e ∨ ∃ f, faults = [f] ∧ Reported f e) ∧
      ∀ replies, out.1 = .ok replies →
        ∃ fs, FatFs.openImage img = .ok fs ∧ Served fs requests replies faults by
    obtain ⟨out, hexec, faults, hall⟩ := hmeets
    exact ⟨out.1, out.2, faults, hexec, hall⟩
  refine (h.openFs s).bind (fun m s₁ hend => ?_) fun e s₁ hend => ?_
  · obtain ⟨hm, hlog⟩ := ends_ok.mp hend
    obtain ⟨fs, hopen, rfl⟩ := map_eq_ok.mp hm
    obtain rfl := (FatFs.openImage_ok hopen).image
    refine (h.serve requests s₁).mono fun out hserve => ?_
    obtain ⟨replies, heq, faults, hlog', hserved⟩ := hserve
    rw [heq]
    refine ⟨faults, by rw [hlog', hlog], fun hnil => ?_, fun e he => absurd he (by simp), ?_⟩
    · subst hnil
      rw [hopen, hserved.eq_map]
      rfl
    · intro replies' hr
      obtain rfl := Except.ok.inj hr
      exact ⟨fs, hopen, hserved⟩
  · have hno : ∀ replies, (.error e : Result (List (Result Reply))) ≠ .ok replies := by simp
    rcases ends_error.mp hend with ⟨hm, hlog⟩ | ⟨f, hrep, hlog⟩
    · have hopen := map_eq_error.mp hm
      refine ⟨[], by rw [hlog, List.append_nil], fun _ => by rw [hopen]; rfl, fun e' he => ?_,
        fun replies hr => absurd hr (hno replies)⟩
      obtain rfl := Except.error.inj he
      exact Or.inl hopen
    · refine ⟨[f], hlog, fun hnil => absurd hnil (by simp), fun e' he => ?_,
        fun replies hr => absurd hr (hno replies)⟩
      obtain rfl := Except.error.inj he
      exact Or.inr ⟨f, rfl, hrep⟩

/-! ## A source that fails by a schedule -/

/-- A source over an image whose reads fail where the schedule says so.  The states have the
position, what is left of the schedule, and the log. -/
def flaky (img : List UInt8) : Reader (ℕ × List Bool × List IoError) where
  read s len :=
    match s with
    | (pos, true :: schedule, log) =>
      (.error ⟨.other, "device error"⟩, (pos, schedule, log ++ [⟨.other, "device error"⟩]))
    | (pos, schedule, log) =>
      (.ok (slice img pos len), (pos + (slice img pos len).length, schedule.tail, log))
  seek s offset := (.ok (), (offset, s.2))

/-- What a read of the source does. -/
lemma flaky_read {s s' : ℕ × List Bool × List IoError} {len : ℕ}
    {out : Except IoError (List UInt8)} (h : (flaky img).read s len = (out, s')) :
    (∃ e, out = .error e ∧ e.kind = .other ∧ s'.2.2 = s.2.2 ++ [e]) ∨
      out = .ok (slice img s.1 len) ∧ s'.1 = s.1 + (slice img s.1 len).length ∧
        s'.2.2 = s.2.2 := by
  obtain ⟨pos, _ | ⟨_ | _, schedule⟩, log⟩ := s
  · obtain ⟨rfl, rfl⟩ := Prod.mk.inj h
    exact Or.inr ⟨rfl, rfl, rfl⟩
  · obtain ⟨rfl, rfl⟩ := Prod.mk.inj h
    exact Or.inr ⟨rfl, rfl, rfl⟩
  · obtain ⟨rfl, rfl⟩ := Prod.mk.inj h
    exact Or.inl ⟨_, rfl, rfl, rfl⟩

lemma flaky_delivers (img : List UInt8) :
    (flaky img).Delivers (fun s => img.drop s.1) fun _ => 0 where
  length_le h := by
    rcases flaky_read h with ⟨e, he, -⟩ | ⟨hok, -⟩
    · exact absurd he (by simp)
    · rw [Except.ok.inj hok, length_slice]
      omega
  rest_eq h := by
    rcases flaky_read h with ⟨e, he, -⟩ | ⟨hok, hpos, -⟩
    · exact absurd he (by simp)
    · rw [Except.ok.inj hok, hpos]
      exact (slice_append_drop img _ _).symm
  rest_eq_nil hlen h := by
    rcases flaky_read h with ⟨e, he, -⟩ | ⟨hok, -⟩
    · exact absurd he (by simp)
    · exact drop_eq_nil_of_slice_eq_nil hlen (Except.ok.inj hok).symm
  interrupts_le _ := le_rfl
  rest_interrupted h hkind := by
    rcases flaky_read h with ⟨e, he, hother, -⟩ | ⟨hok, -⟩
    · rw [← Except.error.inj he, hkind] at hother
      exact absurd hother (by simp)
    · exact absurd hok (by simp)
  interrupts_lt h hkind := by
    rcases flaky_read h with ⟨e, he, hother, -⟩ | ⟨hok, -⟩
    · rw [← Except.error.inj he, hkind] at hother
      exact absurd hother (by simp)
    · exact absurd hok (by simp)

lemma flaky_isOver (img : List UInt8) :
    (flaky img).IsOver (fun _ => img.length + 1) img (fun s => img.drop s.1) (fun _ => 0)
      fun s => s.2.2 where
  delivers := flaky_delivers img
  seeks := by
    intro s s' offset h
    obtain ⟨-, rfl⟩ := Prod.mk.inj h
    rfl
  lt_fuel s := by
    rw [List.length_drop]
    omega
  log_delivered h := by
    rcases flaky_read h with ⟨e, he, -⟩ | ⟨-, -, hlog⟩
    · exact absurd he (by simp)
    · exact hlog
  log_interrupted h hkind := by
    rcases flaky_read h with ⟨e, he, hother, -⟩ | ⟨hok, -⟩
    · rw [← Except.error.inj he, hkind] at hother
      exact absurd hother (by simp)
    · exact absurd hok (by simp)
  log_failed h _ := by
    rcases flaky_read h with ⟨e, he, -, hlog⟩ | ⟨hok, -⟩
    · rw [hlog, Except.error.inj he]
    · exact absurd hok (by simp)
  log_sought h := by
    obtain ⟨-, rfl⟩ := Prod.mk.inj h
    rfl
  log_lost h := absurd (Prod.mk.inj h).1 (by simp)

/-- The third read of the session fails. -/
theorem IsOver.session_served_flaky :
    ∃ out s' faults, ((flaky Synth.nested.image).session (fun _ => Synth.nested.image.length + 1)
        [.readDir .root, .readDir .root]).exec (0, [false, false, true], []) = some (out, s') ∧
      s'.2.2 = [] ++ faults ∧
      (faults = [] → out = (FatFs.openImage Synth.nested.image).map fun fs =>
        [.readDir .root, .readDir .root].map fs.reply) ∧
      (∀ e, out = .error e →
        FatFs.openImage Synth.nested.image = .error e ∨ ∃ f, faults = [f] ∧ Reported f e) ∧
      ∀ replies, out = .ok replies → ∃ fs, FatFs.openImage Synth.nested.image = .ok fs ∧
        Served fs [.readDir .root, .readDir .root] replies faults :=
  (flaky_isOver Synth.nested.image).session_served _ (0, [false, false, true], [])

example : (((flaky Synth.nested.image).session (fun _ => Synth.nested.image.length + 1)
      [.readDir .root, .readDir .root]).exec (0, [false, false, true], [])).map (fun out =>
        (out.1.toOption.map (·.map fun reply => reply.toOption.isSome), out.2.2.2))
    = some (some [false, true], [⟨.other, "device error"⟩]) := by decide +kernel

end Reader
end FatForensic
