import FatForensic.Forensic.Completeness
import FatForensic.Volume.AnySource

/-!
# The auditor over a source that fails

The walk for deleted entries passes over a directory that it cannot read.  A failure of the source
so hides deleted entries; it hides nothing else, and whatever the auditor reports is there.
-/

namespace FatForensic
namespace Reader

open Audit Faults Program Window

/-- The finding of a deleted node at the end of a live path that is shorter than the cap. -/
def IsLead (fs : FatFs) (a : Anomaly) : Prop :=
  ∃ path dir nodes n, LivePath fs .root path dir ∧ path.length < Audit.MAX_DEPTH ∧
    fs.readDir dir = .ok nodes ∧ n ∈ nodes ∧ n.isDeleted ∧ a = deletedFinding n

/-- The findings after those made before are deleted nodes on live paths. -/
def AddsLeads (fs : FatFs) (out out' : List Anomaly) : Prop :=
  ∃ leads, out' = out ++ leads ∧ ∀ a ∈ leads, IsLead fs a

lemma AddsLeads.refl (fs : FatFs) (out : List Anomaly) : AddsLeads fs out out :=
  ⟨[], (List.append_nil _).symm, fun _ ha => absurd ha List.not_mem_nil⟩

lemma AddsLeads.trans {fs : FatFs} {out out' out'' : List Anomaly} (h : AddsLeads fs out out')
    (h' : AddsLeads fs out' out'') : AddsLeads fs out out'' := by
  obtain ⟨leads, rfl, hleads⟩ := h
  obtain ⟨leads', rfl, hleads'⟩ := h'
  refine ⟨leads ++ leads', List.append_assoc .., fun a ha => ?_⟩
  rcases List.mem_append.mp ha with ha | ha
  · exact hleads a ha
  · exact hleads' a ha

lemma livePath_snoc {fs : FatFs} {d stop : FileId} {path nodes : List Node} {n : Node}
    (h : LivePath fs d path stop) (hread : fs.readDir stop = .ok nodes) (hn : n ∈ nodes)
    (he : isEntered n) : LivePath fs d (path ++ [n]) n.id := by
  induction h with
  | nil d => exact .cons hread hn he (.nil _)
  | cons hread' hn' he' _ ih => exact .cons hread' hn' he' (ih hread)

variable {σ : Type} {r : Reader σ} {fuel : σ → ℕ} {rest : σ → List UInt8} {interrupts : σ → ℕ}
  {log : σ → List IoError} {fs : FatFs}

/-! ## The walk -/

/-- How the walk may end that would end in `plain` without failures. -/
def WalkEnds (fs : FatFs) (log : σ → List IoError) (plain st : WalkState) (s : σ)
    (out : Result WalkState × σ) : Prop :=
  ∃ st', out.1 = .ok st' ∧ AddsLeads fs st.2 st'.2 ∧ log s <+: log out.2 ∧
    (log out.2 = log s → st' = plain)

lemma WalkEnds.here (fs : FatFs) (log : σ → List IoError) (st : WalkState) (s : σ) :
    WalkEnds fs log st st s (.ok st, s) :=
  ⟨st, rfl, .refl fs st.2, List.prefix_rfl, fun _ => rfl⟩

/-- A round of the loop ends as it does on the image, if the recursive call does. -/
lemma collectNode_meets {descend : FileId → WalkState → Io σ WalkState}
    {plain : FileId → WalkState → WalkState} {path nodes : List Node} {dir : FileId} {n : Node}
    (hpath : LivePath fs .root path dir) (hlen : path.length < Audit.MAX_DEPTH)
    (hread : fs.readDir dir = .ok nodes) (hn : n ∈ nodes)
    (hdescend : ∀ st s, LivePath fs .root (path ++ [n]) n.id →
      (descend n.id st).Meets s (WalkEnds fs log (plain n.id st) st s))
    (st : WalkState) (s : σ) :
    (Reader.collectNode descend st n).Meets s
      (WalkEnds fs log (Audit.collectNode plain st n) st s) := by
  rw [Reader.collectNode, Audit.collectNode]
  split
  · exact .pure (.here fs log st s)
  next hdot =>
  split
  next hdel =>
    refine .pure ⟨_, rfl, ⟨[deletedFinding n], rfl, fun a ha => ?_⟩, List.prefix_rfl, fun _ => rfl⟩
    rw [List.mem_singleton.mp ha]
    exact ⟨path, dir, nodes, n, hpath, hlen, hread, hn, hdel, rfl⟩
  next hlive =>
  split
  next hdown =>
    have hentered : isEntered n := by
      simpa [isEntered, hlive, hdown.1, hdown.2.1] using hdot
    exact hdescend (n.firstCluster :: st.1, st.2) s (livePath_snoc hpath hread hn hentered)
  next => exact .pure (.here fs log st s)

/-- **The walk over a source.**  It goes to its end whatever fails, adds nothing but deleted nodes
on live paths, and without a failure is the walk on the image. -/
lemma IsOver.collectDeleted (h : r.IsOver fuel fs.image rest interrupts log) {levels : ℕ}
    {path : List Node} {dir : FileId} (hpath : LivePath fs .root path dir)
    (hlen : path.length + levels = Audit.MAX_DEPTH) (st : WalkState) (s : σ) :
    (r.collectDeleted fuel (.of fs) levels dir st).Meets s
      (WalkEnds fs log (Audit.collectDeleted fs levels dir st) st s) := by
  induction levels generalizing path dir st s with
  | zero => exact .pure (.here fs log st s)
  | succ levels ih =>
    refine (h.readDir dir).bind_attempt s fun read s₁ hend => ?_
    cases read with
    | error e =>
      refine .pure ⟨st, rfl, .refl fs st.2, hend.log_prefix, fun hsame => ?_⟩
      have hread : fs.readDir dir = .error e := (hend.eq_of_log_eq hsame).symm
      rw [Audit.collectDeleted, hread]
    | ok nodes =>
      obtain ⟨hread, hlog⟩ := ends_ok.mp hend
      have hplain : Audit.collectDeleted fs (levels + 1) dir st
          = nodes.foldl (Audit.collectNode (Audit.collectDeleted fs levels)) st := by
        rw [Audit.collectDeleted, hread]
      rw [hplain]
      -- the nodes to come end the walk where all of them do, as long as nothing has failed
      refine (Meets.foldlM (I := fun ns st' s' => (∀ n ∈ ns, n ∈ nodes) ∧
          AddsLeads fs st.2 st'.2 ∧ log s <+: log s' ∧ (log s' = log s →
            ns.foldl (Audit.collectNode (Audit.collectDeleted fs levels)) st'
              = nodes.foldl (Audit.collectNode (Audit.collectDeleted fs levels)) st))
        (fun n ns st' s' hI => ?_) nodes st s₁
        ⟨fun _ hn => hn, .refl fs st.2, hlog ▸ List.prefix_rfl, fun _ => rfl⟩).mono ?_
      · obtain ⟨hsub, hadds, hbegins, hsame⟩ := hI
        have hdeeper : (path ++ [n]).length + levels = Audit.MAX_DEPTH := by
          rw [List.length_append, List.length_singleton]
          omega
        refine (collectNode_meets hpath (by omega) hread (hsub n List.mem_cons_self)
          (fun st s hlive => ih hlive hdeeper st s) st' s').mono fun out hout => ?_
        obtain ⟨st'', heq, hadds', hbegins', hplain'⟩ := hout
        refine ⟨st'', heq, fun m hm => hsub m (List.mem_cons_of_mem _ hm), hadds.trans hadds',
          hbegins.trans hbegins', fun hend' => ?_⟩
        have hmid : log s' = log s := by
          rw [hend'] at hbegins'
          exact (hbegins.eq_of_length_le hbegins'.length_le).symm
        rw [hplain' (hend'.trans hmid.symm), ← hsame hmid, List.foldl_cons]
      · rintro ⟨out, s'⟩ ⟨st', heq, -, hadds, hbegins, hsame⟩
        exact ⟨st', heq, hadds, hbegins, hsame⟩

/-! ## The whole audit -/

variable {img : List UInt8}

lemma IsOver.auditExfatChecksum (h : r.IsOver fuel img rest interrupts log) (geom : Geometry) :
    Simulates log Reported (r.auditExfatChecksum fuel geom)
      (.ok (Audit.auditExfatChecksum img geom)) := by
  refine (h.readRegionVec 0 (geom.bytesPerSector * 12)).bind_ok ?_
  rw [Audit.auditExfatChecksum]
  dsimp only
  split
  · exact .pure _
  · exact .pure _

lemma IsOver.auditFatMirror (h : r.IsOver fuel img rest interrupts log) (geom : Geometry) :
    Simulates log Reported (r.auditFatMirror fuel geom) (.ok (Audit.auditFatMirror img geom)) := by
  rw [Reader.auditFatMirror, Audit.auditFatMirror]
  dsimp only
  generalize geom.fatSizeSectors * geom.bytesPerSector = fatBytes
  split
  · exact .pure _
  refine (h.readRegionVec geom.fatStart fatBytes).bind_ok ?_
  generalize FatForensic.readUpto img geom.fatStart fatBytes = fat1
  split
  · exact .pure _
  refine (h.readRegionVec (geom.fatStart + fatBytes) fatBytes).bind_ok ?_
  generalize FatForensic.readUpto img (geom.fatStart + fatBytes) fatBytes = fat2
  split
  · exact .pure _
  rcases (fat1.zip fat2).zipIdx.foldl Audit.mirrorStep (none, 0) with ⟨_ | ⟨o, a, b⟩, n⟩
  · exact .pure _
  · exact .pure _

lemma IsOver.structuralFindings (h : r.IsOver fuel img rest interrupts log) (geom : Geometry) :
    Simulates log Reported
      (if geom.variant = .exFat then r.auditExfatChecksum fuel geom
        else if geom.numFats ≥ 2 then r.auditFatMirror fuel geom else pure [])
      (.ok (Audit.structuralFindings img geom)) := by
  rw [Audit.structuralFindings]
  split
  · exact h.auditExfatChecksum geom
  · split
    · exact h.auditFatMirror geom
    · exact .pure _

/-- What an audit reports of what the image gives: no finding but deleted entries is missing, and
whatever is reported is there. -/
def Reports (img : List UInt8) (found : List Anomaly) : Prop :=
  ∃ all, Audit.auditReader img = .ok all ∧ (∀ a ∈ all, isDeletedFinding a = false → a ∈ found) ∧
    ∀ a ∈ found, a ∈ all ∨ ∃ fs, FatFs.openImage img = .ok fs ∧ IsLead fs a

/-- What the walk adds to the findings before it is reported. -/
lemma reports_of_addsLeads {before found : List Anomaly}
    (haudit : Audit.auditReader img = match FatFs.openImage img with
      | .error _ => .ok before
      | .ok fs => .ok (Audit.collectDeleted fs Audit.MAX_DEPTH FatFs.root ([], before)).2)
    (hadds : found = before ∨ ∃ fs, FatFs.openImage img = .ok fs ∧ AddsLeads fs before found) :
    Reports img found := by
  have hkept : ∀ a ∈ before, a ∈ found := by
    intro a ha
    rcases hadds with rfl | ⟨fs, -, leads, rfl, -⟩
    · exact ha
    · exact List.mem_append_left _ ha
  have hfound : ∀ a ∈ found, a ∈ before ∨ ∃ fs, FatFs.openImage img = .ok fs ∧ IsLead fs a := by
    intro a ha
    rcases hadds with rfl | ⟨fs, hopen, leads, rfl, hleads⟩
    · exact Or.inl ha
    · exact (List.mem_append.mp ha).imp_right fun ha => ⟨fs, hopen, hleads a ha⟩
  cases hopen : FatFs.openImage img with
  | error e =>
    rw [hopen] at haudit
    exact ⟨before, haudit, fun a ha _ => hkept a ha, hfound⟩
  | ok fs =>
    rw [hopen] at haudit
    refine ⟨_, haudit, fun a ha hdel => ?_, fun a ha => (hfound a ha).imp_left fun ha => ?_⟩
    · rcases mem_collectDeleted.mp ha with ha | ⟨dir, -, n, -, -, rfl⟩
      · exact hkept a ha
      · rw [isDeletedFinding_deletedFinding] at hdel
        exact absurd hdel (by simp)
    · exact mem_collectDeleted.mpr (Or.inl ha)

/-- How the audit of a source of an image may end. -/
def AuditEnds (img : List UInt8) (log : σ → List IoError) (s : σ)
    (out : Result (List Anomaly) × σ) : Prop :=
  ∃ faults, log out.2 = log s ++ faults ∧ (faults = [] → out.1 = Audit.auditReader img) ∧
    (∀ e, out.1 = .error e →
      Audit.auditReader img = .error e ∨ ∃ f, faults = [f] ∧ Reported f e) ∧
    ∀ found, out.1 = .ok found → Reports img found

lemma AuditEnds.failed {s s' : σ} {f : IoError} {e : FatError} (hrep : Reported f e)
    (hlog : log s' = log s ++ [f]) : AuditEnds img log s (.error e, s') := by
  refine ⟨[f], hlog, fun hnil => absurd hnil (by simp), fun e' he => ?_,
    fun found hok => absurd hok (by simp)⟩
  obtain rfl := Except.error.inj he
  exact Or.inr ⟨f, rfl, hrep⟩

lemma AuditEnds.found {s s' : σ} {found : List Anomaly} (hlog : log s <+: log s')
    (hsame : log s' = log s → Audit.auditReader img = .ok found) (hrep : Reports img found) :
    AuditEnds img log s (.ok found, s') := by
  obtain ⟨faults, hfaults⟩ := hlog
  refine ⟨faults, hfaults.symm, fun hnil => ?_, fun e he => absurd he (by simp),
    fun found' hok => ?_⟩
  · rw [hnil, List.append_nil] at hfaults
    exact (hsame hfaults.symm).symm
  · obtain rfl := Except.ok.inj hok
    exact hrep

lemma AuditEnds.congr {s s₁ : σ} {out : Result (List Anomaly) × σ}
    (hends : AuditEnds img log s₁ out) (hlog : log s₁ = log s) : AuditEnds img log s out := by
  rw [AuditEnds, hlog] at hends
  exact hends

/-- The audit of an image, from its boot sector on. -/
lemma auditReader_of_boot {boot : List UInt8} {geom : Geometry}
    (hboot : readExact "read" img 0 512 = .ok boot)
    (hparsed : (if slice boot 3 8 = Exfat.SIGNATURE then Exfat.parseBoot boot
      else Geometry.parse boot) = .ok geom) {sigs : List Anomaly}
    (hsigs : (if leU16 boot 510 ≠ 0xAA55 then
      [Anomaly.new (.bootSignatureInvalid (leU16 boot 510))] else []) = sigs) :
    Audit.auditReader img = match FatFs.openImage img with
      | .error _ => .ok (sigs ++ Audit.structuralFindings img geom)
      | .ok fs => .ok (Audit.collectDeleted fs Audit.MAX_DEPTH FatFs.root
          ([], sigs ++ Audit.structuralFindings img geom)).2 := by
  have hfound : (if geom.variant = .exFat then sigs ++ Audit.auditExfatChecksum img geom
      else if geom.numFats ≥ 2 then sigs ++ Audit.auditFatMirror img geom else sigs)
        = sigs ++ Audit.structuralFindings img geom := by
    rw [Audit.structuralFindings]
    split
    · rfl
    · split
      · rfl
      · rw [List.append_nil]
  rw [← hfound, ← hsigs]
  cases hopen : FatFs.openImage img with
  | error e => simp only [Audit.auditReader, hboot, bind, Except.bind, hparsed, hopen]
  | ok fs => simp only [Audit.auditReader, hboot, bind, Except.bind, hparsed, hopen]

/-- The audit of a source from the open on, behind the findings that the image gives before it. -/
lemma IsOver.auditEnds_walk (h : r.IsOver fuel img rest interrupts log) {before : List Anomaly}
    (haudit : Audit.auditReader img = match FatFs.openImage img with
      | .error _ => .ok before
      | .ok fs => .ok (Audit.collectDeleted fs Audit.MAX_DEPTH FatFs.root ([], before)).2)
    (s : σ) :
    ((r.openFs fuel).attempt >>= fun opened => match opened with
      | .error _ => pure before
      | .ok m => do
        let st ← r.collectDeleted fuel m Audit.MAX_DEPTH FatFs.root ([], before)
        pure st.2).Meets s (AuditEnds img log s) := by
  refine h.openFs.bind_attempt s fun opened s₁ hend => ?_
  cases opened with
  | error e =>
    refine .pure (.found hend.log_prefix (fun hsame => ?_)
      (reports_of_addsLeads haudit (Or.inl rfl)))
    have hopen : (FatFs.openImage img).map Mounted.of = .error e := (hend.eq_of_log_eq hsame).symm
    rw [haudit, map_eq_error.mp hopen]
  | ok m =>
    obtain ⟨hm, hlog⟩ := ends_ok.mp hend
    obtain ⟨fs, hopen, rfl⟩ := map_eq_ok.mp hm
    obtain rfl := (FatFs.openImage_ok hopen).image
    refine Meets.bind_value (R := fun st s₂ => AddsLeads fs before st.2 ∧ log s₁ <+: log s₂ ∧
      (log s₂ = log s₁ → st = Audit.collectDeleted fs Audit.MAX_DEPTH FatFs.root ([], before)))
      (h.collectDeleted (.nil _) (Nat.zero_add _) _ s₁) fun st s₂ hwalk => ?_
    obtain ⟨hadds, hbegins, hsame⟩ := hwalk
    rw [hlog] at hbegins hsame
    refine .pure (.found hbegins (fun hlog₂ => ?_)
      (reports_of_addsLeads haudit (Or.inr ⟨fs, hopen, hadds⟩)))
    rw [haudit, hopen, hsame hlog₂]

/-- **A failing source hides deleted entries and nothing else.**  Over any source of an image the
audit ends.  Its error is that of the image or reports the one failure met; its findings are there,
with all that the image gives but for deleted entries; and without a failure it is the audit of the
image. -/
theorem IsOver.auditReader_reports (h : r.IsOver fuel img rest interrupts log) (s : σ) :
    ∃ out s' faults, (r.auditReader fuel).exec s = some (out, s') ∧ log s' = log s ++ faults ∧
      (faults = [] → out = Audit.auditReader img) ∧
      (∀ e, out = .error e → Audit.auditReader img = .error e ∨ ∃ f, faults = [f] ∧ Reported f e) ∧
      ∀ found, out = .ok found → Reports img found := by
  suffices hmeets : (r.auditReader fuel).Meets s (AuditEnds img log s) by
    obtain ⟨out, hexec, faults, hall⟩ := hmeets
    exact ⟨out.1, out.2, faults, hexec, hall⟩
  refine (h.exactAt "read" 0 (by norm_num) s).bind (fun boot s₁ hend => ?_) fun e s₁ hend => ?_
  · obtain ⟨hboot, hlog⟩ := ends_ok.mp hend
    dsimp only
    generalize hsigs : (if leU16 boot 510 ≠ 0xAA55 then
      [Anomaly.new (.bootSignatureInvalid (leU16 boot 510))] else []) = sigs
    generalize hparsed : (if slice boot 3 8 = Exfat.SIGNATURE then Exfat.parseBoot boot
      else Geometry.parse boot) = parsed
    cases parsed with
    | error e =>
      have haudit : Audit.auditReader img = .ok (sigs ++ [.new (.bpbInvalid e)]) := by
        rw [← hsigs]
        simp only [Audit.auditReader, hboot, bind, Except.bind, hparsed]
      exact .pure (.found (hlog ▸ List.prefix_rfl) (fun _ => haudit)
        ⟨_, haudit, fun a ha _ => ha, fun a ha => Or.inl ha⟩)
    | ok geom =>
      have haudit := auditReader_of_boot hboot hparsed hsigs
      refine (h.structuralFindings geom s₁).bind (fun found s₂ hend => ?_) fun e s₂ hend => ?_
      · obtain ⟨hfound, hlog₂⟩ := ends_ok.mp hend
        obtain rfl := Except.ok.inj hfound
        exact (h.auditEnds_walk haudit s₂).mono fun out hout => hout.congr (hlog₂.trans hlog)
      · rcases ends_error.mp hend with ⟨hfound, -⟩ | ⟨f, hrep, hlog₂⟩
        · exact absurd hfound (by simp)
        · exact .failed hrep (by rw [hlog₂, hlog])
  · rcases ends_error.mp hend with ⟨hboot, hlog⟩ | ⟨f, hrep, hlog⟩
    · have haudit : Audit.auditReader img = .error e := by
        rw [Audit.auditReader, hboot]
        rfl
      refine ⟨[], by rw [hlog, List.append_nil], fun _ => haudit.symm, fun e' he => ?_,
        fun found hok => absurd hok (by simp)⟩
      obtain rfl := Except.error.inj he
      exact Or.inl haudit
    · exact .failed hrep hlog

/-- A read of the walk below the root fails. -/
theorem IsOver.auditReader_reports_flaky :
    ∃ out s' faults, ((flaky Synth.nested.image).auditReader
        (fun _ => Synth.nested.image.length + 1)).exec
          (0, [false, false, false, false, true], []) = some (out, s') ∧
      s'.2.2 = [] ++ faults ∧ (faults = [] → out = Audit.auditReader Synth.nested.image) ∧
      (∀ e, out = .error e →
        Audit.auditReader Synth.nested.image = .error e ∨ ∃ f, faults = [f] ∧ Reported f e) ∧
      ∀ found, out = .ok found → Reports Synth.nested.image found :=
  (flaky_isOver Synth.nested.image).auditReader_reports (0, [false, false, false, false, true], [])

-- one of the two deleted entries is hidden
example : (((flaky Synth.nested.image).auditReader (fun _ => Synth.nested.image.length + 1)).exec
      (0, [false, false, false, false, true], [])).map (fun out =>
        (out.1.toOption.map List.length, out.2.2.2))
    = some (some 1, [⟨.other, "device error"⟩]) := by decide +kernel

example : (Audit.auditReader Synth.nested.image).toOption.map List.length = some 2 := by
  decide +kernel

end Reader
end FatForensic
