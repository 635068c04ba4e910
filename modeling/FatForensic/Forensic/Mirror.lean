import FatForensic.Forensic.Walk
import FatForensic.Volume.MirrorBlind

/-!
# The comparison of the FAT copies

The audit compares the first copy of the FAT with the second one.  What it reports is true of
all copies exactly when those from the third one on are equal to the first.
-/

namespace FatForensic

open Window

/-- The `j`-th copy of the FAT, counted from 1. -/
def fatCopy (img : List UInt8) (g : Geometry) (j : ℕ) : List UInt8 :=
  slice img (g.fatStart + (j - 1) * (g.fatSizeSectors * g.bytesPerSector))
    (g.fatSizeSectors * g.bytesPerSector)

/-- The offsets at which two byte strings of one length disagree, in order. -/
def disagreements (xs ys : List UInt8) : List ℕ :=
  (List.range xs.length).filter fun o => xs[o]? ≠ ys[o]?

lemma mem_disagreements {xs ys : List UInt8} {o : ℕ} :
    o ∈ disagreements xs ys ↔ o < xs.length ∧ xs[o]? ≠ ys[o]? := by
  simp [disagreements]

lemma disagreements_eq_nil_iff {xs ys : List UInt8} (hlen : ys.length = xs.length) :
    disagreements xs ys = [] ↔ ys = xs := by
  rw [List.eq_nil_iff_forall_not_mem]
  simp only [mem_disagreements, not_and, not_not]
  constructor
  · intro h
    apply List.ext_getElem?
    intro o
    by_cases ho : o < xs.length
    · exact (h o ho).symm
    · rw [List.getElem?_eq_none (by omega), List.getElem?_eq_none (by omega)]
  · rintro rfl o -
    rfl

/-- The first disagreement is the least one. -/
lemma isLeast_of_disagreements {xs ys : List UInt8} {o : ℕ} {os : List ℕ}
    (h : disagreements xs ys = o :: os) : IsLeast {o | o ∈ disagreements xs ys} o := by
  have hsorted : (disagreements xs ys).Pairwise (· < ·) :=
    List.pairwise_lt_range.filter _
  rw [h, List.pairwise_cons] at hsorted
  refine ⟨by simp [h], fun o' ho' => ?_⟩
  have ho' : o' ∈ disagreements xs ys := ho'
  rw [h] at ho'
  rcases List.mem_cons.mp ho' with rfl | hmem
  · exact le_rfl
  · exact (hsorted.1 o' hmem).le

namespace Audit

/-- A mirror mismatch in a report. -/
def IsMirrorMismatch (a : Anomaly) : Prop :=
  ∃ fatOffset fat1 fat2 differing, a.kind = .fatMirrorMismatch fatOffset fat1 fat2 differing

/-- A report is exact about the FAT copies: it has a mismatch when a later copy differs from the
first one, at the least offset at which one does, and with the number of disagreements of all
later copies. -/
def MirrorExact (img : List UInt8) (g : Geometry) (out : List Anomaly) : Prop :=
  ((∃ a ∈ out, IsMirrorMismatch a) ↔
    ∃ j, 2 ≤ j ∧ j ≤ g.numFats ∧ fatCopy img g j ≠ fatCopy img g 1) ∧
  ∀ a ∈ out, ∀ fatOffset fat1 fat2 differing,
    a.kind = .fatMirrorMismatch fatOffset fat1 fat2 differing →
    IsLeast {o | ∃ j, 2 ≤ j ∧ j ≤ g.numFats ∧
      o ∈ disagreements (fatCopy img g 1) (fatCopy img g j)} fatOffset ∧
    differing = ∑ j ∈ Finset.Icc 2 g.numFats,
      (disagreements (fatCopy img g 1) (fatCopy img g j)).length

/-! ## The comparison -/

/-- **The comparison of two copies**: the first disagreement, and how many there are. -/
lemma foldl_mirrorStep (ps : List ((UInt8 × UInt8) × ℕ))
    (st : Option (ℕ × UInt8 × UInt8) × ℕ) :
    ps.foldl mirrorStep st =
      (st.1.or ((ps.filter fun p => p.1.1 ≠ p.1.2).head?.map fun p => (p.2, p.1.1, p.1.2)),
        st.2 + (ps.filter fun p => p.1.1 ≠ p.1.2).length) := by
  induction ps generalizing st with
  | nil => simp
  | cons p ps ih =>
    rw [List.foldl_cons, ih, mirrorStep]
    by_cases hp : p.1.1 ≠ p.1.2
    · rw [if_pos hp, List.filter_cons_of_pos (by simpa using hp), List.length_cons]
      refine Prod.ext ?_ (by dsimp only; omega)
      obtain ⟨first, differing⟩ := st
      cases first <;> rfl
    · rw [if_neg hp, List.filter_cons_of_neg (by simpa using hp)]

lemma map_snd_filter_zip {xs ys : List UInt8} (hlen : ys.length = xs.length) :
    ((xs.zip ys).zipIdx.filter fun p => p.1.1 ≠ p.1.2).map Prod.snd = disagreements xs ys := by
  have hfilter : ((xs.zip ys).zipIdx.filter fun p => p.1.1 ≠ p.1.2)
      = (xs.zip ys).zipIdx.filter ((fun o => decide (xs[o]? ≠ ys[o]?)) ∘ Prod.snd) := by
    refine List.filter_congr fun p hp => ?_
    obtain ⟨⟨a, b⟩, o⟩ := p
    have hget := List.mk_mem_zipIdx_iff_getElem?.mp hp
    obtain ⟨ha, hb⟩ := List.getElem?_zip_eq_some.mp hget
    simp [ha, hb]
  rw [hfilter, ← List.filter_map, List.zipIdx_map_snd, List.length_zip, hlen, Nat.min_self,
    disagreements, List.range_eq_range']

lemma length_fatCopy {img : List UInt8} {g : Geometry} {j : ℕ} (h1 : 1 ≤ j) (hj : j ≤ g.numFats)
    (hpresent : g.mirrorEnd ≤ img.length) :
    (fatCopy img g j).length = g.fatSizeSectors * g.bytesPerSector := by
  have hmul : (j - 1 + 1) * (g.fatSizeSectors * g.bytesPerSector)
      ≤ g.numFats * (g.fatSizeSectors * g.bytesPerSector) := Nat.mul_le_mul_right _ (by omega)
  rw [Geometry.mirrorEnd, Nat.mul_assoc] at hpresent
  rw [Nat.succ_mul] at hmul
  rw [fatCopy, length_slice]
  omega

/-- The check reports the disagreements of the second copy. -/
lemma auditFatMirror_eq {img : List UInt8} {g : Geometry} (h2 : 2 ≤ g.numFats)
    (hpresent : g.mirrorEnd ≤ img.length) :
    auditFatMirror img g =
      match disagreements (fatCopy img g 1) (fatCopy img g 2) with
      | [] => []
      | o :: os => [.new (.fatMirrorMismatch o (u8At (fatCopy img g 1) o)
          (u8At (fatCopy img g 2) o) (os.length + 1))] := by
  have hlen1 := length_fatCopy (j := 1) (g := g) le_rfl (by omega) hpresent
  have hlen2 := length_fatCopy (j := 2) (g := g) (by omega) h2 hpresent
  have hcopy1 : slice img g.fatStart (g.fatSizeSectors * g.bytesPerSector) = fatCopy img g 1 := by
    rw [fatCopy, Nat.sub_self, Nat.zero_mul, Nat.add_zero]
  have hcopy2 : slice img (g.fatStart + g.fatSizeSectors * g.bytesPerSector)
      (g.fatSizeSectors * g.bytesPerSector) = fatCopy img g 2 := by
    rw [fatCopy, show 2 - 1 = 1 from rfl, Nat.one_mul]
  have hoffsets := map_snd_filter_zip (hlen2.trans hlen1.symm)
  rw [auditFatMirror]
  dsimp only
  rw [readUpto_eq, readUpto_eq, hcopy1, hcopy2, hlen1, hlen2, if_neg (lt_irrefl _),
    if_neg (lt_irrefl _), foldl_mirrorStep]
  by_cases hzero : g.fatSizeSectors * g.bytesPerSector = 0
  · rw [if_pos hzero, List.eq_nil_of_length_eq_zero (hlen1.trans hzero)]
    rfl
  rw [if_neg hzero, ← hoffsets]
  cases hps : ((fatCopy img g 1).zip (fatCopy img g 2)).zipIdx.filter fun p => p.1.1 ≠ p.1.2 with
  | nil => rfl
  | cons p ps =>
    obtain ⟨⟨a, b⟩, o⟩ := p
    have hmem : ((a, b), o) ∈ ((fatCopy img g 1).zip (fatCopy img g 2)).zipIdx := by
      refine List.mem_of_mem_filter (p := fun p => decide (p.1.1 ≠ p.1.2)) ?_
      rw [hps]
      exact List.mem_cons_self
    obtain ⟨ha, hb⟩ := List.getElem?_zip_eq_some.mp (List.mk_mem_zipIdx_iff_getElem?.mp hmem)
    have hbytes : u8At (fatCopy img g 1) o = a ∧ u8At (fatCopy img g 2) o = b := by
      rw [u8At, u8At, ha, hb]
      exact ⟨rfl, rfl⟩
    simp only [List.map_cons, hbytes.1, hbytes.2, List.length_map]
    simp [Option.or]

/-! ## The report -/

/-- The mirror mismatches of a report are those of the check. -/
lemma auditReader_mirror {img : List UInt8} {g : Geometry} (hlen : 512 ≤ img.length)
    (hsig : slice img 3 8 ≠ Exfat.SIGNATURE) (hparse : Geometry.parse (img.take 512) = .ok g)
    (h2 : 2 ≤ g.numFats) :
    ∃ out, auditReader img = .ok out ∧
      ∀ a, IsMirrorMismatch a → (a ∈ out ↔ a ∈ auditFatMirror img g) := by
  obtain ⟨fs, hopen, rfl⟩ := FatFs.exists_openImage_of_parse hlen hsig hparse
  refine ⟨_, auditReader_eq hopen, fun a ha => ?_⟩
  rw [mem_collectDeleted, structuralFindings,
    if_neg (Geometry.variant_ne_exFat_of_parse hparse), if_pos h2]
  refine or_iff_left ?_
  rintro ⟨dir, -, n, -, -, rfl⟩
  obtain ⟨o, b, b', k, hkind⟩ := ha
  exact absurd hkind (by simp [deletedFinding, Anomaly.new])

lemma disagreements_fatCopy_eq_nil_iff {img : List UInt8} {g : Geometry} {j : ℕ} (h1 : 1 ≤ j)
    (hj : j ≤ g.numFats) (hpresent : g.mirrorEnd ≤ img.length) :
    disagreements (fatCopy img g 1) (fatCopy img g j) = [] ↔
      fatCopy img g j = fatCopy img g 1 := by
  refine disagreements_eq_nil_iff ?_
  rw [length_fatCopy h1 hj hpresent, length_fatCopy le_rfl (h1.trans hj) hpresent]

/-- The copies from the third one on are equal to the first when they have no disagreements. -/
lemma copies_eq_iff_sum {img : List UInt8} {g : Geometry} (hpresent : g.mirrorEnd ≤ img.length) :
    (∀ j, 3 ≤ j → j ≤ g.numFats → fatCopy img g j = fatCopy img g 1) ↔
      ∑ j ∈ Finset.Ioc 2 g.numFats,
        (disagreements (fatCopy img g 1) (fatCopy img g j)).length = 0 := by
  rw [Finset.sum_eq_zero_iff]
  refine forall_congr' fun j => ?_
  rw [Finset.mem_Ioc, and_imp, List.length_eq_zero_iff]
  exact forall₂_congr fun h3 hj =>
    (disagreements_fatCopy_eq_nil_iff (by omega) hj hpresent).symm

/-- A report without a mismatch is exact when the copies agree from the third one on, the second
one being equal to the first. -/
lemma mirrorExact_iff_of_eq {img : List UInt8} {g : Geometry} {out : List Anomaly}
    (hnone : ∀ a ∈ out, ¬ IsMirrorMismatch a) (hsecond : fatCopy img g 2 = fatCopy img g 1) :
    MirrorExact img g out ↔
      ∀ j, 3 ≤ j → j ≤ g.numFats → fatCopy img g j = fatCopy img g 1 := by
  constructor
  · intro hexact j hj3 hj
    by_contra hne
    obtain ⟨a, ha, hmis⟩ := hexact.1.mpr ⟨j, by omega, hj, hne⟩
    exact hnone a ha hmis
  · intro hrest
    refine ⟨⟨?_, ?_⟩, fun a ha o b b' k hkind => absurd ⟨o, b, b', k, hkind⟩ (hnone a ha)⟩
    · rintro ⟨a, ha, hmis⟩
      exact absurd hmis (hnone a ha)
    · rintro ⟨j, hj2, hj, hne⟩
      rcases Nat.eq_or_lt_of_le hj2 with rfl | hj3
      · exact absurd hsecond hne
      · exact absurd (hrest j hj3 hj) hne

/-- A report of the disagreements of the second copy is exact when the others have none. -/
lemma mirrorExact_iff_of_ne {img : List UInt8} {g : Geometry} {out : List Anomaly} {o : ℕ}
    {os : List ℕ} {b b' : UInt8} (h2 : 2 ≤ g.numFats) (hpresent : g.mirrorEnd ≤ img.length)
    (hD : disagreements (fatCopy img g 1) (fatCopy img g 2) = o :: os)
    (hout : ∀ a, IsMirrorMismatch a →
      (a ∈ out ↔ a = .new (.fatMirrorMismatch o b b' (os.length + 1)))) :
    MirrorExact img g out ↔
      ∀ j, 3 ≤ j → j ≤ g.numFats → fatCopy img g j = fatCopy img g 1 := by
  have hreported : Anomaly.new (.fatMirrorMismatch o b b' (os.length + 1)) ∈ out :=
    (hout _ ⟨_, _, _, _, rfl⟩).mpr rfl
  have hsum := Finset.sum_Ioc_add_eq_sum_Icc
    (f := fun j => (disagreements (fatCopy img g 1) (fatCopy img g j)).length) h2
  rw [hD, List.length_cons] at hsum
  rw [copies_eq_iff_sum hpresent]
  constructor
  · intro hexact
    have hcount := (hexact.2 _ hreported _ _ _ _ rfl).2
    omega
  · intro hzero
    have hsecond : fatCopy img g 2 ≠ fatCopy img g 1 := by
      rw [Ne, ← disagreements_fatCopy_eq_nil_iff (by omega) h2 hpresent, hD]
      exact List.cons_ne_nil _ _
    refine ⟨iff_of_true ⟨_, hreported, _, _, _, _, rfl⟩ ⟨2, le_rfl, h2, hsecond⟩, ?_⟩
    intro a ha o' c c' k hkind
    rw [(hout a ⟨_, _, _, _, hkind⟩).mp ha, Anomaly.new,
      AnomalyKind.fatMirrorMismatch.injEq] at hkind
    obtain ⟨rfl, -, -, rfl⟩ := hkind
    refine ⟨?_, by omega⟩
    have hset : {o | ∃ j, 2 ≤ j ∧ j ≤ g.numFats ∧
        o ∈ disagreements (fatCopy img g 1) (fatCopy img g j)}
        = {o | o ∈ disagreements (fatCopy img g 1) (fatCopy img g 2)} := by
      ext o'
      constructor
      · rintro ⟨j, hj2, hj, ho'⟩
        rcases Nat.eq_or_lt_of_le hj2 with rfl | hj3
        · exact ho'
        · have hnil := Finset.sum_eq_zero_iff.mp hzero j (Finset.mem_Ioc.mpr ⟨hj3, hj⟩)
          rw [List.length_eq_zero_iff] at hnil
          rw [hnil] at ho'
          exact absurd ho' (by simp)
      · exact fun ho' => ⟨2, le_rfl, h2, ho'⟩
    rw [hset]
    exact isLeast_of_disagreements hD

/-- **When the report is exact about all FAT copies**: exactly when the copies from the third one
on are equal to the first. -/
theorem mirrorExact_iff {img : List UInt8} {g : Geometry}
    (hsig : slice img 3 8 ≠ Exfat.SIGNATURE) (hparse : Geometry.parse (img.take 512) = .ok g)
    (h2 : 2 ≤ g.numFats) (hpresent : g.mirrorEnd ≤ img.length) :
    ∃ out, auditReader img = .ok out ∧
      (MirrorExact img g out ↔
        ∀ j, 3 ≤ j → j ≤ g.numFats → fatCopy img g j = fatCopy img g 1) := by
  have hlen : 512 ≤ img.length := by
    have hstart := (Geometry.regions_of_parse hparse).1
    rw [Geometry.mirrorEnd] at hpresent
    omega
  obtain ⟨out, hout, hmem⟩ := auditReader_mirror hlen hsig hparse h2
  refine ⟨out, hout, ?_⟩
  have hcheck := auditFatMirror_eq h2 hpresent
  cases hD : disagreements (fatCopy img g 1) (fatCopy img g 2) with
  | nil =>
    -- nothing is reported, which is right when no other copy differs either
    rw [hD] at hcheck
    refine mirrorExact_iff_of_eq (fun a ha hmis => ?_)
      ((disagreements_fatCopy_eq_nil_iff (by omega) h2 hpresent).mp hD)
    rw [hmem a hmis, hcheck] at ha
    exact absurd ha (by simp)
  | cons o os =>
    -- the disagreements of the second copy are reported, and those of the others are left out
    rw [hD] at hcheck
    have hmismatch : ∀ a, IsMirrorMismatch a → (a ∈ out ↔ a = .new (.fatMirrorMismatch o
        (u8At (fatCopy img g 1) o) (u8At (fatCopy img g 2) o) (os.length + 1))) := by
      intro a hmis
      rw [hmem a hmis, hcheck, List.mem_singleton]
    exact mirrorExact_iff_of_ne h2 hpresent hD hmismatch

/-- A FAT12 volume with three FATs, the third byte of which is given for each. -/
def threeFats (first second third : ℕ) : List UInt8 :=
  (Synth.bpb 1 16 16 0).set 16 3 ++ Synth.table 1 [0xF8, 0xFF, first]
    ++ Synth.table 1 [0xF8, 0xFF, second] ++ Synth.table 1 [0xF8, 0xFF, third]
    ++ Synth.sectors 1 [] ++ Synth.sectors 1 []

/-- The geometry of these volumes. -/
def threeFatsGeometry : Geometry :=
  (Geometry.parse ((threeFats 0 0 0).take 512)).toOption.getD default

/-- Where the third copy agrees with the first, the report is exact. -/
theorem mirrorExact_second :
    ∃ out, auditReader (threeFats 0xFF 0xFE 0xFF) = .ok out ∧
      MirrorExact (threeFats 0xFF 0xFE 0xFF) threeFatsGeometry out := by
  have hvolume : slice (threeFats 0xFF 0xFE 0xFF) 3 8 ≠ Exfat.SIGNATURE ∧
      Geometry.parse ((threeFats 0xFF 0xFE 0xFF).take 512) = .ok threeFatsGeometry ∧
      threeFatsGeometry.numFats = 3 ∧
      threeFatsGeometry.mirrorEnd ≤ (threeFats 0xFF 0xFE 0xFF).length ∧
      fatCopy (threeFats 0xFF 0xFE 0xFF) threeFatsGeometry 3
        = fatCopy (threeFats 0xFF 0xFE 0xFF) threeFatsGeometry 1 := by
    decide +kernel
  obtain ⟨hsig, hparse, hnum, hpresent, hthird⟩ := hvolume
  obtain ⟨out, hout, hiff⟩ := mirrorExact_iff hsig hparse (by omega) hpresent
  refine ⟨out, hout, hiff.mpr fun j hj3 hj => ?_⟩
  obtain rfl : j = 3 := by omega
  exact hthird

/-- **A third FAT copy is not compared**: where it alone differs from the first, nothing is
reported. -/
theorem not_mirrorExact_third :
    ¬ ∀ (img : List UInt8) (g : Geometry), slice img 3 8 ≠ Exfat.SIGNATURE →
      Geometry.parse (img.take 512) = .ok g → 2 ≤ g.numFats → g.mirrorEnd ≤ img.length →
      ∀ out, auditReader img = .ok out → MirrorExact img g out := by
  intro h
  have hvolume : slice (threeFats 0xFF 0xFF 0xFE) 3 8 ≠ Exfat.SIGNATURE ∧
      Geometry.parse ((threeFats 0xFF 0xFF 0xFE).take 512) = .ok threeFatsGeometry ∧
      threeFatsGeometry.numFats = 3 ∧
      threeFatsGeometry.mirrorEnd ≤ (threeFats 0xFF 0xFF 0xFE).length ∧
      fatCopy (threeFats 0xFF 0xFF 0xFE) threeFatsGeometry 3
        ≠ fatCopy (threeFats 0xFF 0xFF 0xFE) threeFatsGeometry 1 ∧
      auditReader (threeFats 0xFF 0xFF 0xFE) = .ok [] := by
    decide +kernel
  obtain ⟨hsig, hparse, hnum, hpresent, hthird, hout⟩ := hvolume
  obtain ⟨hreport, -⟩ := h _ _ hsig hparse (by omega) hpresent _ hout
  obtain ⟨a, ha, -⟩ := hreport.mpr ⟨3, by omega, by omega, hthird⟩
  exact absurd ha (by simp)

end Audit
end FatForensic
