import FatForensic.Forensic.Mirror
import FatForensic.Forensic.StoredOutput
import FatForensic.Volume.Written

/-!
# No false alarms

On a volume that was written as it should be, the audit has nothing to report but the deleted
records of the plan.
-/

namespace FatForensic
namespace Plan

open Window Audit

variable {ρ κ : Type} {P : Plan ρ κ} {F : DirFormat ρ} {boot : List UInt8} {g : Geometry}
  {objects : List κ}

/-- The copies of the FAT that are written are equal. -/
lemma Fits.fatCopy_write (h : P.Fits F boot g objects) (hvar : g.variant ≠ .exFat) {j : ℕ}
    (h1 : 1 ≤ j) (hj : j ≤ g.numFats) :
    fatCopy (P.write F boot g objects) g j = P.fatTable objects g := by
  obtain hparse | hparse := h.accepts
  · have hend := (Geometry.mirrorEnd_add_le hparse).1
    have hmul : (j - 1 + 1) * (g.fatSizeSectors * g.bytesPerSector)
        ≤ g.numFats * (g.fatSizeSectors * g.bytesPerSector) := Nat.mul_le_mul_right _ (by omega)
    rw [Geometry.mirrorEnd, Nat.mul_assoc] at hend
    exact h.slice_fatTable (by omega) (by omega)
  · exact absurd (Geometry.variant_of_parseBoot hparse) hvar

/-- Nothing is wrong with the structure of what is written. -/
lemma Fits.structuralFindings_write (h : P.Fits F boot g objects)
    (hboot : g.variant = .exFat →
      g.bytesPerSector * 12 ≤ g.fatStart ∧ auditExfatChecksum boot g = []) :
    structuralFindings (P.write F boot g objects) g = [] := by
  rw [structuralFindings]
  split
  next hvar =>
    -- the checksum covers the boot region alone
    obtain ⟨hle, hsum⟩ := hboot hvar
    have hregion : slice (P.write F boot g objects) 0 (g.bytesPerSector * 12)
        = slice boot 0 (g.bytesPerSector * 12) := by
      rw [slice, slice, List.drop_zero, List.drop_zero, h.take_write hle]
    rw [← hsum, auditExfatChecksum, auditExfatChecksum, readUpto_eq, readUpto_eq, hregion]
  next hvar =>
    split
    next h2 =>
      have hend : g.mirrorEnd ≤ (P.write F boot g objects).length := by
        obtain hparse | hparse := h.accepts
        · have := (Geometry.mirrorEnd_add_le hparse).1
          rw [h.length_write]
          omega
        · exact absurd (Geometry.variant_of_parseBoot hparse) hvar
      have hequal : disagreements (fatCopy (P.write F boot g objects) g 1)
          (fatCopy (P.write F boot g objects) g 2) = [] := by
        rw [disagreements_fatCopy_eq_nil_iff (by omega) h2 hend, h.fatCopy_write hvar (by omega) h2,
          h.fatCopy_write hvar le_rfl (by omega)]
      rw [auditFatMirror_eq h2 hend, hequal]
    next => rfl

/-- **No false alarms.**  On the image that a plan is written to, the audit reports the deleted
entries of the plan's tree, in its order, and nothing else; for exFAT the boot region has to be
one that passes the check of its sum. -/
theorem auditReader_write (h : P.Fits F boot g objects)
    (hF : ∀ fs : FatFs, fs.geom = g → fs.HasFormat F)
    (hboot : g.variant = .exFat →
      g.bytesPerSector * 12 ≤ g.fatStart ∧ auditExfatChecksum boot g = [])
    (hlabel : NoDeletedLabel P F) (hnodup : (treeClusters P F).Nodup) :
    auditReader (P.write F boot g objects) = .ok ((treeDeleted P F).map deletedFinding) := by
  obtain ⟨fs, hopen, rfl⟩ := h.openImage_write
  rw [h.storedIn.auditReader_eq hopen (hF fs rfl) hlabel hnodup, h.structuralFindings_write hboot,
    List.nil_append]

/-- On the FAT sample the deleted file is reported. -/
theorem auditReader_write_sample :
    auditReader (samplePlan.write fatFormat (Synth.bpb 1 16 7 0) sampleVolume.reader.geom
      (List.finRange 5)) = .ok ((treeDeleted samplePlan fatFormat).map deletedFinding) := by
  have hvar : sampleVolume.reader.geom.variant ≠ .exFat := by
    rw [storage_sample.2.2.1]
    decide
  exact auditReader_write fits_sample (fun fs hgeom => .fat (by rw [hgeom]; exact hvar))
    (fun hexfat => absurd hexfat hvar) noDeletedLabel_sample (by decide +kernel)

end Plan
end FatForensic
