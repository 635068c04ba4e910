import FatForensic.Volume.BitStream
import FatForensic.Volume.Navigation

/-!
# Volumes are read back

What is stored on a volume is what the reader finds: along every path, on FAT and on exFAT, with
the contents of all files.
-/

namespace FatForensic

open Window Hierarchy

namespace Plan

variable {ρ κ : Type} {F : DirFormat ρ} {P : Plan ρ κ} {img : List UInt8} {fs : FatFs}

/-- **Volumes are read back.**  On an image that stores a plan in directories of the volume's
format, `lookup` leads along every path of names but `.` and `..` where the plan's names lead, and
fails where they fail; the handle at the end gives the content of the object, and its nodes for a
directory. -/
theorem resolvePath_presents (hopen : FatFs.openImage img = .ok fs) (hF : fs.HasFormat F)
    (h : P.StoredIn F img fs.geom) {path : List (List UInt8)}
    (hpath : ∀ name ∈ path, IsPlain name) :
    Option.Rel (P.Presents F fs) (fs.resolvePath path) (resolve (P.store F) P.root path) := by
  have hrel := h.resolvePath hopen hF.reads hpath
  generalize fs.resolvePath path = r, resolve (P.store F) P.root path = r' at hrel
  cases hrel with
  | none => exact .none
  | some hid => exact .some (hid.presents h hopen hF.reads)

/-! ## A FAT volume -/

/-- The record of a live entry with a name of two bytes. -/
def record (a b attr : UInt8) (ha : a ≠ Dirent.END ∧ a ≠ Dirent.DELETED)
    (hattr : attr ≠ Dirent.ATTR_LFN) (firstCluster size : UInt32) (long : Option Dirent.LongName) :
    Dirent.Record :=
  .live
    { name := a :: b :: List.replicate 9 0x20, length_name := rfl, attr, attr_ne := hattr
      ntFlags := 0, tenths := 0, createdTime := 0, createdDate := 0, accessedDate := 0
      modifiedTime := 0, modifiedDate := 0, firstCluster, size }
    ha.1 ha.2 long

/-- The record of a deleted file with a name of two bytes. -/
def deletedRecord (b : UInt8) : Dirent.Record :=
  .deletedShort
    { name := Dirent.DELETED :: b :: List.replicate 9 0x20, length_name := rfl, attr := 0x20
      attr_ne := Dirent.archive_ne, ntFlags := 0, tenths := 0, createdTime := 0, createdDate := 0
      accessedDate := 0, modifiedTime := 0, modifiedDate := 0, firstCluster := 4, size := 100 }
    rfl

lemma letter_ne : (0x41 : UInt8) ≠ Dirent.END ∧ (0x41 : UInt8) ≠ Dirent.DELETED := by decide

lemma dot_ne : (0x2E : UInt8) ≠ Dirent.END ∧ (0x2E : UInt8) ≠ Dirent.DELETED := by decide

lemma directory_ne : (0x10 : UInt8) ≠ Dirent.ATTR_LFN := by decide

/-- A long name of 14 units. -/
def fourteen : Dirent.LongName where
  units := List.replicate 14 0x61
  length_pos := by decide
  length_le := by decide
  ne := fun u hu => by rw [List.eq_of_mem_replicate hu]; decide

/-- A root with a file of 521 bytes in the clusters 4 and 2 and a directory in cluster 3, which
lists the dot entries, an empty file, a file with a long name in cluster 5, and a deleted file. -/
def samplePlan : Plan Dirent.Record (Fin 5) where
  root := 0
  content := ![
    .dir [(record 0x41 0x20 0x20 letter_ne Dirent.archive_ne 4 521 none, some 1),
        (record 0x41 0x42 0x10 letter_ne directory_ne 3 0 none, some 2)] (List.replicate 448 0),
    .file (List.replicate 512 1 ++ List.replicate 9 2),
    .dir [(record 0x2E 0x20 0x10 dot_ne directory_ne 3 0 none, none),
        (record 0x2E 0x2E 0x10 dot_ne directory_ne 0 0 none, none),
        (record 0x41 0x43 0x20 letter_ne Dirent.archive_ne 0 0 none, some 3),
        (record 0x41 0x44 0x20 letter_ne Dirent.archive_ne 5 3 (some fourteen), some 4),
        (deletedRecord 0x45, none)]
      (List.replicate 288 0),
    .file [],
    .file [7, 7, 7]]
  chain := ![[], [4, 2], [3], [], [5]]
  contiguous := fun _ => false

/-- The bytes of a directory of the sample. -/
def sampleDir (k : Fin 5) : List UInt8 :=
  match samplePlan.content k with
  | .file _ => []
  | .dir items tail => fatFormat.encode (items.map Prod.fst) tail

/-- A FAT12 volume that stores the plan. -/
def sampleVolume : Synth.Volume where
  image := Synth.bpb 1 16 7 0
    ++ Synth.sectors 1 (packFat .fat12 [0xFF8, 0xFFF, 0xFFF, 0xFFF, 0x002, 0xFFF])
    ++ sampleDir 0 ++ Synth.sectors 1 (List.replicate 9 2) ++ sampleDir 2
    ++ List.replicate 512 1 ++ Synth.sectors 1 [7, 7, 7]
  opens := by decide +kernel

/-- What the volume stores where. -/
lemma storage_sample :
    sampleVolume.reader.geom.countOfClusters < 0x0FFFFFF6 ∧
      ¬ sampleVolume.reader.geom.RootInHeap ∧
      sampleVolume.reader.geom.variant = .fat12 ∧
      (∀ k, (samplePlan.chain k).all fun c => 2 ≤ c.toNat ∧
        c.toNat ≤ sampleVolume.reader.geom.countOfClusters + 1) ∧
      (∀ k, (samplePlan.chain k).all fun c => sampleVolume.reader.geom.dataStart
        + (c.toNat - 2) * sampleVolume.reader.geom.clusterSize
          + sampleVolume.reader.geom.clusterSize ≤ sampleVolume.image.length) ∧
      (StoresPointer (cachedFat sampleVolume.image sampleVolume.reader.geom) .fat12 4 2 ∧
        StoresPointer (cachedFat sampleVolume.image sampleVolume.reader.geom) .fat12 2 0xFFF ∧
        StoresPointer (cachedFat sampleVolume.image sampleVolume.reader.geom) .fat12 3 0xFFF ∧
        StoresPointer (cachedFat sampleVolume.image sampleVolume.reader.geom) .fat12 5 0xFFF) ∧
      (List.replicate 512 1 ++ List.replicate 9 2
        <+: samplePlan.extent sampleVolume.image sampleVolume.reader.geom 1) ∧
      ([7, 7, 7] <+: samplePlan.extent sampleVolume.image sampleVolume.reader.geom 4) ∧
      slice sampleVolume.image sampleVolume.reader.geom.rootDirStart
        sampleVolume.reader.geom.rootDirBytes = sampleDir 0 ∧
      samplePlan.extent sampleVolume.image sampleVolume.reader.geom 2 = sampleDir 2 := by
  decide +kernel

/-- What the records of the volume describe. -/
lemma names_sample :
    (∃ n, fatBody (record 0x41 0x20 0x20 letter_ne Dirent.archive_ne 4 521 none) = some n ∧
        samplePlan.Names n 1) ∧
      (∃ n, fatBody (record 0x41 0x42 0x10 letter_ne directory_ne 3 0 none) = some n ∧
        samplePlan.Names n 2) ∧
      (∃ n, fatBody (record 0x41 0x43 0x20 letter_ne Dirent.archive_ne 0 0 none) = some n ∧
        samplePlan.Names n 3) ∧
      ∃ n, fatBody (record 0x41 0x44 0x20 letter_ne Dirent.archive_ne 5 3 (some fourteen))
          = some n ∧ samplePlan.Names n 4 := by
  refine ⟨⟨_, rfl, ?_⟩, ⟨_, rfl, ?_⟩, ⟨_, rfl, ?_⟩, ⟨_, rfl, ?_⟩⟩
  · exact ⟨rfl, by decide +kernel, by decide +kernel, by decide, rfl, rfl, by decide +kernel,
      by decide +kernel⟩
  · exact ⟨rfl, by decide +kernel, by decide +kernel, by decide, rfl, rfl,
      by show _ = true; decide +kernel⟩
  · exact ⟨rfl, by decide +kernel, by decide +kernel, by decide, rfl, rfl, by decide +kernel,
      by decide +kernel⟩
  · exact ⟨rfl, by decide +kernel, by decide +kernel, by decide, rfl, rfl, by decide +kernel,
      by decide +kernel⟩

lemma dirs_sample {k : Fin 5} {items : List (Dirent.Record × Option (Fin 5))} {tail : List UInt8}
    (hk : samplePlan.content k = .dir items tail) :
    (k = 0 ∧ samplePlan.content 0 = .dir items tail) ∨
      (k = 2 ∧ samplePlan.content 2 = .dir items tail) := by
  fin_cases k
  · exact Or.inl ⟨rfl, hk⟩
  · nomatch hk
  · exact Or.inr ⟨rfl, hk⟩
  · nomatch hk
  · nomatch hk

lemma storedIn_sample :
    samplePlan.StoredIn fatFormat sampleVolume.image sampleVolume.reader.geom := by
  obtain ⟨hcount, hroot, hvar, hheap, hwhole, ⟨h42, h2, h3, h5⟩, hfile, hlong, hfixed, hdir⟩ :=
    storage_sample
  obtain ⟨hn1, hn2, hn3, hn4⟩ := names_sample
  have hend : MarksEnd .fat12 0xFFF := by decide
  simp only [List.all_eq_true, decide_eq_true_eq] at hheap hwhole
  refine ⟨hcount, hheap, hwhole, fun k _ => ?_, fun k bytes hk => ?_, fun k items tail hk => ?_,
    fun k items tail hk r => ?_, ⟨_, _, rfl⟩, fun h => absurd h hroot⟩
  · rw [hvar]
    fin_cases k
    · exact trivial
    · exact ⟨h42, 0xFFF, h2, hend⟩
    · exact ⟨0xFFF, h3, hend⟩
    · exact trivial
    · exact ⟨0xFFF, h5, hend⟩
  · fin_cases k
    · nomatch hk
    · cases hk
      exact ⟨hfile, by decide, by decide⟩
    · nomatch hk
    · cases hk
      exact ⟨List.nil_prefix, fun _ => rfl, by decide⟩
    · cases hk
      exact ⟨hlong, by decide, by decide⟩
  · obtain ⟨rfl, hk⟩ | ⟨rfl, hk⟩ := dirs_sample hk
    · cases hk
      exact ⟨rfl, by decide +kernel, fun _ => rfl, Or.inl ⟨rfl, hroot, hfixed⟩⟩
    · cases hk
      exact ⟨rfl, by decide +kernel, fun _ => rfl, Or.inr ⟨by decide, hdir⟩⟩
  · obtain ⟨rfl, hk⟩ | ⟨rfl, hk⟩ := dirs_sample hk
    · cases hk
      refine ⟨fun j hj => ?_, fun hj => absurd hj (by simp)⟩
      rcases List.mem_cons.mp hj with heq | hj
      · cases heq
        exact hn1
      · cases List.mem_singleton.mp hj
        exact hn2
    · cases hk
      refine ⟨fun j hj => ?_, fun hj n hn => ?_⟩
      · simp only [List.mem_cons, Prod.mk.injEq, reduceCtorEq, and_false, false_or,
          List.not_mem_nil, or_false, Option.some.injEq] at hj
        rcases hj with ⟨rfl, rfl⟩ | ⟨rfl, rfl⟩
        · exact hn3
        · exact hn4
      · simp only [List.mem_cons, Prod.mk.injEq, reduceCtorEq, and_false, List.not_mem_nil,
          or_false, and_true, false_or] at hj
        rcases hj with rfl | rfl | rfl
        · cases hn
          exact Or.inr (Or.inr (Or.inl (by decide +kernel)))
        · cases hn
          exact Or.inr (Or.inr (Or.inr (by decide +kernel)))
        · cases hn
          exact Or.inl rfl

lemma hasFormat_sample : sampleVolume.reader.HasFormat fatFormat :=
  .fat (by rw [storage_sample.2.2.1]; decide)

/-- The path `AB/aaaaaaaaaaaaaa`. -/
def samplePath : List (List UInt8) := [[0x41, 0x42], List.replicate 14 0x61]

example : sampleVolume.reader.resolvePath samplePath = some (.entry 3 5) := by decide +kernel

/-! ## An exFAT volume -/

/-- A live file record with a name of one unit. -/
def exfatRecord (letter attributes : UInt16) (firstCluster : UInt32) (size : UInt64)
    (noFatChain : Bool) : Exfat.Item :=
  .file
    { deleted := false, attributes, created := 0, modified := 0, accessed := 0, createdTenths := 0
      modifiedTenths := 0, firstCluster, size, noFatChain, units := [letter]
      length_le := Exfat.length_letter_le letter }

/-- The slot of an empty volume label. -/
def labelSlot : List UInt8 := 0x83 :: List.replicate 31 0

lemma length_labelSlot : labelSlot.length = 32 := rfl

lemma labelSlot_ne : u8At labelSlot 0 ≠ 0x00 ∧ u8At labelSlot 0 &&& 0x7F ≠ Exfat.TYPE_FILE := by
  decide

/-- A root with a volume label, a file of 600 bytes in the consecutive clusters 4 and 5 and a
directory in cluster 3, which lists a file of 513 bytes in the chain of the clusters 7 and 6. -/
def exfatPlan : Plan Exfat.Item (Fin 4) where
  root := 0
  content := ![
    .dir [(.other labelSlot length_labelSlot labelSlot_ne.1 labelSlot_ne.2, none),
        (exfatRecord 0x41 0x20 4 600 true, some 1), (exfatRecord 0x42 0x10 3 512 false, some 2)]
      (List.replicate 288 0),
    .file (List.replicate 512 1 ++ List.replicate 88 2),
    .dir [(exfatRecord 0x43 0x20 7 513 false, some 3)] (List.replicate 416 0),
    .file (List.replicate 513 3)]
  chain := ![[2], [4, 5], [3], [7, 6]]
  contiguous := ![false, true, false, false]

/-- The bytes of a directory of the exFAT sample. -/
def exfatDir (k : Fin 4) : List UInt8 :=
  match exfatPlan.content k with
  | .file _ => []
  | .dir items tail => exfatFormat.encode (items.map Prod.fst) tail

/-- An exFAT volume that stores the plan. -/
def exfatVolume : Synth.Volume where
  image := Synth.exfatBoot 6
    ++ Synth.sectors 1 (packFat .exFat [0, 0, 0xFFFFFFFF, 0xFFFFFFFF, 0, 0, 0xFFFFFFFF, 6])
    ++ exfatDir 0 ++ exfatDir 2 ++ List.replicate 512 1 ++ Synth.sectors 1 (List.replicate 88 2)
    ++ Synth.sectors 1 [3] ++ List.replicate 512 3
  opens := by decide +kernel

/-- What the exFAT volume stores where. -/
lemma storage_exfat :
    exfatVolume.reader.geom.countOfClusters < 0x0FFFFFF6 ∧
      exfatVolume.reader.geom.RootInHeap ∧
      exfatVolume.reader.geom.variant = .exFat ∧
      exfatVolume.reader.geom.rootCluster = 2 ∧
      exfatVolume.reader.geom.clusterSize = 512 ∧
      (∀ k, (exfatPlan.chain k).all fun c => 2 ≤ c.toNat ∧
        c.toNat ≤ exfatVolume.reader.geom.countOfClusters + 1) ∧
      (∀ k, (exfatPlan.chain k).all fun c => exfatVolume.reader.geom.dataStart
        + (c.toNat - 2) * exfatVolume.reader.geom.clusterSize
          + exfatVolume.reader.geom.clusterSize ≤ exfatVolume.image.length) ∧
      (StoresPointer (cachedFat exfatVolume.image exfatVolume.reader.geom) .exFat 2 0xFFFFFFFF ∧
        StoresPointer (cachedFat exfatVolume.image exfatVolume.reader.geom) .exFat 3 0xFFFFFFFF ∧
        StoresPointer (cachedFat exfatVolume.image exfatVolume.reader.geom) .exFat 7 6 ∧
        StoresPointer (cachedFat exfatVolume.image exfatVolume.reader.geom) .exFat 6
          0xFFFFFFFF) ∧
      (List.replicate 512 1 ++ List.replicate 88 2
        <+: exfatPlan.extent exfatVolume.image exfatVolume.reader.geom 1) ∧
      (List.replicate 513 3 <+: exfatPlan.extent exfatVolume.image exfatVolume.reader.geom 3) ∧
      exfatPlan.extent exfatVolume.image exfatVolume.reader.geom 0 = exfatDir 0 ∧
      exfatPlan.extent exfatVolume.image exfatVolume.reader.geom 2 = exfatDir 2 := by
  decide +kernel

/-- What the records of the exFAT volume describe. -/
lemma names_exfat :
    (∃ n, exfatBody (exfatRecord 0x41 0x20 4 600 true) = some n ∧ exfatPlan.Names n 1) ∧
      (∃ n, exfatBody (exfatRecord 0x42 0x10 3 512 false) = some n ∧ exfatPlan.Names n 2) ∧
      ∃ n, exfatBody (exfatRecord 0x43 0x20 7 513 false) = some n ∧ exfatPlan.Names n 3 := by
  refine ⟨⟨_, rfl, ?_⟩, ⟨_, rfl, ?_⟩, ⟨_, rfl, ?_⟩⟩
  · exact ⟨rfl, rfl, by decide +kernel, by decide, rfl, rfl, by decide +kernel, by decide +kernel⟩
  · exact ⟨rfl, rfl, by decide +kernel, by decide, rfl, rfl, by show _ = true; decide +kernel⟩
  · exact ⟨rfl, rfl, by decide +kernel, by decide, rfl, rfl, by decide +kernel, by decide +kernel⟩

lemma dirs_exfat {k : Fin 4} {items : List (Exfat.Item × Option (Fin 4))} {tail : List UInt8}
    (hk : exfatPlan.content k = .dir items tail) :
    (k = 0 ∧ exfatPlan.content 0 = .dir items tail) ∨
      (k = 2 ∧ exfatPlan.content 2 = .dir items tail) := by
  fin_cases k
  · exact Or.inl ⟨rfl, hk⟩
  · nomatch hk
  · exact Or.inr ⟨rfl, hk⟩
  · nomatch hk

lemma storedIn_exfat :
    exfatPlan.StoredIn exfatFormat exfatVolume.image exfatVolume.reader.geom := by
  obtain ⟨hcount, hroot, hvar, hrootCluster, hcs, hheap, hwhole, ⟨h2, h3, h76, h6⟩, hfile, hchained,
    hrootDir, hdir⟩ := storage_exfat
  obtain ⟨hn1, hn2, hn3⟩ := names_exfat
  have hend : MarksEnd .exFat 0xFFFFFFFF := by decide
  simp only [List.all_eq_true, decide_eq_true_eq] at hheap hwhole
  refine ⟨hcount, hheap, hwhole, fun k hk => ?_, fun k bytes hk => ?_, fun k items tail hk => ?_,
    fun k items tail hk r => ?_, ⟨_, _, rfl⟩, fun _ => by rw [hrootCluster]; rfl⟩
  · rw [hvar]
    fin_cases k
    · exact ⟨0xFFFFFFFF, h2, hend⟩
    · exact absurd hk (by decide)
    · exact ⟨0xFFFFFFFF, h3, hend⟩
    · exact ⟨h76, 0xFFFFFFFF, h6, hend⟩
  · rw [hcs]
    fin_cases k
    · cases hk
    · cases hk
      exact ⟨hfile, by decide, fun _ => by decide +kernel⟩
    · cases hk
    · cases hk
      exact ⟨hchained, by decide, by decide⟩
  · obtain ⟨rfl, hk⟩ | ⟨rfl, hk⟩ := dirs_exfat hk
    · cases hk
      exact ⟨rfl, by decide +kernel, fun _ => rfl, Or.inr ⟨fun _ => hroot, hrootDir⟩⟩
    · cases hk
      exact ⟨rfl, by decide +kernel, fun _ => rfl, Or.inr ⟨by decide, hdir⟩⟩
  · obtain ⟨rfl, hk⟩ | ⟨rfl, hk⟩ := dirs_exfat hk
    · cases hk
      refine ⟨fun j hj => ?_, fun hj n hn => ?_⟩
      · simp only [List.mem_cons, Prod.mk.injEq, reduceCtorEq, and_false, false_or,
          List.not_mem_nil, or_false, Option.some.injEq] at hj
        rcases hj with ⟨rfl, rfl⟩ | ⟨rfl, rfl⟩
        · exact hn1
        · exact hn2
      · simp only [List.mem_cons, Prod.mk.injEq, reduceCtorEq, and_false, List.not_mem_nil,
          or_false, and_true] at hj
        rw [hj] at hn
        cases hn
    · cases hk
      refine ⟨fun j hj => ?_, fun hj => absurd hj (by simp)⟩
      cases List.mem_singleton.mp hj
      exact hn3

lemma hasFormat_exfat : exfatVolume.reader.HasFormat exfatFormat := .exfat storage_exfat.2.2.1

/-! ## The hierarchy of the exFAT sample on FAT -/

/-- The file with the long name is found in the directory of the FAT sample, and the file in the
directory of the exFAT sample. -/
theorem resolvePath_presents_samples :
    Option.Rel (samplePlan.Presents fatFormat sampleVolume.reader)
        (sampleVolume.reader.resolvePath samplePath)
        (resolve (samplePlan.store fatFormat) samplePlan.root samplePath) ∧
      Option.Rel (exfatPlan.Presents exfatFormat exfatVolume.reader)
        (exfatVolume.reader.resolvePath [[0x42], [0x43]])
        (resolve (exfatPlan.store exfatFormat) exfatPlan.root [[0x42], [0x43]]) :=
  ⟨resolvePath_presents sampleVolume.openImage_image hasFormat_sample storedIn_sample
      (by unfold IsPlain; decide),
    resolvePath_presents exfatVolume.openImage_image hasFormat_exfat storedIn_exfat
      (by unfold IsPlain; decide)⟩

example : exfatVolume.reader.resolvePath [[0x42], [0x43]] = some (.entry 3 0) := by decide +kernel

end Plan
end FatForensic
