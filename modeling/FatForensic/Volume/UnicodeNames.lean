import FatForensic.Directory.Format
import FatForensic.Volume.Handles
import FatForensic.Volume.Synth

/-!
# Unicode names are found

The long names of FAT and the names of exFAT are stored in UTF-16, and `lookup` takes the bytes of
a name in UTF-8.  A name that was stored as the UTF-16 of a string is listed as this string, with
all its supplementary characters, and is found under its UTF-8.
-/

namespace FatForensic

open Utf16

/-- The record stores the string as its name. -/
inductive StoresName : {ρ : Type} → DirFormat ρ → ρ → String → Prop where
  | fat {short : Dirent.ShortFields} {ne_end : u8At short.name 0 ≠ Dirent.END}
    {ne_deleted : u8At short.name 0 ≠ Dirent.DELETED} {long : Dirent.LongName} {s : String} :
    long.units = toUtf16 s → StoresName fatFormat (.live short ne_end ne_deleted (some long)) s
  | exfat {record : Exfat.FileRecord} {s : String} :
    record.units = toUtf16 s → StoresName exfatFormat (.file record) s

/-- The UTF-8 of a string. -/
def utf8Bytes (s : String) : List UInt8 := s.toUTF8.data.toList

lemma utf8Bytes_inj {s t : String} : utf8Bytes s = utf8Bytes t ↔ s = t := by
  refine ⟨fun h => ?_, congrArg _⟩
  rw [utf8Bytes, utf8Bytes, Array.toList_inj] at h
  exact String.toByteArray_inj.mp (ByteArray.ext h)

variable {ρ : Type} {F : DirFormat ρ}

/-- **A stored name is listed as it is.** -/
lemma StoresName.exists_body {r : ρ} {s : String} (h : StoresName F r s) :
    ∃ b, F.body r = some b ∧ b.name = s := by
  cases h with
  | @fat short ne_end ne_deleted long s hunits =>
    refine ⟨_, rfl, ?_⟩
    change fromUtf16Lossy long.units = s
    rw [hunits, fromUtf16Lossy_toUtf16]
  | @exfat record s hunits =>
    refine ⟨_, rfl, ?_⟩
    change fromUtf16Lossy record.units = s
    rw [hunits, fromUtf16Lossy_toUtf16]

lemma DirFormat.nodesFrom_append (marker : UInt32) (i : ℕ) (rs rs' : List ρ) :
    F.nodesFrom marker i (rs ++ rs')
      = F.nodesFrom marker i rs ++ F.nodesFrom marker (i + (F.slotsOf rs).length) rs' := by
  induction rs generalizing i with
  | nil => rfl
  | cons r rs ih =>
    rw [List.cons_append, nodesFrom, nodesFrom, ih, List.append_assoc, slotsOf, slotsOf,
      List.flatMap_cons, List.length_append, Nat.add_assoc]

/-- A live node that is no volume label. -/
def Node.IsFile (n : Node) : Prop := n.isDeleted = false ∧ n.isVolumeLabel = false

namespace FatFs

variable {fs : FatFs}

/-- **Unicode names are found.**  In a directory that is read from records, the first of the live
ones that stores a string as its name is listed under this string, and it is the one that `lookup`
finds under the UTF-8 of the string. -/
theorem lookup_utf8Bytes (hF : fs.HasFormat F) {id : FileId} {source : DirSource}
    (hsource : fs.dirSource id = .ok source) {pre post : List ρ} {r : ρ} {tail : List UInt8}
    (hbytes : fs.readDirBytes source = F.encode (pre ++ r :: post) tail)
    (hslots : (F.slotsOf (pre ++ r :: post)).length ≤ 65536) (htail : Terminated tail)
    {s : String} (hname : StoresName F r s) (hlive : ∀ b, F.body r = some b → b.IsFile)
    (hfirst : ∀ r' ∈ pre, ∀ b, F.body r' = some b → b.IsFile → b.name ≠ s) :
    ∃ nodes n, fs.readDir id = .ok nodes ∧ n ∈ nodes ∧ n.name = s ∧
      fs.lookup id (utf8Bytes s) = .ok (some n.id) := by
  obtain ⟨b, hb, rfl⟩ := hname.exists_body
  obtain ⟨hdel, hlabel⟩ := hlive b hb
  have hread : fs.readDir id
      = .ok (F.nodesFrom (sourceMarker source) 0 (pre ++ r :: post)) := by
    refine readDir_ok.mpr ⟨source, hsource, ?_⟩
    rw [hbytes, hF.reads _ _ _ hslots htail]
  rw [DirFormat.nodesFrom_append, DirFormat.nodesFrom, hb, Option.map_some, Option.toList_some,
    List.singleton_append] at hread
  refine ⟨_, _, hread, List.mem_append_right _ List.mem_cons_self, rfl, ?_⟩
  rw [lookup, hread]
  change Except.ok (Option.map Node.id (List.find? _ _)) = _
  rw [List.find?_append, List.find?_eq_none.mpr, Option.none_or, List.find?_cons_of_pos,
    Option.map_some]
  · simp [Node.at, hdel, hlabel, utf8Bytes]
  · intro n hn hfound
    obtain ⟨r', hr', b', i, hb', rfl⟩ := DirFormat.mem_nodesFrom hn
    simp only [Bool.and_eq_true, Bool.not_eq_true', beq_iff_eq] at hfound
    exact hfirst r' hr' b' hb' ⟨hfound.1.1, hfound.1.2⟩ (utf8Bytes_inj.mp hfound.2)

/-- A short entry `A` of a file, with the attributes and the size given. -/
def shortA (attr : UInt8) (attr_ne : attr ≠ Dirent.ATTR_LFN) (size : UInt32) :
    Dirent.ShortFields where
  name := 0x41 :: List.replicate 10 0x20
  length_name := rfl
  attr := attr
  attr_ne := attr_ne
  ntFlags := 0
  tenths := 0
  createdTime := 0
  createdDate := 0
  accessedDate := 0
  modifiedTime := 0
  modifiedDate := 0
  firstCluster := 0
  size := size

lemma label_ne : (0x08 : UInt8) ≠ Dirent.ATTR_LFN := by decide

lemma first_ne : (0x41 : UInt8) ≠ Dirent.END ∧ (0x41 : UInt8) ≠ Dirent.DELETED := by decide

lemma units_smiling : (toUtf16 "héllo😀.txt").length ∈ Set.Icc 1 255 ∧
    (toUtf16 "héllo😀.txt").all fun u => u ≠ 0x0000 ∧ u ≠ 0xFFFF := by
  decide +kernel

/-- A long name with a supplementary character. -/
def smiling : Dirent.LongName where
  units := toUtf16 "héllo😀.txt"
  length_pos := units_smiling.1.1
  length_le := units_smiling.1.2
  ne u hu := of_decide_eq_true (List.all_eq_true.mp units_smiling.2 u hu)

/-- A volume label. -/
def labelRecord : Dirent.Record := .live (shortA 0x08 label_ne 0) first_ne.1 first_ne.2 none

/-- A file with the long name. -/
def smilingRecord : Dirent.Record :=
  .live (shortA 0x20 Dirent.archive_ne 5) first_ne.1 first_ne.2 (some smiling)

/-- A FAT32 volume whose root lists the volume label and the file. -/
def smilingVolume : Synth.Volume where
  image := Synth.bpb 1 0 70000 2 ++ Synth.table 4 [0, 0, 0x0FFFFFFF]
    ++ fatFormat.encode [labelRecord, smilingRecord] (List.replicate 416 0)
  opens := by decide +kernel

/-- The file is found under the UTF-8 of its name. -/
theorem lookup_utf8Bytes_smiling :
    ∃ nodes n, smilingVolume.reader.readDir .root = .ok nodes ∧ n ∈ nodes ∧
      n.name = "héllo😀.txt" ∧
      smilingVolume.reader.lookup .root (utf8Bytes "héllo😀.txt") = .ok (some n.id) := by
  have hroot : smilingVolume.reader.geom.variant ≠ .exFat ∧
      smilingVolume.reader.dirSource .root = .ok (.chain 2 0 false) ∧
      smilingVolume.reader.readDirBytes (.chain 2 0 false)
        = fatFormat.encode ([labelRecord] ++ smilingRecord :: []) (List.replicate 416 0) ∧
      (fatFormat.slotsOf ([labelRecord] ++ smilingRecord :: [])).length ≤ 65536 := by
    decide +kernel
  obtain ⟨hvar, hsource, hbytes, hslots⟩ := hroot
  refine lookup_utf8Bytes (.fat hvar) hsource hbytes hslots (fun _ => rfl) (.fat rfl) ?_ ?_
  · intro b hb
    cases hb
    exact ⟨rfl, rfl⟩
  · intro r hr b hb hfile
    cases List.mem_singleton.mp hr
    cases hb
    exact absurd hfile.2 (by decide)

end FatFs
end FatForensic
