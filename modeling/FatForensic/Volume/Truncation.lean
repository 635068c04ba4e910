import FatForensic.Directory.ExfatScan
import FatForensic.Directory.Offsets
import FatForensic.Directory.Slots
import FatForensic.Volume.Runs

/-!
# Directories of truncated images

The bytes of a directory are read cluster by cluster, and of each cluster as much as the image
holds.  Behind a cluster that it does not hold whole, whatever is read lies at the wrong place.
-/

namespace FatForensic
namespace FatFs

open Extent Window

variable {fs : FatFs}

/-! ## The offsets that are read -/

lemma clusterOffsets_append {cs : List UInt32} (hcs : ∀ c ∈ cs, (fs.geom.clusterOffset c).isSome)
    (cs' : List UInt32) (out : List ℕ) :
    fs.clusterOffsets (cs ++ cs') out = fs.clusterOffsets cs' (fs.clusterOffsets cs out) := by
  induction cs generalizing out with
  | nil => rfl
  | cons c cs ih =>
    by_cases hcap : MAX_DIR_BYTES ≤ out.length
    · rw [clusterOffsets_cap hcap, clusterOffsets_cap hcap, clusterOffsets_cap hcap]
    · obtain ⟨base, hbase⟩ := Option.isSome_iff_exists.mp (hcs c List.mem_cons_self)
      rw [List.cons_append, clusterOffsets_cons hbase _ hcap, clusterOffsets_cons hbase _ hcap,
        ih fun d hd => hcs d (List.mem_cons_of_mem _ hd)]

/-- More clusters add offsets behind the ones read before: all that the image holds of them, but
for what comes after the cap. -/
lemma exists_clusterOffsets_eq {cs : List UInt32}
    (hcs : ∀ c ∈ cs, (fs.geom.clusterOffset c).isSome) (out : List ℕ) :
    ∃ tail, fs.clusterOffsets cs out = out ++ tail ∧
      tail.length ≤ (cs.map fs.heldBytes).sum ∧
      (MAX_DIR_BYTES ≤ (out ++ tail).length ∨ tail.length = (cs.map fs.heldBytes).sum) := by
  induction cs generalizing out with
  | nil => exact ⟨[], (List.append_nil _).symm, le_refl _, Or.inr rfl⟩
  | cons c cs ih =>
    by_cases hcap : MAX_DIR_BYTES ≤ out.length
    · refine ⟨[], ?_, Nat.zero_le _, Or.inl ?_⟩ <;> rw [List.append_nil]
      · exact clusterOffsets_cap hcap
      · exact hcap
    · obtain ⟨base, hbase⟩ := Option.isSome_iff_exists.mp (hcs c List.mem_cons_self)
      obtain ⟨tail, htail, hle, hlen⟩ := ih (fun d hd => hcs d (List.mem_cons_of_mem _ hd))
        (out ++ List.range' base (fs.heldBytes c))
      refine ⟨List.range' base (fs.heldBytes c) ++ tail, ?_, ?_, ?_⟩
      · rw [clusterOffsets_cons hbase _ hcap, htail, List.append_assoc]
      · rw [List.length_append, List.length_range', List.map_cons, List.sum_cons]
        omega
      · rw [List.append_assoc] at hlen
        refine hlen.imp_right fun hlen => ?_
        rw [List.length_append, List.length_range', List.map_cons, List.sum_cons, hlen]

/-- The image holds the byte that was read at an offset. -/
lemma getElem?_image_of_offsets {bytes : List UInt8} {offsets : List ℕ}
    (h : List.Forall₂ (fun b o => fs.image[o]? = some b) bytes offsets) {i o : ℕ}
    (ho : offsets[i]? = some o) : ∃ b, bytes[i]? = some b ∧ fs.image[o]? = some b := by
  obtain ⟨hlt, rfl⟩ := List.getElem?_eq_some_iff.mp ho
  have hlt' : i < bytes.length := h.length_eq ▸ hlt
  exact ⟨_, List.getElem?_eq_getElem hlt', (List.forall₂_iff_get.mp h).2 i hlt' hlt⟩

lemma lt_length_of_mem_offsets {bytes : List UInt8} {offsets : List ℕ}
    (h : List.Forall₂ (fun b o => fs.image[o]? = some b) bytes offsets) :
    ∀ o ∈ offsets, o < fs.image.length := by
  intro o ho
  obtain ⟨i, hi⟩ := List.mem_iff_getElem?.mp ho
  obtain ⟨b, -, hb⟩ := getElem?_image_of_offsets h hi
  exact (List.getElem?_eq_some_iff.mp hb).1

/-! ## Offsets in place -/

/-- The offsets are those of the first logical positions of a cluster list. -/
def InPlace (fs : FatFs) (chain : List UInt32) (offsets : List ℕ) : Prop :=
  ∀ p o, offsets[p]? = some o → fs.position chain p = some o

lemma InPlace.append {chain : List UInt32} {offsets : List ℕ} (h : fs.InPlace chain offsets)
    (rest : List UInt32) : fs.InPlace (chain ++ rest) offsets := by
  intro p o hp
  obtain ⟨c, hc, hoff⟩ := Option.bind_eq_some_iff.mp (h p o hp)
  rw [position, List.getElem?_append_left (List.getElem?_eq_some_iff.mp hc).1, hc]
  exact hoff

/-- The logical positions of a cluster. -/
lemma position_block (hcs : 0 < fs.geom.clusterSize) {chain : List UInt32} {i k base : ℕ}
    {c : UInt32} (hc : chain[i]? = some c) (hbase : fs.geom.clusterOffset c = some base)
    (hk : k < fs.geom.clusterSize) :
    fs.position chain (i * fs.geom.clusterSize + k) = some (base + k) := by
  rw [position, Nat.mul_comm, Nat.mul_add_div hcs, Nat.div_eq_of_lt hk, Nat.add_zero, hc,
    Option.bind_some, hbase, Nat.mul_add_mod, Nat.mod_eq_of_lt hk, Option.map_some]

/-- What is read of the next cluster is in place where all clusters before were read whole. -/
lemma InPlace.push (hcs : 0 < fs.geom.clusterSize) {chain : List UInt32} {offsets : List ℕ}
    (h : fs.InPlace chain offsets) (hlen : offsets.length = chain.length * fs.geom.clusterSize)
    {c : UInt32} {base : ℕ} (hbase : fs.geom.clusterOffset c = some base) :
    fs.InPlace (chain ++ [c]) (offsets ++ List.range' base (fs.heldBytes c)) := by
  intro p o hp
  rcases Nat.lt_or_ge p offsets.length with hlt | hge
  · rw [List.getElem?_append_left hlt] at hp
    exact h.append [c] p o hp
  · obtain ⟨k, rfl⟩ : ∃ k, p = offsets.length + k := ⟨p - offsets.length, by omega⟩
    rw [List.getElem?_append_right hge, Nat.add_sub_cancel_left] at hp
    obtain ⟨hk, rfl⟩ := List.getElem?_eq_some_iff.mp hp
    rw [List.length_range', heldBytes_eq hbase, lt_min_iff] at hk
    rw [hlen, List.getElem_range', Nat.one_mul]
    exact position_block hcs (by simp) hbase hk.1

/-- Clusters that the image holds whole are read in place, up to the cap. -/
lemma clusterOffsets_held (hcs : 0 < fs.geom.clusterSize) {cs : List UInt32}
    (hheld : ∀ c ∈ cs, fs.holdsCluster c = true) :
    fs.InPlace cs (fs.clusterOffsets cs []) ∧
      ((fs.clusterOffsets cs []).length = cs.length * fs.geom.clusterSize ∨
        MAX_DIR_BYTES ≤ (fs.clusterOffsets cs []).length ∧
          (fs.clusterOffsets cs []).length ≤ cs.length * fs.geom.clusterSize) := by
  have hoff : ∀ c, fs.holdsCluster c = true → ∃ base, fs.geom.clusterOffset c = some base ∧
      fs.heldBytes c = fs.geom.clusterSize := by
    intro c hc
    obtain ⟨base, hbase, -⟩ := (Option.any_eq_true _ _).mp hc
    rw [holdsCluster_eq hbase] at hc
    exact ⟨base, hbase, by rw [heldBytes_eq hbase]; omega⟩
  induction cs using List.reverseRecOn with
  | nil => exact ⟨fun p o hp => by simp [clusterOffsets] at hp, Or.inl (by simp [clusterOffsets])⟩
  | append_singleton cs c ih =>
    obtain ⟨hin, hlen⟩ := ih fun d hd => hheld d (List.mem_append_left _ hd)
    obtain ⟨base, hbase, hbytes⟩ := hoff c (hheld c (by simp))
    rw [clusterOffsets_append fun d hd => ?_, List.length_append, List.length_singleton,
      Nat.add_mul, Nat.one_mul]
    swap
    · obtain ⟨b, hb, -⟩ := hoff d (hheld d (List.mem_append_left _ hd))
      rw [hb]
      rfl
    by_cases hcap : MAX_DIR_BYTES ≤ (fs.clusterOffsets cs []).length
    · rw [clusterOffsets_cap hcap]
      exact ⟨hin.append [c], Or.inr ⟨hcap, by omega⟩⟩
    · have hfull := hlen.resolve_right fun h => hcap h.1
      rw [clusterOffsets_cons hbase _ hcap, clusterOffsets]
      refine ⟨hin.push hcs hfull hbase, Or.inl ?_⟩
      rw [List.length_append, List.length_range', hbytes, hfull]

/-! ## Slots in place -/

/-- The bytes of every slot are the 32 consecutive ones of the image at its logical position. -/
def SlotsInPlace (fs : FatFs) (chain : List UInt32) (offsets : List ℕ) : Prop :=
  ∀ j < offsets.length / 32, ∃ o, fs.position chain (32 * j) = some o ∧
    slice offsets (32 * j) 32 = List.range' o 32

lemma dvd_clusterSize (hvalid : fs.geom.Valid) : 32 ∣ fs.geom.clusterSize := by
  rw [hvalid.clusterSize_eq]
  have hmem := hvalid.bytesPerSector_mem
  simp only [List.mem_cons, List.not_mem_nil, or_false] at hmem
  exact Dvd.dvd.mul_right (by omega) _

/-- A slot lies in one cluster. -/
lemma position_slot (hvalid : fs.geom.Valid) {chain : List UInt32} {j k o : ℕ}
    (h : fs.position chain (32 * j) = some o) (hk : k < 32) :
    fs.position chain (32 * j + k) = some (o + k) := by
  obtain ⟨m, hm⟩ := dvd_clusterSize hvalid
  have hroom : k < fs.geom.clusterSize - 32 * j % fs.geom.clusterSize := by
    have hlt := Nat.mod_lt j (show 0 < m by have := hvalid.clusterSize_pos; omega)
    rw [hm, Nat.mul_mod_mul_left]
    omega
  obtain ⟨hdiv, hmod⟩ := div_mod_add_of_lt hvalid.clusterSize_pos hroom
  rw [position, Option.bind_eq_some_iff] at h
  obtain ⟨c, hc, hoff⟩ := h
  obtain ⟨base, hbase, rfl⟩ := Option.map_eq_some_iff.mp hoff
  rw [position, hdiv, hc, Option.bind_some, hbase, hmod, Option.map_some, Nat.add_assoc]

/-- Slots that are complete within the offsets in place are in place. -/
lemma slotsInPlace_of_inPlace (hvalid : fs.geom.Valid) {chain : List UInt32}
    {offsets tail : List ℕ} (h : fs.InPlace chain offsets)
    (hlen : (offsets ++ tail).length / 32 = offsets.length / 32) :
    fs.SlotsInPlace chain (offsets ++ tail) := by
  intro j hj
  have hlt : ∀ k < 32, 32 * j + k < offsets.length := by omega
  have hfirst := h _ _ (List.getElem?_eq_getElem (hlt 0 (by norm_num)))
  refine ⟨_, hfirst, List.ext_getElem? fun k => ?_⟩
  by_cases hk : k < 32
  · have hget := List.getElem?_eq_getElem (hlt k hk)
    have hat := h _ _ hget
    rw [position_slot hvalid hfirst hk] at hat
    rw [getElem?_slice_of_lt hk, List.getElem?_append_left (hlt k hk), hget,
      List.getElem?_range' hk, Nat.one_mul, hat]
  · rw [List.getElem?_eq_none (by rw [length_slice]; omega),
      List.getElem?_eq_none (by rw [List.length_range']; omega)]

lemma InPlace.slotsInPlace (hvalid : fs.geom.Valid) {chain : List UInt32} {offsets : List ℕ}
    (h : fs.InPlace chain offsets) : fs.SlotsInPlace chain offsets := by
  have hslots := slotsInPlace_of_inPlace hvalid h (congrArg (List.length · / 32)
    (List.append_nil offsets))
  rwa [List.append_nil] at hslots

/-- Where the logical position behind the offsets in place is not in the image, no further slot
is in place. -/
lemma not_slotsInPlace (hvalid : fs.geom.Valid) {chain : List UInt32} {offsets tail : List ℕ}
    (hstored : ∀ o ∈ offsets ++ tail, o < fs.image.length) {a : ℕ}
    (hend : fs.position chain offsets.length = some a) (ha : fs.image.length ≤ a)
    (hlen : offsets.length / 32 < (offsets ++ tail).length / 32) :
    ¬ fs.SlotsInPlace chain (offsets ++ tail) := by
  intro h
  obtain ⟨o, ho, hslice⟩ := h _ hlen
  have hk : offsets.length % 32 < 32 := Nat.mod_lt _ (by norm_num)
  have hat := position_slot hvalid ho hk
  rw [Nat.div_add_mod, hend, Option.some.injEq] at hat
  have hget : (offsets ++ tail)[offsets.length]? = some a := by
    have hslot := congrArg (·[offsets.length % 32]?) hslice
    rwa [getElem?_slice_of_lt hk, Nat.div_add_mod, List.getElem?_range' hk, Nat.one_mul, ← hat]
      at hslot
  have := hstored a (List.mem_of_getElem? hget)
  omega

/-! ## Truncated directories -/

/-- Behind the first cluster that the image does not hold whole, no further slot is completed:
the cap on directories is reached there, or the clusters behind it hold too little. -/
def CompletesNoSlot (fs : FatFs) (chain : List UInt32) : Prop :=
  ∀ pre c rest, chain = pre ++ c :: rest → (∀ d ∈ pre, fs.holdsCluster d = true) →
    fs.holdsCluster c = false →
      MAX_DIR_BYTES ≤ pre.length * fs.geom.clusterSize + fs.heldBytes c ∨
        fs.heldBytes c % 32 + (rest.map fs.heldBytes).sum < 32

/-- The clusters are all held whole, or there is a first one that is not. -/
lemma forall_holdsCluster_or (fs : FatFs) (chain : List UInt32) :
    (∀ c ∈ chain, fs.holdsCluster c = true) ∨ ∃ pre c rest, chain = pre ++ c :: rest ∧
      (∀ d ∈ pre, fs.holdsCluster d = true) ∧ fs.holdsCluster c = false := by
  induction chain with
  | nil => exact Or.inl (by simp)
  | cons c chain ih =>
    cases hc : fs.holdsCluster c with
    | false => exact Or.inr ⟨[], c, chain, rfl, by simp, hc⟩
    | true =>
      rcases ih with hall | ⟨pre, d, rest, rfl, hpre, hd⟩
      · exact Or.inl (List.forall_mem_cons.mpr ⟨hc, hall⟩)
      · exact Or.inr ⟨c :: pre, d, rest, rfl, List.forall_mem_cons.mpr ⟨hc, hpre⟩, hd⟩

/-- The slots of a list of clusters that starts with some held whole and one that is not. -/
lemma slotsInPlace_split_iff (hvalid : fs.geom.Valid) {pre rest : List UInt32} {c : UInt32}
    (hchain : ∀ d ∈ pre ++ c :: rest, 2 ≤ d) (hpre : ∀ d ∈ pre, fs.holdsCluster d = true)
    (hc : fs.holdsCluster c = false) :
    fs.SlotsInPlace (pre ++ c :: rest) (fs.clusterOffsets (pre ++ c :: rest) []) ↔
      MAX_DIR_BYTES ≤ pre.length * fs.geom.clusterSize + fs.heldBytes c ∨
        fs.heldBytes c % 32 + (rest.map fs.heldBytes).sum < 32 := by
  have hcs := hvalid.clusterSize_pos
  have hoff : ∀ d ∈ pre ++ c :: rest, (fs.geom.clusterOffset d).isSome := fun d hd => by
    rw [hvalid.clusterOffset_eq (hchain d hd)]
    rfl
  have hbase := hvalid.clusterOffset_eq (hchain c (by simp))
  generalize fs.geom.dataStart + (c.toNat - 2) * fs.geom.clusterSize = base at hbase
  have hstored : ∀ o ∈ fs.clusterOffsets (pre ++ c :: rest) [], o < fs.image.length :=
    lt_length_of_mem_offsets (forall₂_readClusters _ List.Forall₂.nil)
  obtain ⟨hin, hlen⟩ := clusterOffsets_held hcs hpre
  rw [clusterOffsets_append fun d hd => hoff d (List.mem_append_left _ hd)] at hstored ⊢
  generalize fs.clusterOffsets pre [] = out at *
  by_cases hcap : MAX_DIR_BYTES ≤ out.length
  · -- the cap is reached before
    rw [clusterOffsets_cap hcap]
    exact iff_of_true ((hin.append (c :: rest)).slotsInPlace hvalid) (Or.inl (by omega))
  have hfull := hlen.resolve_right fun h => hcap h.1
  have hshort : ¬ base + fs.geom.clusterSize ≤ fs.image.length := by
    rw [← holdsCluster_eq hbase, hc]
    simp
  have hheld := heldBytes_eq hbase
  have hin' : fs.InPlace (pre ++ c :: rest) (out ++ List.range' base (fs.heldBytes c)) := by
    have h := (hin.push hcs hfull hbase).append rest
    rwa [List.append_assoc, List.singleton_append] at h
  obtain ⟨tail, htail, hle, htotal⟩ := exists_clusterOffsets_eq
    (fun d hd => hoff d (List.mem_append_right _ (List.mem_cons_of_mem _ hd)))
    (out ++ List.range' base (fs.heldBytes c))
  have hq : (out ++ List.range' base (fs.heldBytes c)).length
      = pre.length * fs.geom.clusterSize + fs.heldBytes c := by
    rw [List.length_append, List.length_range', hfull]
  rw [clusterOffsets_cons hbase _ hcap] at hstored ⊢
  generalize out ++ List.range' base (fs.heldBytes c) = read at *
  by_cases hend : MAX_DIR_BYTES ≤ pre.length * fs.geom.clusterSize + fs.heldBytes c
  · -- the cap is reached with this cluster
    rw [clusterOffsets_cap (hq ▸ hend)]
    exact iff_of_true (hin'.slotsInPlace hvalid) (Or.inl hend)
  rw [or_iff_right hend, htail]
  rw [htail] at hstored
  have hmod : (pre.length * fs.geom.clusterSize + fs.heldBytes c) % 32 = fs.heldBytes c % 32 := by
    obtain ⟨m, hm⟩ := dvd_clusterSize hvalid
    rw [hm, Nat.mul_left_comm, Nat.mul_add_mod]
  rw [List.length_append, hq, MAX_DIR_BYTES] at htotal
  rw [MAX_DIR_BYTES] at hend
  constructor
  · intro hslots
    by_contra hmore
    have hposition : fs.position (pre ++ c :: rest) read.length
        = some (base + fs.heldBytes c) := by
      rw [hq]
      exact position_block hcs (by simp) hbase (by omega)
    refine not_slotsInPlace hvalid hstored hposition (by omega) ?_ hslots
    rw [List.length_append, hq]
    omega
  · intro hless
    refine slotsInPlace_of_inPlace hvalid hin' ?_
    rw [List.length_append, hq]
    omega

/-- **The slots of a directory are in place** exactly when the clusters behind the first one that
the image does not hold whole complete no slot. -/
lemma slotsInPlace_iff (hvalid : fs.geom.Valid) {chain : List UInt32}
    (hchain : ∀ c ∈ chain, 2 ≤ c) :
    fs.SlotsInPlace chain (fs.clusterOffsets chain []) ↔ fs.CompletesNoSlot chain := by
  rcases fs.forall_holdsCluster_or chain with hall | ⟨pre, c, rest, rfl, hpre, hc⟩
  · have hin := (clusterOffsets_held hvalid.clusterSize_pos hall).1
    refine iff_of_true (hin.slotsInPlace hvalid) fun pre c rest heq _ hc => ?_
    rw [hall c (by simp [heq])] at hc
    exact absurd hc (by simp)
  · refine ⟨fun h pre' c' rest' heq hpre' hc' => ?_,
      fun h => (slotsInPlace_split_iff hvalid hchain hpre hc).mpr (h _ _ _ rfl hpre hc)⟩
    rw [heq] at h hchain
    exact (slotsInPlace_split_iff hvalid hchain hpre' hc').mp h

/-! ## Nodes -/

/-- The node is that of a slot at a position: decoded from the slot but for its long name, or on
exFAT from a set with this File entry. -/
def NodeOfSlot (fs : FatFs) (marker : UInt32) (n : Node) (i : ℕ) (slot : List UInt8) : Prop :=
  if fs.geom.variant = .exFat then
    ∃ slots, n = nodeFromExfat marker (Exfat.decodeSet slots i (u8At slot 1).toNat slot)
  else ∃ long, n = nodeFrom marker (Dirent.decodeShort slot i long (u8At slot 0 = Dirent.DELETED))

lemma exists_slot_of_mem_listNodes {bytes : List UInt8} {marker : UInt32} {n : Node}
    (hn : n ∈ fs.listNodes bytes marker) :
    ∃ i slot, (chunksExact 32 bytes)[i]? = some slot ∧ n.id = .entry marker (u16OrMax i) ∧
      fs.NodeOfSlot marker n i slot := by
  rw [listNodes] at hn
  split at hn
  next hvar =>
    obtain ⟨e, he, rfl⟩ := List.mem_map.mp hn
    rw [Exfat.parseDirectory_eq] at he
    obtain ⟨i, hi, rfl⟩ := List.mem_map.mp he
    obtain ⟨slot, hslot, -⟩ := Exfat.isFileAt_eq_true.mp (Exfat.mem_setStarts.mp hi).2
    refine ⟨i, slot, hslot, rfl, ?_⟩
    rw [NodeOfSlot, if_pos hvar, Exfat.setEntry, Exfat.secondaryCount,
      List.getD_eq_getElem?_getD, hslot, Option.getD_some]
    exact ⟨_, rfl⟩
  next hvar =>
    obtain ⟨e, he, rfl⟩ := List.mem_map.mp hn
    obtain ⟨p, hp, long, rfl, -⟩ := Dirent.exists_decodedFrom he
    refine ⟨p.2, p.1, Dirent.getElem?_of_mem_entrySlots hp, rfl, ?_⟩
    rw [NodeOfSlot, if_neg hvar]
    exact ⟨long, rfl⟩

/-- The slots of a directory stored in clusters keep their places. -/
structure KeepsPlaces (fs : FatFs) (first : UInt32) (size : UInt64) (contiguous : Bool) :
    Prop where
  /-- Every node with an index below 65535 is that of the 32 bytes at its place. -/
  nodes : ∀ n ∈ fs.listNodes (fs.readDirBytes (.chain first size contiguous)) first,
    ∀ i : UInt16, n.id = .entry first i → i.toNat < 65535 →
      ∃ o slot, fs.position (fs.clusters first size contiguous) (32 * i.toNat) = some o ∧
        window 32 fs.image o = some slot ∧ fs.NodeOfSlot first n i.toNat slot
  /-- No slot is shifted or misaligned. -/
  slots : fs.SlotsInPlace (fs.clusters first size contiguous)
    (fs.dirOffsets (.chain first size contiguous))

/-- The bytes of a slot in place are the image bytes there. -/
lemma window_of_slice {bytes : List UInt8} {offsets : List ℕ}
    (h : List.Forall₂ (fun b o => fs.image[o]? = some b) bytes offsets) {j o : ℕ}
    (hslice : slice offsets (32 * j) 32 = List.range' o 32) :
    window 32 fs.image o = some (slice bytes (32 * j) 32) := by
  have hat : ∀ k < 32, ∃ b, bytes[32 * j + k]? = some b ∧ fs.image[o + k]? = some b := by
    intro k hk
    have hget := congrArg (·[k]?) hslice
    rw [getElem?_slice_of_lt hk, List.getElem?_range' hk, Nat.one_mul] at hget
    exact getElem?_image_of_offsets h hget
  obtain ⟨b, -, hlast⟩ := hat 31 (by norm_num)
  have hlt := (List.getElem?_eq_some_iff.mp hlast).1
  rw [window, if_pos (by omega), Option.some.injEq]
  refine List.ext_getElem? fun k => ?_
  rw [getElem?_slice, getElem?_slice]
  split
  next hk =>
    obtain ⟨b, hb, hb'⟩ := hat k hk
    rw [hb, hb']
  next => rfl

/-- **When slot positions survive truncation**: exactly when, behind the first cluster that is not
in the image as a whole, the clusters of the directory complete no further slot. -/
theorem keepsPlaces_iff {img : List UInt8} {len : ℕ} (hopen : openImage (img.take len) = .ok fs)
    (first : UInt32) (size : UInt64) (contiguous : Bool) :
    fs.KeepsPlaces first size contiguous ↔
      fs.CompletesNoSlot (fs.clusters first size contiguous) := by
  have hvalid := openImage_valid hopen
  have hchain : ∀ c ∈ fs.clusters first size contiguous, 2 ≤ c := fun c hc =>
    two_le_of_mem_clusters hvalid.clusterSize_pos hc
  rw [← slotsInPlace_iff hvalid hchain]
  refine ⟨fun h => h.slots, fun hslots => ⟨fun n hn i hid hi => ?_, hslots⟩⟩
  have hbytes := fs.forall₂_readDirBytes (.chain first size contiguous)
  obtain ⟨j, slot, hslot, hidj, hnode⟩ := exists_slot_of_mem_listNodes hn
  -- the index is not saturated, so it is the position
  have hij : i.toNat = j := by
    rw [hid, FileId.entry.injEq] at hidj
    rw [hidj.2] at hi ⊢
    rw [u16OrMax] at hi ⊢
    split at hi
    next hlt => rw [if_pos hlt, UInt16.toNat_ofNat_of_lt' hlt]
    next => exact absurd hi (by decide)
  rw [getElem?_chunksExact] at hslot
  split at hslot
  next hj =>
    obtain ⟨o, ho, hslice⟩ := hslots j (hbytes.length_eq ▸ hj)
    rw [Option.some.injEq] at hslot
    subst hslot
    rw [hij]
    exact ⟨o, _, ho, window_of_slice hbytes hslice, hnode⟩
  next => exact absurd hslot (by simp)

/-- A FAT32 volume whose root directory is cluster 2, full of entries, and then cluster 3. -/
def forward : Synth.Volume where
  image := Synth.bpb 1 0 70000 2 ++ Synth.table 4 [0, 0, 3, 0x0FFFFFFF]
    ++ (List.replicate 16 (Synth.shortEntry (Synth.name 0x41) 0x20 0 0)).flatten
    ++ Synth.sectors 1 ((List.replicate 4 (Synth.shortEntry (Synth.name 0x42) 0x20 0 0)).flatten)
  opens := by decide +kernel

/-- This volume, cut behind 100 bytes of its cluster 3. -/
def cutForward : Synth.Volume where
  image := forward.image.take 1636
  opens := by decide +kernel

/-- All entries of cluster 2 and three of cluster 3 keep their places. -/
theorem keepsPlaces_cutForward : cutForward.reader.KeepsPlaces 2 0 false := by
  have hchain : cutForward.reader.clusters 2 0 false = [2, 3] ∧
      cutForward.reader.holdsCluster 2 = true ∧ cutForward.reader.heldBytes 3 = 100 := by
    decide +kernel
  obtain ⟨hchain, hwhole, hheld⟩ := hchain
  refine (keepsPlaces_iff cutForward.openImage_image 2 0 false).mpr fun pre c rest heq _ hc => ?_
  rw [hchain] at heq
  match pre with
  | [] =>
    obtain ⟨rfl, -⟩ : c = 2 ∧ rest = [3] := by simpa [eq_comm] using heq
    exact absurd hwhole (by rw [hc]; decide)
  | [d] =>
    obtain ⟨-, rfl, rfl⟩ : d = 2 ∧ c = 3 ∧ rest = [] := by simpa [eq_comm] using heq
    rw [hheld]
    exact Or.inr (by decide)
  | _ :: _ :: pre => exact absurd heq (by simp)

/-- A FAT32 volume whose root directory is cluster 3, full of entries, and then cluster 2. -/
def backward : Synth.Volume where
  image := Synth.bpb 1 0 70000 3 ++ Synth.table 4 [0, 0, 0x0FFFFFFF, 2]
    ++ Synth.sectors 1 (Synth.shortEntry (Synth.name 0x42) 0x20 0 0)
    ++ (List.replicate 16 (Synth.shortEntry (Synth.name 0x41) 0x20 0 0)).flatten
  opens := by decide +kernel

/-- This volume without its cluster 3. -/
def cutBackward : Synth.Volume where
  image := backward.image.take 1536
  opens := by decide +kernel

/-- **A missing directory cluster shifts the slots behind it**: in `cutBackward`, the entry of the
first slot of cluster 2 has the index 0, which is a slot of cluster 3. -/
theorem not_keepsPlaces_cutBackward :
    ¬ ∀ (img : List UInt8) (whole : FatFs) (len : ℕ) (fs : FatFs), openImage img = .ok whole →
      openImage (img.take len) = .ok fs → ∀ dir first size contiguous,
        fs.dirSource dir = .ok (.chain first size contiguous) →
          fs.KeepsPlaces first size contiguous := by
  intro h
  have hsource : cutBackward.reader.dirSource .root = .ok (.chain 3 0 false) ∧
      ∃ n ∈ cutBackward.reader.listNodes (cutBackward.reader.readDirBytes (.chain 3 0 false)) 3,
        n.id = .entry 3 0 := by
    decide +kernel
  obtain ⟨hsource, n, hn, hid⟩ := hsource
  obtain ⟨o, slot, ho, hslot, -⟩ := (h _ _ _ _ backward.openImage_image
    cutBackward.openImage_image _ _ _ _ hsource).nodes n hn 0 hid (by decide)
  have hplace : cutBackward.reader.position (cutBackward.reader.clusters 3 0 false) 0
      = some 1536 ∧ cutBackward.reader.image.length = 1536 := by
    decide +kernel
  obtain rfl : 1536 = o := Option.some.inj (hplace.1.symm.trans ho)
  rw [window, if_neg (by omega)] at hslot
  exact absurd hslot (by simp)

end FatFs
end FatForensic
