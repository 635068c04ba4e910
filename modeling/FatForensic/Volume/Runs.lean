import FatForensic.Volume.Chains

/-!
# What `runs` lists

The runs of a node are its clusters with physically adjacent ones merged: the addresses they
cover, run by run, are the image offsets of the logical positions of the extent.
-/

namespace FatForensic
namespace FatFs

open Extent Window

variable {fs : FatFs}

/-! ## One cluster more -/

lemma addresses_pushRun (runs : List (ℕ × ℕ)) (off len : ℕ) :
    addresses (pushRun runs off len) = addresses runs ++ List.range' off len := by
  unfold pushRun
  cases hlast : runs.getLast? with
  | none => rw [addresses_append, addresses_singleton]
  | some last =>
    dsimp only
    split
    next hadj =>
      obtain ⟨init, rfl⟩ := List.getLast?_eq_some_iff.mp hlast
      rw [List.dropLast_concat, addresses_append, addresses_append, addresses_singleton,
        addresses_singleton, List.append_assoc, ← hadj, List.range'_append_1]
    next => rw [addresses_append, addresses_singleton]

lemma pos_of_mem_pushRun {runs : List (ℕ × ℕ)} {off len : ℕ} (hruns : ∀ r ∈ runs, 0 < r.2)
    (hlen : 0 < len) : ∀ r ∈ pushRun runs off len, 0 < r.2 := by
  intro r hr
  unfold pushRun at hr
  have hnew : r ∈ runs ++ [(off, len)] → 0 < r.2 := by
    intro hr
    rcases List.mem_append.mp hr with hr | hr
    · exact hruns r hr
    · rw [List.mem_singleton.mp hr]
      exact hlen
  split at hr
  next last hlast =>
    split at hr
    next =>
      rcases List.mem_append.mp hr with hr | hr
      · exact hruns r (List.mem_of_mem_dropLast hr)
      · rw [List.mem_singleton.mp hr]
        exact Nat.add_pos_right _ hlen
    next => exact hnew hr
  next => exact hnew hr

/-- No run ends where the next one starts. -/
def Separated (runs : List (ℕ × ℕ)) : Prop := runs.IsChain fun r s => r.1 + r.2 ≠ s.1

lemma Separated.pushRun {runs : List (ℕ × ℕ)} (h : Separated runs) (off len : ℕ) :
    Separated (pushRun runs off len) := by
  rw [Separated, FatFs.pushRun]
  cases hlast : runs.getLast? with
  | none =>
    rw [List.getLast?_eq_none_iff.mp hlast]
    exact List.isChain_singleton _
  | some last =>
    obtain ⟨init, rfl⟩ := List.getLast?_eq_some_iff.mp hlast
    dsimp only
    split
    next hadj =>
      -- the merged run starts where the last one did
      rw [List.dropLast_concat]
      obtain ⟨hinit, -, hends⟩ := List.isChain_append.mp h
      refine hinit.append (List.isChain_singleton _) fun r hr s hs => ?_
      obtain rfl : (last.1, last.2 + len) = s := by simpa using hs
      exact hends r hr last (by simp)
    next hgap =>
      refine List.IsChain.append h (List.isChain_singleton _) fun r hr s hs => ?_
      obtain rfl : (off, len) = s := by simpa using hs
      rw [hlast, Option.mem_some_iff] at hr
      exact hr ▸ hgap

/-! ## The positions of an extent -/

lemma position_cons_of_lt {c : UInt32} {rest : List UInt32} {p : ℕ}
    (h : p < fs.geom.clusterSize) :
    fs.position (c :: rest) p = (fs.geom.clusterOffset c).map (· + p) := by
  rw [position, Nat.div_eq_of_lt h, Nat.mod_eq_of_lt h]
  rfl

lemma position_cons_add (hcs : 0 < fs.geom.clusterSize) {c : UInt32} {rest : List UInt32}
    {p : ℕ} : fs.position (c :: rest) (fs.geom.clusterSize + p) = fs.position rest p := by
  rw [position, position, Nat.add_div_left _ hcs, Nat.add_mod_left, List.getElem?_cons_succ]

/-- The positions of an extent are those of its first cluster and then of the others. -/
lemma map_position_cons (hcs : 0 < fs.geom.clusterSize) {c : UInt32} {off : ℕ}
    (ho : fs.geom.clusterOffset c = some off) (rest : List UInt32) (total : ℕ) :
    (List.range (min total ((c :: rest).length * fs.geom.clusterSize))).map
        (fs.position (c :: rest)) =
      (List.range' off (min fs.geom.clusterSize total)).map some ++
        (List.range (min (total - min fs.geom.clusterSize total)
          (rest.length * fs.geom.clusterSize))).map (fs.position rest) := by
  generalize ha : min fs.geom.clusterSize total = a
  generalize hb : min (total - a) (rest.length * fs.geom.clusterSize) = b
  have hn : min total ((c :: rest).length * fs.geom.clusterSize) = a + b := by
    rw [List.length_cons, Nat.succ_mul]
    omega
  rw [hn, List.range_add, List.map_append, List.map_map]
  congr 1
  · rw [List.range'_eq_map_range, List.map_map]
    refine List.map_congr_left fun p hp => ?_
    rw [List.mem_range] at hp
    rw [position_cons_of_lt (by omega), ho]
    rfl
  · refine List.map_congr_left fun p hp => ?_
    rw [List.mem_range] at hp
    have hfull : a = fs.geom.clusterSize := by omega
    rw [Function.comp_apply, hfull, position_cons_add hcs]

/-! ## The loop -/

/-- **The loop of `runs`.**  It adds the offsets of the positions of the extent. -/
lemma addresses_runsFrom (hvalid : fs.geom.Valid) {chain : List UInt32}
    (hchain : ∀ c ∈ chain, 2 ≤ c) (total : ℕ) (runs : List (ℕ × ℕ)) :
    (addresses (fs.runsFrom chain total runs)).map some =
      (addresses runs).map some ++
        (List.range (min total (chain.length * fs.geom.clusterSize))).map
          (fs.position chain) := by
  induction chain generalizing total runs with
  | nil => simp [runsFrom]
  | cons c rest ih =>
    have hoff := hvalid.clusterOffset_eq (hchain c (List.mem_cons_self ..))
    rw [runsFrom]
    by_cases htotal : total = 0
    · simp [htotal]
    rw [if_neg htotal, hoff]
    dsimp only
    rw [ih (fun d hd => hchain d (List.mem_cons_of_mem _ hd)), addresses_pushRun, List.map_append,
      List.append_assoc, map_position_cons hvalid.clusterSize_pos hoff]

/-- **The rule for the loop**: it keeps what the push of a run of positive length keeps. -/
lemma runsFrom_induction (hcs : 0 < fs.geom.clusterSize) {P : List (ℕ × ℕ) → Prop}
    (hpush : ∀ runs off len, 0 < len → P runs → P (pushRun runs off len)) {chain : List UInt32}
    {total : ℕ} {runs : List (ℕ × ℕ)} (hruns : P runs) : P (fs.runsFrom chain total runs) := by
  induction chain generalizing total runs with
  | nil => exact hruns
  | cons c rest ih =>
    rw [runsFrom]
    by_cases htotal : total = 0
    · rwa [if_pos htotal]
    rw [if_neg htotal]
    cases fs.geom.clusterOffset c with
    | none => exact hruns
    | some off => exact ih (hpush runs off _ (by omega) hruns)

lemma pos_of_mem_runsFrom (hcs : 0 < fs.geom.clusterSize) {chain : List UInt32} {total : ℕ} :
    ∀ r ∈ fs.runsFrom chain total [], 0 < r.2 :=
  runsFrom_induction (P := fun runs => ∀ r ∈ runs, 0 < r.2) hcs
    (fun _ _ _ hlen hruns => pos_of_mem_pushRun hruns hlen) (by simp)

lemma separated_runsFrom (hcs : 0 < fs.geom.clusterSize) {chain : List UInt32} {total : ℕ} :
    Separated (fs.runsFrom chain total []) :=
  runsFrom_induction hcs (fun _ off len _ hruns => hruns.pushRun off len) List.isChain_nil

/-- The loop of `runs` depends on the geometry alone. -/
lemma runsFrom_congr {fs' : FatFs} (hgeom : fs'.geom = fs.geom) (chain : List UInt32) (total : ℕ)
    (runs : List (ℕ × ℕ)) : fs'.runsFrom chain total runs = fs.runsFrom chain total runs := by
  induction chain generalizing total runs with
  | nil => rfl
  | cons c rest ih => simp only [runsFrom, ih, hgeom]

lemma runs_eq {id : FileId} {chain : List UInt32} {total : ℕ}
    (h : fs.dataExtent id = .ok (chain, total)) :
    fs.runs id = .ok (if chain = [] then
      if total = 0 then [] else [(fs.geom.rootDirStart, total)]
      else fs.runsFrom chain total []) := by
  rw [runs, h]
  simp only [bind, Except.bind, List.isEmpty_iff]
  split <;> rfl

lemma two_le_of_dataExtent (hcs : 0 < fs.geom.clusterSize) {id : FileId} {chain : List UInt32}
    {total : ℕ} (h : fs.dataExtent id = .ok (chain, total)) : ∀ c ∈ chain, 2 ≤ c := by
  obtain ⟨source, -, hsource⟩ := dataExtent_ok.mp h
  obtain rfl : (fs.sourceExtent source).1 = chain := congrArg Prod.fst hsource
  exact fun c hc => two_le_of_mem_sourceExtent hcs hc

/-- **The run list is canonical.**  On every opened image, the runs of a node that has clusters
have positive lengths; the addresses they cover, run by run, are those of the logical positions
of the extent in order, as far as the extent and its clusters reach; and no run ends where the
next one starts. -/
theorem runs_canonical {img : List UInt8} (hopen : openImage img = .ok fs) {id : FileId}
    {chain : List UInt32} {total : ℕ} (h : fs.dataExtent id = .ok (chain, total))
    (hne : chain ≠ []) :
    ∃ rs, fs.runs id = .ok rs ∧ (∀ r ∈ rs, 0 < r.2) ∧
      (addresses rs).map some
        = (List.range (min total (chain.length * fs.geom.clusterSize))).map (fs.position chain) ∧
      Separated rs := by
  have hvalid := openImage_valid hopen
  refine ⟨fs.runsFrom chain total [], by rw [runs_eq h, if_neg hne], ?_, ?_, ?_⟩
  · exact pos_of_mem_runsFrom hvalid.clusterSize_pos
  · have hchain := two_le_of_dataExtent hvalid.clusterSize_pos h
    simpa using addresses_runsFrom hvalid hchain total []
  · exact separated_runsFrom hvalid.clusterSize_pos

theorem runs_canonical_twoClusterFile :
    ∃ rs, twoClusterFile.reader.runs (.entry 2 0) = .ok rs ∧ (∀ r ∈ rs, 0 < r.2) ∧
      (addresses rs).map some
        = (List.range (min 521 (([4, 5] : List UInt32).length
            * twoClusterFile.reader.geom.clusterSize))).map
          (twoClusterFile.reader.position [4, 5]) ∧
      Separated rs := by
  have hextent : twoClusterFile.reader.dataExtent (.entry 2 0) = .ok ([4, 5], 521) := by
    decide +kernel
  exact runs_canonical twoClusterFile.openImage_image hextent (by simp)

end FatFs
end FatForensic
