import FatForensic.Forensic.Listing

/-!
# What the two walks cost

The audit enters a first cluster once, and calls `read_dir` no oftener than it enters one.  The
listing of the command line enters a directory each time that it is led to it: where directories
lead back to each other twice, its lines double at every level, down to the depth of 64.
-/

namespace FatForensic

open DepthSearch Hierarchy

variable {fs : FatFs}

/-! ## The audit -/

namespace Audit

/-- **The audit is linear in the directories.**  It calls `read_dir` at most once more than there
are different first clusters of live directories in the listings that it got. -/
theorem length_readDirCalls_le (img : List UInt8) (fs : FatFs) :
    ∃ ks : List UInt32, ks.Nodup ∧ (readDirCalls img fs).length ≤ ks.length + 1 ∧
      ∀ k ∈ ks, ∃ parent ∈ readDirCalls img fs, ∃ n ∈ nodesOf fs parent,
        isEntered n ∧ n.firstCluster = k := by
  obtain ⟨ks, hnodup, hlen, hkeys⟩ := exists_keys_firstPaths (walkItems fs) MAX_DEPTH FatFs.root
    fun p => p.length < MAX_DEPTH
  have hcard := congrArg Multiset.card (readDirCalls_eq img fs)
  rw [Multiset.coe_card, Multiset.coe_card, firstDirs, List.length_map] at hcard
  refine ⟨ks, hnodup, by rw [hcard]; exact hlen, fun k hk => ?_⟩
  obtain ⟨p, s, hp, hlt, rfl⟩ := hkeys k hk
  obtain ⟨hparent, hitem⟩ := parent_of_mem_firstPaths hp
  obtain ⟨n, hn, hent, hfirst, -⟩ := exists_node_of_descend hitem
  refine ⟨target FatFs.root p, ?_, n, hn, hent, hfirst⟩
  rw [mem_readDirCalls, firstDirs]
  refine List.mem_map_of_mem (List.mem_filter.mpr ⟨hparent, ?_⟩)
  simp only [List.length_append, List.length_singleton, decide_eq_true_eq] at hlt ⊢
  omega

end Audit

/-! ## The listing -/

namespace Cli

open Audit

/-- Two directories that `dir` lists one after the other, both with a line, lead into `S`. -/
def Forks (fs : FatFs) (S : FileId → Prop) (dir : FileId) : Prop :=
  ∃ nodes m n, fs.readDir dir = .ok nodes ∧ [m, n].Sublist nodes ∧
    (isShown m ∧ m.isDir ∧ ¬ m.isDeleted ∧ S m.id) ∧ isShown n ∧ n.isDir ∧ ¬ n.isDeleted ∧ S n.id

/-- **The listing may be exponential.**  Where every directory of a set lists two of the set, and
the root is in it, the listing has nearly as many lines as the binary tree of its depth. -/
theorem two_pow_le_length_list {S : FileId → Prop} (hroot : S FatFs.root)
    (hforks : ∀ dir, S dir → Forks fs S dir) :
    2 ^ (LIST_DEPTH + 1) ≤ (list fs LIST_DEPTH 0 FatFs.root).length + 2 := by
  rw [list_eq, List.length_map]
  refine two_pow_le_length_preorder (fun dir hdir => ?_) LIST_DEPTH 0 hroot
  obtain ⟨nodes, m, n, hread, hsub, ⟨hm, hmdir, hmlive, hmS⟩, hn, hndir, hnlive, hnS⟩ :=
    hforks dir hdir
  refine ⟨m, n, m.id, n.id, ?_, hmS, hnS⟩
  have hrows := (hsub.filter isShown).map fun n => (n, descent n)
  rw [List.filter_cons, if_pos hm, List.filter_cons, if_pos hn, List.filter_nil, List.map_cons,
    List.map_singleton, descent, if_pos ⟨hmdir, hmlive⟩, descent, if_pos ⟨hndir, hnlive⟩] at hrows
  rwa [rows, nodesOf_eq hread]

/-- A FAT32 volume whose root lists two directories in the cluster of the root. -/
def forked : Synth.Volume where
  image := Synth.bpb 1 0 70000 2 ++ Synth.table 4 [0, 0, 0x0FFFFFFF]
    ++ Synth.sectors 1 (Synth.shortEntry (Synth.name 0x41) 0x10 2 0
      ++ Synth.shortEntry (Synth.name 0x42) 0x10 2 0)
  opens := by decide +kernel

/-- The directories of the forked volume list each other. -/
lemma listing_forked : ∀ dir ∈ [FileId.root, .entry 2 0, .entry 2 1],
    ∃ m n, forked.reader.readDir dir = .ok [m, n] ∧
      (isShown m ∧ m.isDir ∧ ¬ m.isDeleted ∧ m.id ∈ [FileId.root, .entry 2 0, .entry 2 1]) ∧
      isShown n ∧ n.isDir ∧ ¬ n.isDeleted ∧ n.id ∈ [FileId.root, .entry 2 0, .entry 2 1] := by
  have hlisting : (∀ dir ∈ [FileId.root, .entry 2 0, .entry 2 1],
        forked.reader.readDir dir = .ok (forked.listing FatFs.root)) ∧
      (forked.listing FatFs.root).length = 2 ∧ ∀ n ∈ forked.listing FatFs.root,
        isShown n ∧ n.isDir ∧ ¬ n.isDeleted ∧ n.id ∈ [FileId.root, .entry 2 0, .entry 2 1] := by
    decide +kernel
  obtain ⟨hread, hlength, hnodes⟩ := hlisting
  obtain ⟨m, n, hmn⟩ := List.length_eq_two.mp hlength
  intro dir hdir
  refine ⟨m, n, hmn ▸ hread dir hdir, hnodes m ?_, hnodes n ?_⟩
  · rw [hmn]
    exact List.mem_cons_self
  · rw [hmn]
    exact List.mem_cons_of_mem _ List.mem_cons_self

/-- The listing of the forked volume, an image of three sectors, has `2 ^ 65 - 2` lines. -/
theorem two_pow_le_length_list_forked :
    2 ^ (LIST_DEPTH + 1) ≤ (list forked.reader LIST_DEPTH 0 FatFs.root).length + 2 :=
  two_pow_le_length_list (S := (· ∈ [FileId.root, .entry 2 0, .entry 2 1])) List.mem_cons_self
    fun dir hdir => by
      obtain ⟨m, n, hread, hm, hn⟩ := listing_forked dir hdir
      exact ⟨[m, n], m, n, hread, List.Sublist.refl _, hm, hn⟩

end Cli
end FatForensic
