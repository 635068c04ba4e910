import FatForensic.Volume.FatTable

/-!
# The cached FAT

`open` caches the first FAT up to `MAX_FAT_BYTES`.  The entries that lie below this bound are
those of the image; an entry beyond it is read as free, and a chain ends there.
-/

namespace FatForensic

open LittleEndian Window

/-- The bytes of the first FAT, as the image holds them. -/
def diskFat (img : List UInt8) (g : Geometry) : List UInt8 :=
  slice img g.fatStart (g.fatSizeSectors * g.bytesPerSector)

/-- The entry of a cluster, decoded at its place in the image. -/
def diskEntry (img : List UInt8) (g : Geometry) (c : UInt32) : UInt32 :=
  fatEntry (img.drop g.fatStart) g.variant c

variable {img : List UInt8} {fs : FatFs} {fat : List UInt8} {variant : FatVariant} {c : UInt32}

/-- An entry is the same in every prefix of the FAT that holds it. -/
lemma fatEntry_take {n : ℕ} (hn : n ≤ fat.length)
    (h : entryOffset variant c + entryLength variant ≤ n) :
    fatEntry (fat.take n) variant c = fatEntry fat variant c := by
  cases variant <;> simp only [entryOffset, entryLength] at h
  · rw [fatEntry, fatEntry, leU16_take h hn]
  · rw [fatEntry, fatEntry, leU16_take h hn]
  · rw [fatEntry, fatEntry, leU32_take h hn]
  · rw [fatEntry, fatEntry, leU32_take h hn]

/-- Tables with the same entries for the clusters of a chain have the same chain. -/
lemma followChain_congr {fat' : List UInt8} {start : UInt32} {n : ℕ}
    (h : ∀ c ∈ followChain fat variant start n, fatEntry fat' variant c = fatEntry fat variant c) :
    followChain fat' variant start n = followChain fat variant start n := by
  rw [followChain] at h
  rw [followChain, followChain]
  induction n generalizing start with
  | zero => rfl
  | succ n ih =>
    rw [followChainFrom] at h
    rw [followChainFrom, followChainFrom]
    by_cases h2 : start < 2
    · rw [if_pos h2, if_pos h2]
    rw [if_neg h2] at h
    rw [if_neg h2, if_neg h2]
    dsimp only at h ⊢
    by_cases hstop : fatEntry fat variant start < 2 ∨ isBad variant (fatEntry fat variant start) ∨
        isEoc variant (fatEntry fat variant start)
    · rw [if_pos hstop] at h
      rw [h start List.mem_cons_self, if_pos hstop, if_pos hstop]
    · rw [if_neg hstop] at h
      rw [h start List.mem_cons_self, if_neg hstop, if_neg hstop,
        ih fun c hc => h c (List.mem_cons_of_mem _ hc)]

/-- What the reader finds for an entry of the first FAT. -/
lemma fatEntry_cache (hopen : FatFs.openImage img = .ok fs)
    (hwhole : fs.geom.fatStart + fs.geom.fatSizeSectors * fs.geom.bytesPerSector ≤ img.length)
    (hin : entryOffset fs.geom.variant c + entryLength fs.geom.variant
      ≤ fs.geom.fatSizeSectors * fs.geom.bytesPerSector) :
    fatEntry fs.fat fs.geom.variant c =
      if entryOffset fs.geom.variant c + entryLength fs.geom.variant ≤ MAX_FAT_BYTES then
        diskEntry img fs.geom c
      else 0 := by
  have hfat := (FatFs.openImage_ok hopen).fat
  have hlen : (img.drop fs.geom.fatStart).length = img.length - fs.geom.fatStart :=
    List.length_drop
  split
  next hcap =>
    rw [hfat, slice, fatEntry_take (by omega) (le_min hin hcap), diskEntry]
  next hcap =>
    refine fatEntry_eq_zero fun h => hcap (h.trans ?_)
    rw [hfat, length_slice]
    omega

lemma fatEntry_diskFat
    (hwhole : fs.geom.fatStart + fs.geom.fatSizeSectors * fs.geom.bytesPerSector ≤ img.length)
    (hin : entryOffset fs.geom.variant c + entryLength fs.geom.variant
      ≤ fs.geom.fatSizeSectors * fs.geom.bytesPerSector) :
    fatEntry (diskFat img fs.geom) fs.geom.variant c = diskEntry img fs.geom c := by
  have hlen : (img.drop fs.geom.fatStart).length = img.length - fs.geom.fatStart :=
    List.length_drop
  rw [diskFat, slice, fatEntry_take (by omega) hin, diskEntry]

/-- **The cached FAT.**  On an image that holds its first FAT, the reader finds the entries of the
FAT that lie in its first 256 MiB, and takes all others for free; so it follows a chain as it
is stored, when the entries of its clusters lie there. -/
theorem cache_faithful (hopen : FatFs.openImage img = .ok fs)
    (hwhole : fs.geom.fatStart + fs.geom.fatSizeSectors * fs.geom.bytesPerSector ≤ img.length) :
    (∀ c, entryOffset fs.geom.variant c + entryLength fs.geom.variant
        ≤ fs.geom.fatSizeSectors * fs.geom.bytesPerSector →
      fatEntry fs.fat fs.geom.variant c =
        if entryOffset fs.geom.variant c + entryLength fs.geom.variant ≤ MAX_FAT_BYTES then
          diskEntry img fs.geom c
        else 0) ∧
    ∀ start n, (∀ c ∈ followChain (diskFat img fs.geom) fs.geom.variant start n,
        entryOffset fs.geom.variant c + entryLength fs.geom.variant
          ≤ fs.geom.fatSizeSectors * fs.geom.bytesPerSector →
        entryOffset fs.geom.variant c + entryLength fs.geom.variant ≤ MAX_FAT_BYTES) →
      followChain fs.fat fs.geom.variant start n
        = followChain (diskFat img fs.geom) fs.geom.variant start n := by
  refine ⟨fun c hin => fatEntry_cache hopen hwhole hin, fun start n hcap => ?_⟩
  refine followChain_congr fun c hc => ?_
  by_cases hin : entryOffset fs.geom.variant c + entryLength fs.geom.variant
      ≤ fs.geom.fatSizeSectors * fs.geom.bytesPerSector
  · rw [fatEntry_cache hopen hwhole hin, if_pos (hcap c hc hin), fatEntry_diskFat hwhole hin]
  · -- the entry lies beyond the FAT, in the cache as on disk
    have hfat : fs.fat.length ≤ fs.geom.fatSizeSectors * fs.geom.bytesPerSector := by
      rw [(FatFs.openImage_ok hopen).fat, length_slice]
      omega
    have hdisk : (diskFat img fs.geom).length
        ≤ fs.geom.fatSizeSectors * fs.geom.bytesPerSector := by
      rw [diskFat, length_slice]
      omega
    rw [fatEntry_eq_zero fun h => hin (h.trans hfat), fatEntry_eq_zero fun h => hin (h.trans hdisk)]

/-- The nested volume holds its FAT, and its reader follows the chains stored there. -/
theorem cache_faithful_nested :
    followChain Synth.nested.reader.fat Synth.nested.reader.geom.variant 2 2
      = followChain (diskFat Synth.nested.image Synth.nested.reader.geom)
          Synth.nested.reader.geom.variant 2 2 := by
  have hnested : Synth.nested.reader.geom.fatStart
      + Synth.nested.reader.geom.fatSizeSectors * Synth.nested.reader.geom.bytesPerSector
        ≤ Synth.nested.image.length ∧
      Synth.nested.reader.geom.fatSizeSectors * Synth.nested.reader.geom.bytesPerSector
        ≤ MAX_FAT_BYTES := by
    decide +kernel
  exact (cache_faithful Synth.nested.openImage_image hnested.1).2 2 2
    fun c _ hin => hin.trans hnested.2

/-- A FAT32 boot sector with one FAT of 524289 sectors, one more than the cache holds. -/
def oversizeBoot : List UInt8 := (Synth.bpb 1 0 70000000 2).set 38 8

/-- The geometry of this boot sector. -/
def oversizeGeometry : Geometry := (Geometry.parse oversizeBoot).toOption.getD default

/-- An image of this boot sector and its FAT, in which cluster `0x4000000` points to cluster 3. -/
def oversize : List UInt8 :=
  oversizeBoot ++ (List.replicate (2 ^ 28) 0 ++ (toBytes 4 3 ++ List.replicate 508 0))

/-- **A stored pointer can be missing in the cache**: the reader takes cluster `0x4000000` of
`oversize` for free. -/
theorem not_cache_faithful_oversize :
    ¬ ∀ (img : List UInt8) (fs : FatFs), FatFs.openImage img = .ok fs →
      fs.geom.fatStart + fs.geom.fatSizeSectors * fs.geom.bytesPerSector ≤ img.length →
      ∀ c, fs.geom.InHeap c → entryOffset fs.geom.variant c + entryLength fs.geom.variant
          ≤ fs.geom.fatSizeSectors * fs.geom.bytesPerSector →
        fatEntry fs.fat fs.geom.variant c = diskEntry img fs.geom c := by
  intro h
  have hboot : oversizeBoot.length = 512 ∧ slice oversizeBoot 3 8 ≠ Exfat.SIGNATURE ∧
      Geometry.parse oversizeBoot = .ok oversizeGeometry ∧ oversizeGeometry.variant = .fat32 ∧
      oversizeGeometry.fatStart = 512 ∧
      oversizeGeometry.fatSizeSectors * oversizeGeometry.bytesPerSector = 2 ^ 28 + 512 ∧
      oversizeGeometry.countOfClusters = 69475710 := by
    decide +kernel
  obtain ⟨hlen, hsig, hparse, hvar, hstart, hsize, hcount⟩ := hboot
  have htake : oversize.take 512 = oversizeBoot := List.take_left' hlen
  have hlength : oversize.length = 512 + (2 ^ 28 + 512) := by
    simp only [oversize, List.length_append, List.length_replicate, length_toBytes, hlen]
  obtain ⟨fs, hopen, hgeom⟩ : ∃ fs, FatFs.openImage oversize = .ok fs ∧
      fs.geom = oversizeGeometry := by
    refine FatFs.exists_openImage_of_parse (by omega) ?_ (htake.symm ▸ hparse)
    rw [← slice_take oversize (show 3 + 8 ≤ 512 by norm_num), htake]
    exact hsig
  have hin : entryOffset fs.geom.variant 0x4000000 + entryLength fs.geom.variant
      ≤ fs.geom.fatSizeSectors * fs.geom.bytesPerSector := by
    rw [hgeom, hvar, hsize]
    decide
  have hwhole : fs.geom.fatStart + fs.geom.fatSizeSectors * fs.geom.bytesPerSector
      ≤ oversize.length := by
    rw [hgeom, hstart, hsize, hlength]
  have hheap : fs.geom.InHeap 0x4000000 := by
    rw [hgeom]
    exact ⟨by decide, by rw [hcount]; decide⟩
  have hentry := h oversize fs hopen hwhole _ hheap hin
  have hcap : ¬ entryOffset fs.geom.variant 0x4000000 + entryLength fs.geom.variant
      ≤ MAX_FAT_BYTES := by
    rw [hgeom, hvar]
    decide
  rw [fatEntry_cache hopen hwhole hin, if_neg hcap, diskEntry, hgeom, hvar, hstart] at hentry
  -- on disk the entry is 3
  have hdrop : oversize.drop 512
      = List.replicate (2 ^ 28) 0 ++ (toBytes 4 3 ++ List.replicate 508 0) := List.drop_left' hlen
  have hpos : (0x4000000 : UInt32).toNat * 4 = 2 ^ 28 := by decide
  have hwindow : window 4 (oversize.drop 512) (2 ^ 28) = some (toBytes 4 3) := by
    rw [window, if_pos (by rw [List.length_drop, hlength]; omega), hdrop,
      slice_append_right _ _ (by rw [List.length_replicate]), List.length_replicate, Nat.sub_self]
    rfl
  rw [fatEntry, hpos, leU32, hwindow] at hentry
  exact absurd hentry (by decide)

end FatForensic
