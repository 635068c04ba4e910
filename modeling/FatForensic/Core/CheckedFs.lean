import FatForensic.Core.Fs
import FatForensic.Lib.Checked

/-!
# The reader, operator by operator

The extent functions of `fs.rs`, with every arithmetic operator, division and slice range of
the source as an operation that can fault, and every arm that the source marks as unreachable
as a fault of its own.  Operations that the source itself checks (`checked_add`, `get`,
`saturating_add`, `min`, `try_from` of a 64-bit `usize`) have no fault.
-/

namespace FatForensic

open Window

/-- The arms marked `cov:unreachable`. -/
inductive Arm where
  /-- No cluster offset in `runs`. -/
  | runs
  /-- No cluster offset in `read_at`. -/
  | readAt
  /-- No cluster offset in `read_dir_bytes`. -/
  | readDirBytes
  /-- The 64 MiB cap of `read_dir_bytes`. -/
  | readDirBytesCap
deriving DecidableEq, Repr

/-- A computation of the reader that may fault. -/
abbrev Run (α : Type) := Except (Checked.Fault Arm) α

/-- `is_bad`; the marker lies one below the end-of-chain threshold. -/
def checkedIsBad (variant : FatVariant) (value : UInt32) : Run Bool := do
  let bad ← Checked.sub (eocThreshold variant).toNat 1
  .ok (value.toNat == bad)

/-- The loop of `follow_chain`, `fuel` being the room left below the cap. -/
def checkedFollowChain (fat : List UInt8) (variant : FatVariant) :
    ℕ → UInt32 → Run (List UInt32)
  | 0, _ => .ok []
  | fuel + 1, cluster =>
    if cluster < 2 then .ok []
    else do
      let next := fatEntry fat variant cluster
      let bad ← checkedIsBad variant next
      if next < 2 ∨ bad ∨ isEoc variant next then .ok [cluster]
      else do
        let rest ← checkedFollowChain fat variant fuel next
        .ok (cluster :: rest)

/-- The loop of `read_fill` over a cursor at `pos`. -/
def checkedReadFill (img : List UInt8) : ℕ → ℕ → List UInt8 → ℕ → Run (ℕ × List UInt8)
  | 0, _, buf, filled => if filled < buf.length then .error .outOfFuel else .ok (filled, buf)
  | fuel + 1, pos, buf, filled =>
    if filled < buf.length then do
      let window ← Checked.range buf filled buf.length
      let got := cursorRead img pos window.length
      if got.length = 0 then .ok (filled, buf)
      else do
        let filled' ← Checked.add 64 filled got.length
        if filled' ≤ filled then .error .stalled
        else checkedReadFill img fuel (pos + got.length) (overwrite buf filled got) filled'
    else .ok (filled, buf)

namespace FatFs

variable (fs : FatFs)

/-- `clusters`. -/
def checkedClusters (firstCluster : UInt32) (size : UInt64) (contiguous : Bool) :
    Run (List UInt32) :=
  if firstCluster < 2 then .ok []
  else if contiguous ∧ size > 0 then do
    let n ← Checked.divCeil 64 size.toNat fs.geom.clusterSize
    let last ← Checked.add 64 firstCluster.toNat n
    .ok ((List.range' firstCluster.toNat (min (last - firstCluster.toNat) fs.maxClusters)).filterMap
      fun c => if c < 2 ^ 32 then some (UInt32.ofNat c) else none)
  else checkedFollowChain fs.fat fs.geom.variant fs.maxClusters firstCluster

/-- `extent_of`. -/
def checkedExtentOf (firstCluster : UInt32) (size : UInt64) (contiguous : Bool) :
    Run (List UInt32 × ℕ) := do
  let clusters ← fs.checkedClusters firstCluster size contiguous
  if size > 0 then .ok (clusters, size.toNat)
  else do
    let total ← Checked.mul 64 clusters.length fs.geom.clusterSize
    .ok (clusters, total)

/-- The extent of a source: that of `extent_of`, or the fixed root region. -/
def checkedExtent : DirSource → Run (List UInt32 × ℕ)
  | .fixedRoot => .ok ([], fs.geom.rootDirBytes)
  | .chain firstCluster size contiguous => fs.checkedExtentOf firstCluster size contiguous

/-- `runs.last_mut()` and the match on it. -/
def checkedPushRun (runs : List (ℕ × ℕ)) (off len : ℕ) : Run (List (ℕ × ℕ)) :=
  match runs.getLast? with
  | some last => do
    let stop ← Checked.add 64 last.1 last.2
    if stop = off then do
      let len' ← Checked.add 64 last.2 len
      .ok (runs.dropLast ++ [(last.1, len')])
    else .ok (runs ++ [(off, len)])
  | none => .ok (runs ++ [(off, len)])

/-- The loop of `runs` over a cluster list. -/
def checkedRunsFrom : List UInt32 → ℕ → List (ℕ × ℕ) → Run (List (ℕ × ℕ))
  | [], _, runs => .ok runs
  | c :: rest, remaining, runs =>
    if remaining = 0 then .ok runs
    else match fs.geom.clusterOffset c with
      | none => .error (.deadArm .runs)
      | some off => do
        let len := min fs.geom.clusterSize remaining
        let remaining ← Checked.sub remaining len
        let runs ← checkedPushRun runs off len
        checkedRunsFrom rest remaining runs

/-- `runs` of what is stored at `source`. -/
def checkedRuns (source : DirSource) : Run (List (ℕ × ℕ)) := do
  let (chain, total) ← fs.checkedExtent source
  if chain.isEmpty then .ok (if total = 0 then [] else [(fs.geom.rootDirStart, total)])
  else fs.checkedRunsFrom chain total []

/-- The loop of `read_at` up to the logical position `stop`. -/
def checkedReadAtFrom (chain : List UInt32) (stop : ℕ) :
    ℕ → ℕ → ℕ → List UInt8 → Run (ℕ × List UInt8)
  | 0, pos, written, buf => if pos < stop then .error .outOfFuel else .ok (written, buf)
  | fuel + 1, pos, written, buf =>
    if pos < stop then do
      let ci ← Checked.div pos fs.geom.clusterSize
      match chain[ci]? with
      | none => .ok (written, buf)
      | some cluster =>
        match fs.geom.clusterOffset cluster with
        | none => .error (.deadArm .readAt)
        | some base => do
          let intra ← Checked.rem pos fs.geom.clusterSize
          let avail ← Checked.sub fs.geom.clusterSize intra
          let left ← Checked.sub stop pos
          let want := min left avail
          let start ← Checked.add 64 base intra
          let windowEnd ← Checked.add 64 written want
          let window ← Checked.range buf written windowEnd
          let r ← checkedReadFill fs.image window.length start window 0
          let buf := overwrite buf written r.2
          if r.1 = 0 then .ok (written, buf)
          else do
            let written ← Checked.add 64 written r.1
            let next ← Checked.add 64 pos r.1
            if next ≤ pos then .error .stalled
            else checkedReadAtFrom chain stop fuel next written buf
    else .ok (written, buf)

/-- `read_at` of what is stored at `source`. -/
def checkedReadAt (source : DirSource) (off : ℕ) (buf : List UInt8) : Run (ℕ × List UInt8) := do
  let (chain, total) ← fs.checkedExtent source
  if off ≥ total then .ok (0, buf)
  else
    let stop := min (saturatingAdd off buf.length) total
    -- every round advances, so this is enough fuel
    fs.checkedReadAtFrom chain stop (stop - off) off 0 buf

/-- The loop of `read_dir_bytes` over a cluster list. -/
def checkedReadClusters : List UInt32 → List UInt8 → Run (List UInt8)
  | [], out => .ok out
  | cluster :: rest, out =>
    if MAX_DIR_BYTES ≤ out.length then .error (.deadArm .readDirBytesCap)
    else match fs.geom.clusterOffset cluster with
      | none => .error (.deadArm .readDirBytes)
      | some base => do
        let r ← checkedReadFill fs.image fs.geom.clusterSize base
          (List.replicate fs.geom.clusterSize 0) 0
        checkedReadClusters rest (out ++ r.2.take r.1)

/-- `read_dir_bytes` of a cluster extent. -/
def checkedReadDirBytes (firstCluster : UInt32) (size : UInt64) (contiguous : Bool) :
    Run (List UInt8) := do
  let clusters ← fs.checkedClusters firstCluster size contiguous
  fs.checkedReadClusters clusters []

end FatFs
end FatForensic
