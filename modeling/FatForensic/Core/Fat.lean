import FatForensic.Core.Boot

/-!
# FAT table access

`fat.rs`: the next-pointer of a cluster, the end-of-chain and bad-cluster markers, and the
capped walk along a cluster chain.
-/

namespace FatForensic

/-- Decode the FAT entry of `cluster`; `0` if the entry falls outside the FAT slice. -/
def fatEntry (fat : List UInt8) (variant : FatVariant) (cluster : UInt32) : UInt32 :=
  match variant with
  | .fat12 =>
    -- two 12-bit entries share three bytes
    let raw := (leU16 fat (cluster.toNat * 3 / 2)).toUInt32
    if cluster &&& 1 = 1 then raw >>> 4 else raw &&& 0x0FFF
  | .fat16 => (leU16 fat (cluster.toNat * 2)).toUInt32
  | .fat32 | .exFat => leU32 fat (cluster.toNat * 4) &&& 0x0FFFFFFF

/-- A value at or above this one marks the last cluster of a chain. -/
def eocThreshold : FatVariant → UInt32
  | .fat12 => 0x0FF8
  | .fat16 => 0xFFF8
  | .fat32 | .exFat => 0x0FFFFFF8

/-- Whether `value` is an end-of-chain marker. -/
def isEoc (variant : FatVariant) (value : UInt32) : Bool := eocThreshold variant ≤ value

/-- Whether `value` is the bad-cluster marker. -/
def isBad (variant : FatVariant) (value : UInt32) : Bool := value == eocThreshold variant - 1

/-- The body of the loop of `follow_chain`, `fuel` being the room left below the cap. -/
def followChainFrom (fat : List UInt8) (variant : FatVariant) : ℕ → UInt32 → List UInt32
  | 0, _ => []
  | fuel + 1, cluster =>
    if cluster < 2 then []
    else
      let next := fatEntry fat variant cluster
      if next < 2 ∨ isBad variant next ∨ isEoc variant next then [cluster]
      else cluster :: followChainFrom fat variant fuel next

/-- Follow the cluster chain starting at `start`, at most `maxClusters` clusters. -/
def followChain (fat : List UInt8) (variant : FatVariant) (start : UInt32) (maxClusters : ℕ) :
    List UInt32 :=
  followChainFrom fat variant maxClusters start

end FatForensic
