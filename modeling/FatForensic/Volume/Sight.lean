import FatForensic.Volume.Adapter
import FatForensic.Volume.Written

/-!
# What is seen of a volume

A caller who follows names sees sizes, names and contents.  Of a stored volume this is what the
hierarchy holds and nothing else: two volumes look the same along a path exactly if the objects
that they store there hold the same, whatever their formats, their layouts and their records.
-/

namespace FatForensic

open Window Hierarchy

namespace Plan

variable {ρ σ κ κ' : Type} {P : Plan ρ κ} {F : DirFormat ρ} {img : List UInt8} {fs : FatFs}
  {Q : Plan σ κ'} {G : DirFormat σ} {img' : List UInt8} {fs' : FatFs}

end Plan
end FatForensic
