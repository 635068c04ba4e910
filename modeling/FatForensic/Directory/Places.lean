import FatForensic.Directory.Offsets
import FatForensic.Lib.Pieces
import FatForensic.Volume.Geometry

/-!
# The clusters that a directory is read from

A directory is put together from clusters, or is the fixed root region.  Two of its deleted
entries, or one of it and one of another directory, lie at the same place in the image just when
one cluster is read for both, with its slots at the same places in it.
-/

namespace FatForensic
namespace FatFs

open Pieces Window

variable (fs : FatFs)

variable {fs} {source source' : DirSource}

/-! ## The offsets of a directory -/

end FatFs
end FatForensic
