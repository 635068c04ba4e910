import FatForensic.Directory.Places
import FatForensic.Forensic.Walk
import FatForensic.Volume.Handles

/-!
# Deleted entries that the walk reports twice

The set of seen first clusters keeps the walk from entering one first cluster twice.  It
does not keep it from reading one slot twice: the root is entered without being seen, and
chains with different first clusters, or one cyclic chain, can run through one cluster.
-/

namespace FatForensic
namespace Audit

open DepthSearch

variable {fs : FatFs}

end Audit
end FatForensic
