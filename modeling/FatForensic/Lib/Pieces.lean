import Mathlib.Data.List.Basic
import Mathlib.Tactic.Linarith

/-!
# Sequences put together from pieces

A sequence is put together from pieces of a store, one behind the other.  Each piece has a place
in the store and a length, and starts in the sequence where the pieces before it end.
-/

namespace FatForensic
namespace Pieces

variable {α : Type*} (base length : α → ℕ)

/-- The places of the elements in the store. -/
def offsets (as : List α) : List ℕ := as.flatMap fun a => List.range' (base a) (length a)

variable {base length}

end Pieces
end FatForensic
