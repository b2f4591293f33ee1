import FontCatalog.Discovery.SystemRoots
import FontCatalog.Proofs.FollowedNames
import FontCatalog.Proofs.PathOrder
import FontCatalog.Proofs.Pieces
import Mathlib.Data.List.Sort

/-!
# The roots that a setting names

A value of the variable is taken apart at its colons and semicolons, and its pieces that are
directories become the roots, in the order of paths. A root takes its place when its first spelling
comes, and later spellings of the same path find the place taken. So the first spelling is the one
that is kept, and apart from that choice the roots depend only on which directories are named.
-/

namespace FontCatalog

namespace SystemRoots

variable {path target root : Path} {roots others candidates : List Path}

/-! ## Places in the order -/

variable {files : FileSystem}

variable {value other : String}

end SystemRoots

namespace Specimen

end Specimen

end FontCatalog
