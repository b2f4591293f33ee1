import FontCatalog.Discovery.SystemRoots
import FontCatalog.Discovery.Walk
import FontCatalog.Format

/-!
# Discovery

A discovery finds the font files below its roots, root after root. A root that does not exist is
reported and does not keep the others from being walked.
-/

namespace FontCatalog

/-- The roots to be walked, and whether symbolic links are followed. -/
structure Discovery where
  roots : List Path
  followsLinks : Bool

namespace Discovery

/-- The path of a font file that was found. -/
def font? : Finding → Option Path
  | .file path => if path.isFont then some path else none
  | .fault _ => none

/-- The event that reports a finding below a root. -/
def event? (root : Path) : Finding → Option Event
  | .file _ => none
  | .fault fault => some (.unreadable root fault)

/-- The font files below a root. -/
def findBelow (files : FileSystem) (followsLinks : Bool) (root : Path) :
    List Path × List Event :=
  if files.pathExists root then
    let findings := files.walkRoot followsLinks root
    (findings.filterMap font?, findings.filterMap (event? root))
  else ([], [.missingRoot root])

/-- The font files below all roots. -/
def find (discovery : Discovery) (files : FileSystem) : List Path × List Event :=
  let found := discovery.roots.map (findBelow files discovery.followsLinks)
  (found.flatMap Prod.fst, found.flatMap Prod.snd)

end Discovery

/-- Where to look for fonts. -/
structure ScanOptions where
  roots : List Path
  includesSystemFonts : Bool
  followsLinks : Bool

namespace ScanOptions

/-- The discovery that the options ask for. -/
def discovery (options : ScanOptions) (files : FileSystem) (environment : Environment) :
    Discovery × List Event :=
  let (systemRoots, systemEvents) :=
    if options.includesSystemFonts then SystemRoots.find files environment else ([], [])
  let roots := options.roots ++ systemRoots
  (⟨roots, options.followsLinks⟩, systemEvents ++ if roots = [] then [.noDirectories] else [])

end ScanOptions

end FontCatalog
