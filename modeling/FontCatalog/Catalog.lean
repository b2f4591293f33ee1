import FontCatalog.Discovery.Basic
import FontCatalog.Extraction

/-!
# Catalogs

A catalog is the list of the records of all fonts that a scan came across, in the order in which
their files were discovered.
-/

namespace FontCatalog

/-- The records of a scan. -/
structure Catalog where
  records : List FontRecord
deriving DecidableEq

namespace Catalog

/-- The catalog of no fonts. -/
def empty : Catalog :=
  ⟨[]⟩

/-- The number of records. -/
def size (catalog : Catalog) : Nat :=
  catalog.records.length

/-- The catalog of the given files. -/
def ofFiles (files : FileSystem) (paths : List Path) : Catalog × List Event :=
  let extraction := Extraction.ofFiles files paths
  (⟨extraction.records⟩, extraction.events ++ [.indexed extraction.records.length])

/-- The catalog of the files that were discovered. A discovery that failed is reported and leaves
the catalog empty. -/
def build (files : FileSystem) (discovered : Except String (List Path)) (events : List Event) :
    Catalog × List Event :=
  let (paths, failures) : List Path × List Event :=
    match discovered with
    | .ok paths => (paths, [])
    | .error reason => ([], [.discoveryFailed reason])
  let (catalog, extracted) := ofFiles files paths
  (catalog, .searching :: events ++ failures ++ .found paths.length :: extracted)

/-- The catalog of the fonts that scan options lead to. -/
def scan (files : FileSystem) (environment : Environment) (options : ScanOptions) :
    Catalog × List Event :=
  let (discovery, optionEvents) := options.discovery files environment
  let (paths, walkEvents) := discovery.find files
  let (catalog, events) := build files (.ok paths) walkEvents
  (catalog, optionEvents ++ events)

/-- One line for each record: format, PostScript name and file. -/
def listing (catalog : Catalog) : String :=
  String.join (catalog.records.map fun record => record.display ++ "\n")

end Catalog

end FontCatalog
