import FontCatalog.Event
import FontCatalog.FileSystem.Access

/-!
# System roots

The directories in which the platform keeps its fonts. An environment variable can name others in
their place, separated by colons or semicolons. Only directories that exist count; they are listed
in the order of paths, and of several spellings of one path the first one is kept.
-/

namespace FontCatalog

/-- The settings that the environment provides. -/
structure Environment where
  /-- The directories that take the place of the platform's, if the variable is set. -/
  fontDirectories : Option String
  /-- The home directory of the user. -/
  home : Option Path

namespace SystemRoots

/-- The variable that names other font directories. -/
def overrideVariable : String := "FONTPROV_SYSTEM_FONT_DIRS"

/-- Puts a path into a list in the order of paths, unless a spelling of it is there already. -/
def insert (path : Path) : List Path → List Path
  | [] => [path]
  | first :: rest =>
      match path.compare first with
      | .lt => path :: first :: rest
      | .eq => first :: rest
      | .gt => first :: insert path rest

/-- The candidates that are directories, in the order of paths. -/
def existing (files : FileSystem) (candidates : List Path) : List Path :=
  candidates.foldl
    (fun roots candidate => if files.isDirectory candidate then insert candidate roots else roots)
    []

/-- The character separates directories in the variable. -/
def isSeparator (char : Char) : Bool :=
  char = ':' || char = ';'

/-- The paths that a value of the variable names. -/
def named (value : String) : List Path :=
  ((pieces isSeparator value.toList).filter (· ≠ [])).map Path.ofText

/-- The font directories of the platform. -/
def platform (home : Option Path) : List Path :=
  let shared := ["/usr/share/fonts", "/usr/local/share/fonts"].map Path.ofString
  let own := home.toList.flatMap fun home =>
    [home.join (Path.ofString ".local/share/fonts"), home.join (Path.ofString ".fonts")]
  shared ++ own

/-- The system roots, with a warning if there are none. -/
def find (files : FileSystem) (environment : Environment) : List Path × List Event :=
  match environment.fontDirectories with
  | some value =>
      let roots := existing files (named value)
      (roots, if roots = [] then [.noOverrideDirectories overrideVariable] else [])
  | none =>
      let roots := existing files (platform environment.home)
      (roots, if roots = [] then [.noPlatformDirectories] else [])

end SystemRoots

end FontCatalog
