import FontCatalog.Failure
import FontCatalog.Format

/-!
# Events

What the program reports while it works. Every font that is described is reported once, and so is
every font that is left out.
-/

namespace FontCatalog

/-- How serious an event is. -/
inductive Level where
  | trace
  | debug
  | warning
  | error
deriving DecidableEq

/-- The name of a level. -/
def Level.name : Level → String
  | trace => "TRACE"
  | debug => "DEBUG"
  | warning => "WARN"
  | error => "ERROR"

/-- Why an entry below a root was passed over. -/
inductive WalkFault where
  | access (path : Path) (fault : FileFault)
  | loop (path ancestor : Path)
deriving DecidableEq

/-- The wording of a fault. -/
def WalkFault.message : WalkFault → String
  | access path fault => "IO error for operation on " ++ path.display ++ ": " ++ fault.message
  | loop path ancestor =>
      "File system loop found: " ++ path.display ++ " points to an ancestor " ++ ancestor.display

/-- Something that is reported. -/
inductive Event where
  | missingNamingTable (file : Path)
  | missingPostscriptName (file : Path)
  | missingHead (name : String) (file : Path)
  | described (format : FontFormat) (name : String) (family subfamily : Option String)
  | describedType1 (name : String) (family weight : Option String)
  | memberFailed (index : Nat) (file : Path) (failure : Failure)
  | fileFailed (file : Path) (failure : Failure)
  | searching
  | discoveryFailed (reason : String)
  | found (count : Nat)
  | indexed (count : Nat)
  | missingRoot (root : Path)
  | unreadable (root : Path) (fault : WalkFault)
  | noDirectories
  | noOverrideDirectories (setting : String)
  | noPlatformDirectories
  | loaded (name : String) (file : Path)
  | memberUnreadable (file : Path) (fault : Sfnt.ReadFault)
deriving DecidableEq

namespace Event

/-- How serious an event is. -/
def level : Event → Level
  | described _ _ _ _ | describedType1 _ _ _ | searching | found _ | indexed _ => .trace
  | missingHead _ _ | loaded _ _ => .debug
  | missingNamingTable _ | missingPostscriptName _ | missingRoot _ | unreadable _ _
  | noDirectories | noOverrideDirectories _ | noPlatformDirectories
  | memberUnreadable _ _ => .warning
  | memberFailed _ _ _ | fileFailed _ _ | discoveryFailed _ => .error

/-- A name in quotes; an absent one is empty. -/
def quoted (name : Option String) : String :=
  "'" ++ name.getD "" ++ "'"

/-- The wording of an event. -/
def message : Event → String
  | missingNamingTable file => "Missing 'name' table in font " ++ file.display
  | missingPostscriptName file =>
      "Missing 'name' entry for PostScript name in font " ++ file.display
  | missingHead name file =>
      "Skipping " ++ name ++ " in " ++ file.display ++ ": no 'head' table"
  | described format name family subfamily =>
      format.shortName ++ ": " ++ quoted (some name) ++ " / " ++ quoted family ++ " / " ++
        quoted subfamily
  | describedType1 name family weight =>
      "PFB: " ++ quoted (some name) ++ " / " ++ quoted family ++ " / " ++ quoted weight
  | memberFailed index file failure =>
      "Could not load font #" ++ Decimal.text index ++ " of " ++ file.display ++ ": " ++
        failure.message
  | fileFailed file failure =>
      "Could not load font file: " ++ file.display ++ ": " ++ failure.message
  | searching => "Will search the local system for fonts"
  | discoveryFailed reason => "Font discovery failed: " ++ reason
  | found count => "Found " ++ Decimal.text count ++ " fonts on the local system"
  | indexed count => "Indexed " ++ Decimal.text count ++ " fonts"
  | missingRoot root => "Skipping missing font directory " ++ root.display
  | unreadable root fault =>
      "Skipping unreadable entry under " ++ root.display ++ ": " ++ fault.message
  | noDirectories => "No font directories to scan"
  | noOverrideDirectories setting => setting ++ " is set but none of its paths exist"
  | noPlatformDirectories => "No system font directories found for this platform"
  | loaded name file => "Loaded " ++ name ++ " from " ++ file.display
  | memberUnreadable file fault =>
      "Skipping unreadable font in " ++ file.display ++ ": " ++ fault.message

/-- The event as a line of a log. -/
def line (event : Event) : String :=
  event.level.name ++ " " ++ event.message

end Event

end FontCatalog
