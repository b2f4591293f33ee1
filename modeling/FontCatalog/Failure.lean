import FontCatalog.Cff.Table
import FontCatalog.FileSystem.Fault
import FontCatalog.Path
import FontCatalog.Type1.Font

/-!
# Failures

A failure is a cause, together with what was being done when it came up. The wording names the
activities from the outermost on, and the cause at the end.
-/

namespace FontCatalog

/-- What was being done. -/
inductive Activity where
  | readingFont (file : Path)
  | parsingFont (file : Path)
  | parsingMember (index : Nat)
  | readingCollection (file : Path)
  | parsingCollectionHeader (file : Path)
  | opening (file : Path)
  | parsingType1 (file : Path)
  | readingType1Data
  | rereadingFont (name : String)
deriving DecidableEq

/-- The wording of an activity. -/
def Activity.message : Activity → String
  | readingFont file => "reading font " ++ file.display
  | parsingFont file => "parsing font " ++ file.display
  | parsingMember index => "parsing font #" ++ Decimal.text index
  | readingCollection file => "reading collection " ++ file.display
  | parsingCollectionHeader file => "parsing collection header " ++ file.display
  | opening file => "opening " ++ file.display
  | parsingType1 file => "parsing PFB " ++ file.display
  | readingType1Data => "reading PFB stream"
  | rereadingFont name => "re-reading font " ++ name

/-- Why something failed. -/
inductive Cause where
  | access (fault : FileFault)
  | sfnt (fault : Sfnt.ReadFault)
  | cff (fault : Cff.Fault)
  | gcid (fault : GcidTooShort)
  | type1 (fault : Type1.Fault)
  | memberNotFound (name : String) (file : Path)
  | openTypeInCollection (name : String) (file : Path)
deriving DecidableEq

/-- The wording of a cause. -/
def Cause.message : Cause → String
  | access fault => fault.message
  | sfnt fault => fault.message
  | cff fault => fault.message
  | gcid fault => fault.message
  | type1 fault => fault.message
  | memberNotFound name file => "font " ++ name ++ " not found in " ++ file.display
  | openTypeInCollection name file =>
      "loading CFF font " ++ name ++ " from collection " ++ file.display ++ " is not supported"

/-- A failure: the activities from the outermost on, and the cause. -/
structure Failure where
  activities : List Activity
  cause : Cause
deriving DecidableEq

/-- The wording of a failure. -/
def Failure.message (failure : Failure) : String :=
  String.intercalate ": " (failure.activities.map Activity.message ++ [failure.cause.message])

/-- A result whose failure has a cause, with what was being done. -/
def during {α ε : Type} (activity : Activity) (cause : ε → Cause) :
    Except ε α → Except Failure α
  | .ok value => .ok value
  | .error fault => .error ⟨[activity], cause fault⟩

/-- A result whose failure is known, with what was being done further out. -/
def Failure.within {α : Type} (activity : Activity) : Except Failure α → Except Failure α
  | .ok value => .ok value
  | .error failure => .error { failure with activities := activity :: failure.activities }

end FontCatalog
