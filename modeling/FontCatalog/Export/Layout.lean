import FontCatalog.Bytes

/-!
# Layouts of an export

The shapes in which records leave the program, and the names by which a user asks for them.
-/

namespace FontCatalog.Export

/-- The shape of an export. -/
inductive Layout where
  /-- An indented JSON array. -/
  | json
  /-- One compact JSON object on each line. -/
  | jsonLines
  /-- One readable line for each record. -/
  | listing
deriving DecidableEq

/-- The fault of asking for a layout that does not exist, with the name in lower case. -/
structure UnknownLayout where
  name : String
deriving DecidableEq

/-- The wording of the fault. -/
def UnknownLayout.message (fault : UnknownLayout) : String :=
  "unknown record layout: " ++ fault.name

namespace Layout

/-- The layout of an export for which none is asked. -/
def default : Layout := listing

/-- The layout with the given name, in whichever case its ASCII letters are. -/
def ofName (name : String) : Except UnknownLayout Layout :=
  let lower := name.map Char.toLower
  if lower = "json" then .ok json
  else if lower = "ndjson" ∨ lower = "jsonl" then .ok jsonLines
  else if lower = "listing" ∨ lower = "text" then .ok listing
  else .error ⟨lower⟩

end Layout

end FontCatalog.Export
