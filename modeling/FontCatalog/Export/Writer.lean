import FontCatalog.Export.Layout
import FontCatalog.Record.Document

/-!
# Writing an export

An export is written step by step: fragments of JSON documents, and texts of the export itself,
which are the line ends after JSON documents and the lines of a listing. A sink takes the steps in
order. It may have room for a limited number of bytes only, and then takes exactly that many of
them before it fails.
-/

namespace FontCatalog.Export

/-- A step of writing an export. -/
inductive Step where
  | json (fragment : Json.Fragment)
  | own (chars : List Char)
deriving DecidableEq

/-- Why an export was not written to its end. -/
inductive WriteFault where
  /-- There was no room for a part of a JSON document. -/
  | fullInJson
  /-- There was no room for a line end or a line of a listing. -/
  | fullInText
  /-- The path of a record is no text. -/
  | pathNotText
deriving DecidableEq

/-- The wording of a fault. -/
def WriteFault.message : WriteFault → String
  | fullInJson | fullInText => "disk full"
  | pathNotText => "path contains invalid UTF-8 characters"

/-- The steps that write records in a layout. -/
def steps (records : List FontRecord) : Layout → List Step
  | .json =>
      (Json.Document.array (records.map FontRecord.document) .indented 0).map Step.json ++
        [.own ['\n']]
  | .jsonLines =>
      records.flatMap fun record => (record.document .compact 0).map Step.json ++ [.own ['\n']]
  | .listing => records.map fun record => .own (record.display.toList ++ ['\n'])

/-- A sink: the bytes it has taken, and how many more it has room for, if that is limited. -/
structure Sink where
  taken : Bytes
  room : Option Nat

namespace Sink

/-- A sink that has taken nothing. -/
def empty (room : Option Nat) : Sink :=
  ⟨[], room⟩

/-- Takes as many of the bytes as there is room for, and says whether these were all. -/
def take (sink : Sink) (bytes : Bytes) : Sink × Bool :=
  match sink.room with
  | none => (⟨sink.taken ++ bytes, none⟩, true)
  | some room =>
      (⟨sink.taken ++ bytes.take room, some (room - bytes.length)⟩, bytes.length ≤ room)

end Sink

/-- Writes steps into a sink until one fails. -/
def run (sink : Sink) : List Step → Sink × Option WriteFault
  | [] => (sink, none)
  | .json .pathNotText :: _ => (sink, some .pathNotText)
  | .json (.text chars) :: rest =>
      match sink.take (Text.Utf8.encode chars) with
      | (next, true) => run next rest
      | (next, false) => (next, some .fullInJson)
  | .own chars :: rest =>
      match sink.take (Text.Utf8.encode chars) with
      | (next, true) => run next rest
      | (next, false) => (next, some .fullInText)

/-- Writes records in a layout, with room for the given number of bytes, if it is limited. -/
def write (records : List FontRecord) (layout : Layout) (room : Option Nat) :
    Sink × Option WriteFault :=
  run (Sink.empty room) (steps records layout)

end FontCatalog.Export
