import FontCatalog.Record.Reading
import FontCatalog.Text.Lines

/-!
# Reading an export back

A text that starts with a bracket is one JSON array of records. Any other text is read line by
line: blank lines do not count, and every other line has to be the JSON of one record.
-/

namespace FontCatalog.Export

/-- Reads the records of lines; the first line that is no record decides. -/
def readLines : List (List Char) → Except Json.Fault (List FontRecord)
  | [] => .ok []
  | line :: rest =>
      if Text.isBlank line then readLines rest
      else do
        let record ← Json.readWhole FontRecord.read line
        let records ← readLines rest
        .ok (record :: records)

/-- Reads the records of an exported text. -/
def read (text : List Char) : Except Json.Fault (List FontRecord) :=
  match Text.trimStart text with
  | '[' :: rest => Json.readWhole FontRecord.readArray ('[' :: rest)
  | trimmed => readLines (Text.lines trimmed)

end FontCatalog.Export
