import FontCatalog.Bytes
import FontCatalog.Text.WhiteSpace

/-!
# Lines

A line feed ends a line, and a carriage return right before it belongs to the line end. What
follows the last line feed is a line of its own unless it is empty.
-/

namespace FontCatalog.Text

/-- A line without the carriage return at its end. -/
def dropCarriageReturn (line : List Char) : List Char :=
  if line.getLast? = some '\r' then line.dropLast else line

/-- The pieces between line feeds, as lines. -/
def linesOfPieces : List (List Char) → List (List Char)
  | [] => []
  | [last] => if last = [] then [] else [last]
  | line :: rest => dropCarriageReturn line :: linesOfPieces rest

/-- The lines of a text, without their line ends. -/
def lines (text : List Char) : List (List Char) :=
  linesOfPieces (pieces (· == '\n') text)

end FontCatalog.Text
