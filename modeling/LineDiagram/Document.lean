import LineDiagram.Text.Blank

/-!
# Documents

A document is a text of lines, which end in a line feed, perhaps after a
carriage return.  The editors work on the list of lines.
-/

namespace LineDiagram.Document

/-- A line without the carriage return that ends it. -/
def dropReturn (line : Text) : Text := if line.getLast? == some '\r' then line.dropLast else line

/-- The lines of a text.  The last one is not ended, so it keeps a carriage
return. -/
def split (t : Text) : List Text :=
  let lines := t.splitOn '\n'
  lines.dropLast.map dropReturn ++ lines.getLast?.toList

/-- The text of some lines. -/
def join (lines : List Text) : Text := Text.join "\n" lines

/-- The lines without the blank ones at the end. -/
def dropBlankEnd (lines : List Text) : List Text :=
  (lines.reverse.dropWhile fun l => (Text.trim l).isEmpty).reverse

end LineDiagram.Document
