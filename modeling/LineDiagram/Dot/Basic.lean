import LineDiagram.Value.Basic

/-!
# The drawing language

Drawings are written in the DOT language.  Values are quoted; a quote inside one
is written with a backslash, and backslashes stay as they are, because `\n` in a
label is a line break.
-/

namespace LineDiagram.Dot

/-- The text of a value: numbers with a fraction have at most four places. -/
def valueText : Value → Text
  | .real x => x.compactText
  | v => v.spell

/-- A text in quotes. -/
def quote (t : Text) : Text :=
  ['"'] ++ t.flatMap (fun c => if c == '"' then ['\\', '"'] else [c]) ++ ['"']

/-- Whether an attribute is written: it is, unless it is null or blank. -/
def isWritten (v : Value) : Bool :=
  match v with
  | .null => false
  | v => !(Text.trim (valueText v)).isEmpty

/-- The assignment of a value to a name. -/
def assignment (name : Text) (v : Value) : Text := name ++ "=" ++ quote (valueText v)

/-- The list of those attributes that are written, after a blank; nothing when
there are none. -/
def attributeList (attributes : List (Text × Value)) : Text :=
  let written := (attributes.filter fun a => isWritten a.2).map fun a => assignment a.1 a.2
  if written.isEmpty then [] else " [" ++ Text.join ", " written ++ "]"

/-- The list of attributes with literal names. -/
def attributesOf (attributes : List (String × Value)) : Text :=
  attributeList (attributes.map fun a => (a.1.toList, a.2))

end LineDiagram.Dot
