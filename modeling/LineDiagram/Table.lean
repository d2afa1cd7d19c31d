import LineDiagram.Text.Basic

/-!
# Tables

A table maps names to texts and remembers the order in which the names came.
Each name stands in it once; setting it again keeps its place.
-/

namespace LineDiagram

/-- Names and texts, each name once, in the order of first mention. -/
abbrev Table := List (Text × Text)

namespace Table

/-- Sets a name: in its place when it is there already, otherwise at the end. -/
def set (table : Table) (name value : Text) : Table :=
  if table.any (·.1 == name) then table.map fun e => if e.1 == name then (name, value) else e
  else table ++ [(name, value)]

/-- The text of a name, or the empty text. -/
def get (table : Table) (name : Text) : Text := (table.lookup name).getD []

/-- Sets every name of the second table in the first. -/
def update (table other : Table) : Table := other.foldl (fun t e => t.set e.1 e.2) table

/-- The table without some names. -/
def without (table : Table) (names : List Text) : Table :=
  table.filter fun e => !names.contains e.1

end Table

end LineDiagram
