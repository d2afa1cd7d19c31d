import LineDiagram.Text.Basic

/-!
# Paths

A path is absolute or relative and has parts.  Empty parts and `.` mean nothing
and are left out; `..` stays.
-/

namespace LineDiagram.CommandLine

/-- A path. -/
structure Path where
  /-- What an absolute path starts with; empty for a relative one. -/
  root : Text
  /-- The parts. -/
  parts : List Text
deriving DecidableEq, Repr

namespace Path

/-- The path that a text spells.  Exactly two slashes in front are kept, more
are one. -/
def ofText (t : Text) : Path where
  root :=
    match (t.takeWhile (· == '/')).length with
    | 0 => []
    | 2 => "//"
    | _ => "/"
  parts := (t.splitOn '/').filter fun part => !part.isEmpty && part != ['.']

/-- A path as text. -/
def toText (p : Path) : Text :=
  if p.root.isEmpty && p.parts.isEmpty then "." else p.root ++ Text.join "/" p.parts

/-- A file name without its last suffix; a point in front or at the end opens
none. -/
def stem (name : Text) : Text :=
  match Text.cutLast? '.' name with
  | some (before, suffix) => if before.isEmpty || suffix.isEmpty then name else before
  | none => name

/-- The path with another suffix. -/
def withSuffix (p : Path) (suffix : String) : Path :=
  { p with
    parts := p.parts.dropLast ++
      p.parts.getLast?.toList.map fun name => stem name ++ suffix.toList }

end Path

end LineDiagram.CommandLine
