import LineDiagram.Line.Basic
import LineDiagram.Value.Basic

/-!
# Finding lines

Nodes are found by their identifier and edges by the number of their line.
-/

namespace LineDiagram

/-- The position of the first definition of a node. -/
def findDefinition? (lines : List Text) (id : Text) : Option Nat :=
  let id := Text.trim id
  if id.isEmpty then none else lines.findIdx? fun raw => (Line.ofText raw).definedNode? == some id

/-- The identifiers of all definitions, in order. -/
def definedNodes (lines : List Text) : List Text :=
  lines.filterMap fun raw => (Line.ofText raw).definedNode?

/-- A reference to a line by its number. -/
structure LineRef where
  /-- The reference as it is written. -/
  written : Text
  /-- The number, from one, if the reference is one. -/
  number : Option Int
deriving DecidableEq, Repr

namespace LineRef

/-- A reference by a number. -/
def ofInt (n : Int) : LineRef := ⟨Text.ofInt n, some n⟩

/-- A reference by any value; only an infinity is refused. -/
def ofValue (v : Value) : Except RoundingFault LineRef :=
  match v.lineNumber? with
  | .ok n => .ok ⟨v.spell, n⟩
  | .error e => .error e

/-- How the line is called in messages. -/
def name (ref : LineRef) : Text := "line " ++ ref.written

/-- The position of the line among the lines, if it is there and an edge. -/
def edgeIndex? (ref : LineRef) (lines : List Text) : Option Nat :=
  match ref.number with
  | some (.ofNat (index + 1)) =>
    match lines[index]? with
    | some raw =>
      match Line.contentOfRaw raw with
      | .edge _ _ _ => some index
      | _ => none
    | none => none
  | _ => none

end LineRef

end LineDiagram
