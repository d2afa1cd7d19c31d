import LineDiagram.Table
import LineDiagram.Text.Blank
import LineDiagram.Text.Lower

/-!
# Brackets

A line may end in a bracket, `[colour=red | border=1px solid]`.  Its parts stand
between bars; a part is keyed when it holds an equals sign and loose otherwise.
Keys are lower-cased, and of several parts with one key the last counts.
-/

namespace LineDiagram

/-- The parts of a bracket. -/
structure Bracket where
  /-- Keyed parts, by key. -/
  keyed : Table := []
  /-- Loose parts in order. -/
  loose : List Text := []
deriving DecidableEq, Repr

namespace Bracket

/-- A text without its bracket, and the inside of the bracket.  Only a bracket
that closes the text counts, and it opens at the last `[`. -/
def splitTrailing (t : Text) : Text × Option Text :=
  match Text.cutLast? '[' t with
  | some (before, inside) =>
    match (Text.trimEnd inside).reverse with
    | ']' :: inner => (Text.trimEnd before, some (Text.trim inner.reverse))
    | _ => (Text.trimEnd t, none)
  | none => (Text.trimEnd t, none)

/-- The parts between bars, trimmed, without the empty ones. -/
def splitParts (inner : Text) : List Text := Text.parts '|' inner

/-- The parts with bars between them. -/
def joinParts (parts : List Text) : Text := Text.join " | " parts

/-- The key of a keyed part as it is written. -/
def writtenKey? (part : Text) : Option Text :=
  if part.contains '=' then some (Text.trim (part.takeWhile (· != '='))) else none

/-- The key of a keyed part, lower-cased. -/
def key? (part : Text) : Option Text := (writtenKey? part).map Text.lower

/-- What follows the equals sign of a keyed part; a loose part counts whole. -/
def value (part : Text) : Text :=
  match part.dropWhile (· != '=') with
  | _ :: rest => Text.trim rest
  | [] => Text.trim part

/-- Adds a part to a bracket. -/
def addPart (b : Bracket) (part : Text) : Bracket :=
  match key? part with
  | some key => { b with keyed := b.keyed.set key (value part) }
  | none => { b with loose := b.loose ++ [part] }

/-- The parts of the inside of a bracket, which may still be in its brackets. -/
def ofText (inner : Text) : Bracket :=
  let inner := Text.trim inner
  let inner :=
    match inner with
    | '[' :: rest => if Text.endsWith "]" rest then rest.dropLast else inner
    | _ => inner
  (splitParts inner).foldl addPart {}

/-- The value of a key, or the empty text. -/
def get (b : Bracket) (key : String) : Text := b.keyed.get key

/-- The first value that is not empty among those of some keys, or the empty
text. -/
def first (b : Bracket) (keys : List Text) : Text :=
  ((keys.map b.keyed.get).find? fun v => !v.isEmpty).getD []

/-- The keys of a fill colour. -/
def fillKeys : List Text := ["colour", "color", "background"]

/-- The keys of a text size. -/
def textSizeKeys : List Text := ["text size", "textsize", "text scale", "textscale"]

/-- The keys of a text colour. -/
def textColourKeys : List Text := ["text colour", "text color", "textcolour", "textcolor"]

/-- The keys of the style of an edge label. -/
def labelStyleKeys : List Text := ["label style", "labelstyle"]

/-- The keys of the size of an edge label. -/
def labelSizeKeys : List Text := ["label size", "labelsize"]

end Bracket

end LineDiagram
