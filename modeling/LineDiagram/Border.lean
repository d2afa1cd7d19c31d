import LineDiagram.Colour.Basic

/-!
# Borders

A border has a width, a line style and a colour, each of which may be missing.
Boxes and nodes take a border in full, `WIDTH[px] STYLE [COLOUR]`; on an edge
any part of it may stand alone, and a word counts as a colour only if it names
one.
-/

namespace LineDiagram

/-- Any of width, style and colour. -/
structure Border where
  /-- Width in points. -/
  width : Option Int := none
  /-- Line style. -/
  style : Option Text := none
  /-- Colour. -/
  colour : Option Text := none
deriving DecidableEq, Repr

namespace Border

/-- The line styles. -/
def lineStyles : List Text := ["solid", "dotted", "dashed", "bold"]

/-- Whether nothing is set. -/
def isEmpty (b : Border) : Bool := b.width.isNone && b.style.isNone && b.colour.isNone

/-- Fills what is missing in the first border from the second. -/
def orElse (a b : Border) : Border :=
  ⟨a.width.orElse fun _ => b.width, a.style.orElse fun _ => b.style,
    a.colour.orElse fun _ => b.colour⟩

/-- A width: digits, perhaps followed by `px`.  Any number of digits is read
here; the modelled program stops with an error at more than 4300 of them. -/
def width? (word : Text) : Option Int :=
  let digits := word.takeWhile Text.isDigit
  let unit := word.dropWhile Text.isDigit
  if digits.isEmpty then none
  else
    match Text.splitWordAnyCase? "px" unit with
    | some (_, rest) => if rest.isEmpty then some (Text.digitsValue digits) else none
    | none => if unit.isEmpty then some (Text.digitsValue digits) else none

/-- A border in full; every other text is the empty border. -/
def ofText (t : Text) : Border :=
  match Text.words t with
  | width :: style :: colour =>
    match width? width with
    | some w =>
      let style := Text.lower style
      if lineStyles.contains style then
        let colour := Text.trim (Text.join " " colour)
        { width := some w, style := some style,
          colour := if colour.isEmpty then none else some (Colour.normalize colour) }
      else {}
    | none => {}
  | _ => {}

/-- A word that names a colour, in the form used for drawing. -/
def colour? (word : Text) : Option Text :=
  if (Colour.resolve? word).isSome then some (Colour.normalize word) else none

/-- The style and the rest of a text that starts with a line style, whatever its
case, and blanks.  The rest is on one line. -/
def styleAndRest? (t : Text) : Option (Text × Text) :=
  lineStyles.findSome? fun style =>
    match Text.splitWordAnyCase? style t with
    | some (written, rest) =>
      let after := Text.trimStart rest
      if rest.length != after.length && !after.isEmpty && !after.contains '\n' then
        some (Text.lower written, Text.trim after)
      else none
    | none => none

/-- Any part of a border. -/
def ofPart (t : Text) : Border :=
  let part := Text.trim t
  let full := ofText part
  if !full.isEmpty then full
  else
    match width? part with
    | some w => { width := some w }
    | none =>
      if lineStyles.contains (Text.lower part) then { style := some (Text.lower part) }
      else
        match styleAndRest? part with
        | some (style, rest) => { style := some style, colour := colour? rest }
        | none => { colour := colour? part }

/-- Several parts of a border; the first that sets something decides it. -/
def ofParts (parts : List Text) : Border :=
  parts.foldl (fun found part => found.orElse (ofPart part)) {}

/-- Whether a text is any part of a border. -/
def isPart (t : Text) : Bool := !(ofPart t).isEmpty

end Border

end LineDiagram
