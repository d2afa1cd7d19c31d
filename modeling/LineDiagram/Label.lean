import LineDiagram.Binary64.Basic
import LineDiagram.Text.Blank
import LineDiagram.Text.Lower

/-!
# Labels

Labels are wrapped at blanks, as many words on a line as fit, and edge labels
may be bold or italic, which the drawing language only knows as names of fonts.
-/

namespace LineDiagram.Label

/-- The font used when none is given. -/
def defaultFont : Text := "Arial"

/-- Whether a line of this many characters is within the limit.  The length is
compared as it is and not rounded to 53 bits first. -/
def fits (limit : Binary64) (length : Nat) : Bool := (Binary64.finite false length 0).le limit

/-- Puts `words` on lines after the line `current`; `done` holds the full lines,
reversed. -/
def fillLines (limit : Binary64) (done : List Text) (current : Text) : List Text → List Text
  | [] => (current :: done).reverse
  | word :: rest =>
    let longer := current ++ [' '] ++ word
    if fits limit longer.length then fillLines limit done longer rest
    else fillLines limit (current :: done) word rest

/-- A label with line breaks, written `\n`, such that no line is longer than the
limit unless it is one word.  Without a finite limit above zero, or without
words, the label stays as it is. -/
def wrap (label : Text) (limit : Option Binary64) : Text :=
  match limit with
  | some limit =>
    if limit.isFinite && limit.isPositive then
      match Text.words label with
      | [] => label
      | word :: rest => Text.join "\\n" (fillLines limit [] word rest)
    else label
  | none => label

/-- The name of a font in a style, which is bold, italic or both when it says
so. -/
def styledFont (font style : Text) : Text :=
  let base := Text.trim font
  let base := if base.isEmpty then defaultFont else base
  let style := Text.lower (Text.trim style)
  if style == ("normal" : Text) || style == ("plain" : Text) then base
  else
    base ++ (if Text.hasPart "bold" style then (" Bold" : Text) else []) ++
      (if Text.hasPart "italic" style then (" Italic" : Text) else [])

end LineDiagram.Label
