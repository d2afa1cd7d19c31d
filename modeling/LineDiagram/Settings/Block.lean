import LineDiagram.Document
import LineDiagram.Line.Basic

/-!
# The settings block

A document usually opens with a block of comments, blank lines and settings
lines, up to the first line of another kind.  Writing settings replaces all
settings lines of the document by lines in that block; comments and blank lines
of the block stay.
-/

namespace LineDiagram

/-- How the value of a setting is written. -/
inductive SettingForm where
  /-- As a text. -/
  | text (s : TextSetting)
  /-- As a colour. -/
  | colour (s : TextSetting)
  /-- As a whole number. -/
  | number (s : NumberSetting)

/-- The settings lines in the order in which they are written. -/
def settingLines : List (String × SettingForm) := [
  ("Title", .text .title),
  ("Description", .text .description),
  ("Background", .colour .background),
  ("Text colour", .colour .textColour),
  ("Default node text colour", .colour .nodeTextColour),
  ("Default group text colour", .colour .boxTextColour),
  ("Title size", .number .titleSize),
  ("Title position", .text .titlePosition),
  ("Default node colour", .colour .nodeColour),
  ("Default node shape", .text .nodeShape),
  ("Default node shadow", .text .nodeShadow),
  ("Default node border", .text .nodeBorder),
  ("Default link colour", .colour .linkColour),
  ("Default link style", .text .linkStyle),
  ("Default link width", .number .linkWidth),
  ("Direction", .text .direction),
  ("Label wrap", .number .labelWrap),
  ("Spacing along", .number .spacingAlong),
  ("Spacing across", .number .spacingAcross)]

namespace Settings

/-- The value of a setting as it is written, if it is set. -/
def written (settings : Settings) : SettingForm → Except RoundingFault (Option Text)
  | .text s =>
    .ok (((settings.text s).filter fun t => !t.isEmpty).map fun t => Comment.escape (Text.trim t))
  | .colour s => .ok (((settings.text s).filter fun t => !t.isEmpty).map Colour.sourceToken)
  | .number s =>
    match settings.number s with
    | none => .ok none
    | some n =>
      match n.toBinary64.roundHalfUp with
      | .ok n => .ok (some (Text.ofInt n))
      | .error e => .error e

/-- The settings as lines; what is unset has no line. -/
def toLines (settings : Settings) : Except RoundingFault (List Text) := do
  let lines ← settingLines.mapM fun (name, form) => do
    let value ← settings.written form
    return value.map fun v => name.toList ++ ": " ++ v
  return lines.filterMap fun line => line

end Settings

namespace SettingsBlock

/-- Whether a raw line sets a setting. -/
def isSetting (raw : Text) : Bool :=
  let trimmed := Text.trim raw
  trimmed.head?.isSome && trimmed.head? != some '#' && Line.isSetting trimmed

/-- Whether a line may stand in the block. -/
def belongs (raw : Text) : Bool :=
  let trimmed := Text.trim raw
  trimmed.isEmpty || trimmed.head? == some '#' || isSetting raw

/-- The block of a document and the rest of it. -/
def split (t : Text) : Text × Text :=
  let lines := Document.split t
  (Text.trimEnd (Document.join (lines.takeWhile belongs)),
   Text.trimStart (Document.join (lines.dropWhile belongs)))

/-- The lines of a text without its settings lines; the empty text has none. -/
def otherLines (t : Text) : List Text :=
  if t.isEmpty then [] else (t.splitOn '\n').filter fun l => !isSetting l

/-- The document with its settings lines replaced by the given ones. -/
def replaceLines (t : Text) (newLines : List Text) : Text :=
  let (block, contents) := split t
  let kept := Document.dropBlankEnd (otherLines block)
  let contents := Text.trimStart (Document.join (otherLines contents))
  let divider : List Text := if kept.isEmpty || newLines.isEmpty then [] else [[]]
  let block := Text.trimEnd (Document.join (kept ++ divider ++ newLines))
  if block.isEmpty then contents
  else Text.trimEnd (block ++ "\n\n" ++ contents) ++ "\n"

/-- The document with its settings replaced; refused when a number has no whole
number near it. -/
def replace (t : Text) (settings : Settings) : Except RoundingFault Text :=
  match settings.toLines with
  | .ok lines => .ok (replaceLines t lines)
  | .error e => .error e

end SettingsBlock

end LineDiagram
