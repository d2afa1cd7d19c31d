import LineDiagram.Colour.Basic
import LineDiagram.Value.Basic

/-!
# Settings

A diagram has settings: 14 texts and 5 numbers, each of which may be unset.  A
settings line names one of them by a phrase; colours may be spelled either way.
`TextSetting.read` and `NumberSetting.read` say what a written value means, and
a value that means nothing leaves the setting unset.
-/

namespace LineDiagram

/-- The settings that are texts. -/
inductive TextSetting where
  /-- Title of the diagram. -/
  | title
  /-- Description; not drawn. -/
  | description
  /-- Background colour. -/
  | background
  /-- Colour of title and edge labels. -/
  | textColour
  /-- Colour of node labels. -/
  | nodeTextColour
  /-- Colour of box labels. -/
  | boxTextColour
  /-- Where the title stands. -/
  | titlePosition
  /-- Fill of nodes without one. -/
  | nodeColour
  /-- Shape of nodes. -/
  | nodeShape
  /-- Border of nodes. -/
  | nodeBorder
  /-- Shadow of nodes; not drawn. -/
  | nodeShadow
  /-- Colour of edges. -/
  | linkColour
  /-- Line style of edges. -/
  | linkStyle
  /-- Which way the diagram runs. -/
  | direction
deriving DecidableEq, Repr

/-- The settings that are numbers. -/
inductive NumberSetting where
  /-- Size of the title. -/
  | titleSize
  /-- Line width of edges. -/
  | linkWidth
  /-- Longest line of a node label. -/
  | labelWrap
  /-- Distance between ranks. -/
  | spacingAlong
  /-- Distance between nodes of a rank. -/
  | spacingAcross
deriving DecidableEq, Repr

/-- A setting of either kind. -/
inductive Setting where
  /-- A text. -/
  | text (s : TextSetting)
  /-- A number. -/
  | number (s : NumberSetting)
deriving DecidableEq, Repr

/-- The settings of a diagram; what is unset is `none`. -/
structure Settings where
  /-- The texts. -/
  text : TextSetting → Option Text := fun _ => none
  /-- The numbers. -/
  number : NumberSetting → Option Number := fun _ => none

instance : Inhabited Settings := ⟨{}⟩

namespace Settings

/-- Sets or clears a text. -/
def setText (settings : Settings) (s : TextSetting) (value : Option Text) : Settings :=
  { settings with text := fun other => if other = s then value else settings.text other }

/-- Sets or clears a number. -/
def setNumber (settings : Settings) (s : NumberSetting) (value : Option Number) : Settings :=
  { settings with number := fun other => if other = s then value else settings.number other }

end Settings

/-- What each phrase sets: a field of the settings, which also says how a value
is read. -/
def settingTargets : List (String × Setting) := [
  ("title", .text .title),
  ("description", .text .description),
  ("background", .text .background),
  ("text colour", .text .textColour),
  ("text color", .text .textColour),
  ("default node text colour", .text .nodeTextColour),
  ("default node text color", .text .nodeTextColour),
  ("default group text colour", .text .boxTextColour),
  ("default group text color", .text .boxTextColour),
  ("title size", .number .titleSize),
  ("title position", .text .titlePosition),
  ("default node colour", .text .nodeColour),
  ("default node color", .text .nodeColour),
  ("default node shape", .text .nodeShape),
  ("default node border", .text .nodeBorder),
  ("default node shadow", .text .nodeShadow),
  ("default link colour", .text .linkColour),
  ("default link color", .text .linkColour),
  ("default link style", .text .linkStyle),
  ("default link width", .number .linkWidth),
  ("direction", .text .direction),
  ("label wrap", .number .labelWrap),
  ("spacing along", .number .spacingAlong),
  ("spacing across", .number .spacingAcross)]

/-- The setting that a phrase names, as it stands in the table. -/
def Setting.ofKey? (phrase : Text) : Option Setting :=
  (settingTargets.find? fun entry => entry.1.toList == phrase).map (·.2)

/-- A word without blanks, underscores and hyphens, in lower case. -/
def compactWord (t : Text) : Text :=
  (Text.lower (Text.trim t)).filter fun c => !(Text.isBlank c || c == '_' || c == '-')

/-- The ways a diagram can run. -/
def directionWords : List (String × String) := [
  ("tb", "TB"), ("topbottom", "TB"), ("toptobottom", "TB"),
  ("bt", "BT"), ("bottomtop", "BT"), ("bottomtotop", "BT"),
  ("lr", "LR"), ("leftright", "LR"), ("lefttoright", "LR"),
  ("rl", "RL"), ("rightleft", "RL"), ("righttoleft", "RL")]

/-- The places of a title; a side alone is at the bottom. -/
def titlePositionWords : List (String × String) := [
  ("topleft", "top-left"), ("topcenter", "top-centre"), ("topcentre", "top-centre"),
  ("topright", "top-right"), ("bottomleft", "bottom-left"), ("bottomcenter", "bottom-centre"),
  ("bottomcentre", "bottom-centre"), ("bottomright", "bottom-right"), ("left", "bottom-left"),
  ("center", "bottom-centre"), ("centre", "bottom-centre"), ("right", "bottom-right"),
  ("top", "top-centre"), ("bottom", "bottom-centre")]

/-- What a compacted word means in a list of words. -/
def meaning? (words : List (String × String)) (t : Text) : Option Text :=
  (words.find? fun entry => entry.1.toList == compactWord t).map (·.2.toList)

/-- The direction that a text names. -/
def direction? (t : Text) : Option Text := meaning? directionWords t

/-- The title position that a text names. -/
def titlePosition? (t : Text) : Option Text := meaning? titlePositionWords t

/-- The vertical and the horizontal place of a title in the drawing language; at
the bottom left when the text names no position. -/
def titlePlace (t : Text) : Text × Text :=
  let position := (titlePosition? t).getD "bottom-left"
  (if Text.dropStart? "top" position |>.isSome then "t" else "b",
   if Text.endsWith "left" position then "l"
   else if Text.endsWith "right" position then "r"
   else "c")

/-- What a written value means for a text setting. -/
def TextSetting.read (s : TextSetting) (value : Text) : Option Text :=
  match s with
  | .title | .description | .nodeBorder | .nodeShadow => some (Text.trim value)
  | .background | .textColour | .nodeTextColour | .boxTextColour | .nodeColour | .linkColour =>
    some (Colour.normalize value)
  | .nodeShape | .linkStyle => some (Text.lower (Text.trim value))
  | .titlePosition => titlePosition? value
  | .direction => direction? value

/-- What a written value means for a number setting: the number it starts
with. -/
def NumberSetting.read (_ : NumberSetting) (value : Text) : Option Number :=
  (Text.leadingNumber? value).map .real

/-- Applies a settings line. -/
def Settings.assign (settings : Settings) (s : Setting) (value : Text) : Settings :=
  match s with
  | .text s => settings.setText s (s.read value)
  | .number s => settings.setNumber s (s.read value)

/-- The name of each setting in a record, in the order of records. -/
def settingNames : List (String × Setting) := [
  ("title", .text .title),
  ("description", .text .description),
  ("background", .text .background),
  ("text_colour", .text .textColour),
  ("default_node_text_colour", .text .nodeTextColour),
  ("default_group_text_colour", .text .boxTextColour),
  ("title_size", .number .titleSize),
  ("title_position", .text .titlePosition),
  ("default_node_colour", .text .nodeColour),
  ("default_node_shape", .text .nodeShape),
  ("default_node_border", .text .nodeBorder),
  ("default_node_shadow", .text .nodeShadow),
  ("default_link_colour", .text .linkColour),
  ("default_link_style", .text .linkStyle),
  ("default_link_width", .number .linkWidth),
  ("direction", .text .direction),
  ("label_wrap", .number .labelWrap),
  ("spacing_along", .number .spacingAlong),
  ("spacing_across", .number .spacingAcross)]

/-- The settings as a record with every name. -/
def Settings.toValue (settings : Settings) : Value :=
  .ofFields (settingNames.map fun entry =>
    (entry.1,
      match entry.2 with
      | .text s => .ofText? (settings.text s)
      | .number s => .ofNumber? (settings.number s)))

/-- The settings that a record gives; names it does not hold, and values of
another kind, are unset. -/
def Settings.ofValue (v : Value) : Settings :=
  settingNames.foldl (fun settings entry =>
    match entry.2, v.field? entry.1 with
    | .text s, some (.text t) => settings.setText s (some t)
    | .number s, some (.whole n) => settings.setNumber s (some (.whole n))
    | .number s, some (.real x) => settings.setNumber s (some (.real x))
    | _, _ => settings) {}

end LineDiagram
