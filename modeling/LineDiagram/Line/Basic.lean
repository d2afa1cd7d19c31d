import LineDiagram.Bracket
import LineDiagram.Identifier
import LineDiagram.Line.Comment
import LineDiagram.Settings.Basic

/-!
# Lines

Every line of a diagram's source is blank, a box marker, a settings line, a node
definition, an edge or none of these.  The kind is decided on the code that is
left when the comment is taken away, and the first rule that fits wins:

1. a box marker, two or more dashes and a label;
2. a settings line, a known phrase, a colon and a value;
3. a node definition, an identifier or token, two colons and a label;
4. an edge, a list of sources, an arrow and a list of targets.

Markers, definitions and edges may end in a bracket.  The compiler and the
editors read lines through this one function, so they always agree.
-/

namespace LineDiagram

/-- The phrases that open a settings line, in lower case.  What they set is
another table's business. -/
def settingPhrases : List String := [
  "title",
  "description",
  "background",
  "text colour",
  "text color",
  "default node text colour",
  "default node text color",
  "default group text colour",
  "default group text color",
  "title size",
  "title position",
  "default node colour",
  "default node color",
  "default node shape",
  "default node border",
  "default node shadow",
  "default link colour",
  "default link color",
  "default link style",
  "default link width",
  "direction",
  "label wrap",
  "spacing along",
  "spacing across"]

/-- Whether a text is one of the phrases of settings lines. -/
def isSettingPhrase (t : Text) : Bool := settingPhrases.any fun phrase => phrase.toList == t

/-- What a line says. -/
inductive Content where
  /-- Nothing. -/
  | blank
  /-- Opens or closes a box: the number of dashes, the label, the inside of the
  bracket. -/
  | marker (depth : Nat) (label : Text) (bracket : Option Text)
  /-- Sets a setting: the phrase in lower case, which is one that is known, and
  the value. -/
  | setting (phrase : Text) (known : isSettingPhrase phrase = true) (value : Text)
  /-- Defines a node: its token, its label, the inside of the bracket. -/
  | node (token label : Text) (bracket : Option Text)
  /-- Draws edges: the sources, the targets, the inside of the bracket. -/
  | edge (sources targets : Text) (bracket : Option Text)
  /-- Nothing that is understood. -/
  | unrecognised
deriving DecidableEq, Repr

/-- A line that was read. -/
structure Line where
  /-- The line as it stands in the source. -/
  raw : Text
  /-- The code without its comment. -/
  code : Text
  /-- The comment with its `#`. -/
  comment : Text
  /-- What the line says. -/
  content : Content
deriving DecidableEq, Repr

namespace Line

/-- The value after a colon or an arrow: what follows the blanks, unless it is
empty or goes on on another line. -/
def value? (t : Text) : Option Text :=
  let value := Text.trimStart t
  if value.isEmpty || value.contains '\n' then none else some value

/-- Reads a box marker. -/
def marker? (code : Text) : Option Content :=
  let dashes := code.takeWhile (· == '-')
  let rest := code.dropWhile (· == '-')
  if 2 ≤ dashes.length && !rest.contains '\n' then
    let (label, bracket) := Bracket.splitTrailing (Text.trim rest)
    some (.marker dashes.length (Text.trim label) bracket)
  else none

/-- Whether the text after the colon of a settings line holds a value: a last
line that is not empty, perhaps of blanks only. -/
def hasValue (t : Text) : Bool :=
  let value := Text.trimStart t
  if value.isEmpty then
    match t.reverse with
    | [] => false
    | ['\n'] => false
    | '\n' :: c :: _ => c != '\n'
    | _ => true
  else
    let after := value.dropWhile (· != '\n')
    after.isEmpty || after == ['\n']

/-- The phrase of settings lines that a text is; blanks around it and its case
do not matter. -/
def settingPhrase? (t : Text) : Option { phrase : Text // isSettingPhrase phrase = true } :=
  let phrase := Text.lower (Text.trim t)
  if known : isSettingPhrase phrase = true then some ⟨phrase, known⟩ else none

/-- The phrase and the rest after the colon of a settings line. -/
def settingParts? (code : Text) :
    Option ({ phrase : Text // isSettingPhrase phrase = true } × Text) :=
  if Text.hasPart "->" code || Text.hasPart "::" code then none
  else
    match code.dropWhile (· != ':') with
    | ':' :: rest =>
      if hasValue rest then
        (settingPhrase? (code.takeWhile (· != ':'))).map fun phrase => (phrase, rest)
      else none
    | _ => none

/-- Whether a text is a settings line. -/
def isSetting (code : Text) : Bool := (settingParts? code).isSome

/-- Reads a settings line. -/
def setting? (code : Text) : Option Content :=
  (settingParts? code).map fun (phrase, rest) => .setting phrase.1 phrase.2 (Text.trim rest)

/-- The token and the value of a definition whose two colons stand inside its
first word, at the last place where a value follows.  The first word is given in
two parts, the first one reversed, and `rest` is what follows it. -/
def insideColons? (rest : Text) : (reversed after : Text) → Option (Text × Text)
  | [], _ => none
  | c :: before, after =>
    let found :=
      match after with
      | ':' :: ':' :: more =>
        (value? (more ++ rest)).map fun value => ((c :: before).reverse, value)
      | _ => none
    match found with
    | some parts => some parts
    | none => insideColons? rest before (c :: after)

/-- The token and the value of a definition.  Two colons after the first word
are tried before those inside it. -/
def definitionParts? (code : Text) : Option (Text × Text) :=
  let word := code.takeWhile fun c => !Text.isBlank c
  let rest := code.dropWhile fun c => !Text.isBlank c
  let afterWord :=
    match Text.trimStart rest with
    | ':' :: ':' :: more => (value? more).map fun value => (word, value)
    | _ => none
  if word.isEmpty then none
  else
    match afterWord with
    | some parts => some parts
    | none => insideColons? rest word.reverse []

/-- Reads a node definition. -/
def node? (code : Text) : Option Content :=
  (definitionParts? code).map fun (token, value) =>
    let (label, bracket) := Bracket.splitTrailing (Text.trim value)
    .node (Text.trim token) (Text.trim label) bracket

/-- The two sides of the first arrow in `rest` that has text before it on one
line and a value after it; `before` is what precedes `rest`, reversed. -/
def arrowParts? (before : Text) : Text → Option (Text × Text)
  | [] => none
  | c :: rest =>
    let head := Text.trimStart before
    let found :=
      match c, rest with
      | '-', '>' :: more =>
        if head.isEmpty || head.contains '\n' then none
        else (value? more).map fun value => (head.reverse, value)
      | _, _ => none
    match found with
    | some parts => some parts
    | none => arrowParts? (c :: before) rest

/-- Reads an edge. -/
def edge? (code : Text) : Option Content :=
  (arrowParts? [] code).map fun (sources, value) =>
    let (targets, bracket) := Bracket.splitTrailing (Text.trim value)
    .edge (Text.trim sources) (Text.trim targets) bracket

/-- What code says; the first rule that fits wins. -/
def contentOf (code : Text) : Content :=
  if code.isEmpty then .blank
  else
    (marker? code <|> setting? code <|> node? code <|> edge? code).getD .unrecognised

/-- Reads a line. -/
def ofText (raw : Text) : Line :=
  let code := Comment.strip raw
  ⟨raw, code, (Comment.split raw).2, contentOf code⟩

/-- What a raw line says. -/
def contentOfRaw (raw : Text) : Content := contentOf (Comment.strip raw)

/-- The identifier of the node that a line defines. -/
def definedNode? (line : Line) : Option Text :=
  match line.content with
  | .node token _ _ => some (Identifier.ofToken token)
  | _ => none

end Line

end LineDiagram
