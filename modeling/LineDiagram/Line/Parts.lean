import LineDiagram.Line.Comment

/-!
# The parts of a raw line

An editor cuts a raw line into `before[inner]gap#comment`, changes what it has
to and puts the line together again.  Everything else stays as it was written.
-/

namespace LineDiagram

/-- A raw line, cut into pieces. -/
structure LineParts where
  /-- What stands before the bracket. -/
  before : Text
  /-- The inside of the bracket, if the code ends in one. -/
  inner : Option Text
  /-- The blanks between the code and the comment or the end. -/
  gap : Text
  /-- The comment. -/
  comment : Text
deriving DecidableEq, Repr

namespace LineParts

/-- Cuts a raw line. -/
def ofText (raw : Text) : LineParts :=
  let (code, comment) := Comment.split raw
  let body := Text.trimEnd code
  let gap := code.drop body.length
  match Text.cutLast? '[' body with
  | some (before, inside) =>
    match inside.reverse with
    | ']' :: inner => ⟨before, some (Text.trim inner.reverse), gap, comment⟩
    | _ => ⟨body, none, gap, comment⟩
  | none => ⟨body, none, gap, comment⟩

/-- The line with another inside of the bracket, which disappears when it is
blank, and perhaps another text before it. -/
def assemble (parts : LineParts) (inner : Option Text) (before : Option Text := none) : Text :=
  let before := before.getD parts.before
  let inner := Text.trim (inner.getD [])
  let code :=
    if inner.isEmpty then Text.trimEnd before
    else
      (if parts.inner.isNone then Text.trimEnd before ++ " " else before) ++ "[" ++ inner ++ "]"
  if parts.comment.isEmpty then code
  else code ++ (if parts.gap.isEmpty then [' '] else parts.gap) ++ parts.comment

/-- A new text before the bracket, with a blank after it when there is a
bracket. -/
def spaced (parts : LineParts) (before : Text) : Text :=
  if parts.inner.isSome then before ++ " " else before

end LineParts

/-- The length of the first word of a definition up to its first two colons,
which do not open it. -/
def colonsInside? (position : Nat) : Text → Option Nat
  | [] => none
  | c :: rest =>
    if 0 < position && c == ':' && rest.head? == some ':' then some position
    else colonsInside? (position + 1) rest

/-- What stands before the label of a definition: the token, the first two
colons and the blanks around them. -/
def definitionHead? (before : Text) : Option Text :=
  let margin := Text.margin before
  let rest := before.drop margin.length
  let word := rest.takeWhile fun c => !Text.isBlank c
  let after := rest.drop word.length
  let withBlanks := fun (head tail : Text) => some (head ++ Text.margin tail)
  match colonsInside? 0 word with
  | some n => withBlanks (margin ++ rest.take (n + 2)) (rest.drop (n + 2))
  | none =>
    let blanks := Text.margin after
    match after.drop blanks.length with
    | ':' :: ':' :: tail =>
      if word.isEmpty then none else withBlanks (margin ++ word ++ blanks ++ "::") tail
    | _ => none

end LineDiagram
