import LineDiagram.Text.Blank

/-!
# Comments

A `#` opens a comment unless a backslash stands right before it; `\#` is a plain
`#`.  Text that is written into a line is escaped so that it holds no comment.
-/

namespace LineDiagram.Comment

/-- Cuts `rest`, which follows `before` reversed, where its comment opens. -/
def splitFrom (before : Text) : Text → Text × Text
  | [] => (before.reverse, [])
  | c :: rest =>
    if c == '#' && before.head? != some '\\' then (before.reverse, c :: rest)
    else splitFrom (c :: before) rest

/-- The code of a line and its comment, which keeps its `#`. -/
def split (raw : Text) : Text × Text := splitFrom [] raw

/-- Replaces each `\#` by `#`; `done` holds the result so far, reversed. -/
def unescapeFrom (done : Text) : Text → Text
  | [] => done.reverse
  | '\\' :: '#' :: rest => unescapeFrom ('#' :: done) rest
  | c :: rest => unescapeFrom (c :: done) rest

/-- The text with every `\#` replaced by `#`. -/
def unescape (t : Text) : Text := unescapeFrom [] t

/-- The code of a line without its comment, unescaped and trimmed. -/
def strip (raw : Text) : Text := Text.trim (unescape (split raw).1)

/-- Escapes `rest`, which follows the character `last`; `done` holds the result
so far, reversed. -/
def escapeFrom (last : Option Char) (done : Text) : Text → Text
  | [] => done.reverse
  | c :: rest =>
    if c == '#' && last != some '\\' then escapeFrom (some c) ('#' :: '\\' :: done) rest
    else escapeFrom (some c) (c :: done) rest

/-- The text with a backslash before every `#` that has none. -/
def escape (t : Text) : Text := escapeFrom none [] t

end LineDiagram.Comment
