import LineDiagram.Text.Blank
import LineDiagram.Text.Lower

/-!
# Identifiers

A node is addressed by an identifier: an ASCII letter followed by letters,
digits and underscores.  A token that is not one stands for the slug made of it,
so that any text can name a node.
-/

namespace LineDiagram.Identifier

/-- Whether a token, blanks aside, is an identifier. -/
def isBare (token : Text) : Bool :=
  match Text.trim token with
  | c :: rest => Text.isAsciiLetter c && rest.all Text.isWordChar
  | [] => false

/-- A lower-case letter or digit of ASCII. -/
def isSlugChar (c : Char) : Bool := ('a' ≤ c && c ≤ 'z') || Text.isAsciiDigit c

/-- The longest slug and the longest start of a fresh identifier. -/
def maxLength : Nat := 40

/-- The slug of a text: its lower-case letters and digits, with one underscore
between runs of them, cut after 40 characters.  A text without any has the slug
`node`. -/
def slug (t : Text) : Text :=
  let runs := Text.underscoreRuns isSlugChar (Text.lower (Text.trim t))
  let trimmed := Text.dropEndWhile (· == '_') (runs.dropWhile (· == '_'))
  let cut := trimmed.take maxLength
  if cut.isEmpty then "node" else cut

/-- The identifier that a token stands for. -/
def ofToken (token : Text) : Text :=
  let token := Text.trim token
  if isBare token then token else slug token

/-- The first of `base_n`, `base_(n+1)`, … that is not taken, among as many as
there are taken identifiers and one more. -/
def freshFrom (base : Text) (taken : List Text) : (tries n : Nat) → Text
  | 0, n => base ++ "_" ++ Text.ofNat n
  | tries + 1, n =>
    let candidate := base ++ "_" ++ Text.ofNat n
    if taken.contains candidate then freshFrom base taken tries (n + 1) else candidate

/-- An identifier made of a label that is not taken: `N_` and the slug of the
label, with `_2`, `_3`, … added when that is taken. -/
def fresh (label : Text) (taken : List Text) : Text :=
  let base := ("N_" ++ slug label).take maxLength
  if taken.contains base then freshFrom base taken taken.length 2 else base

/-- Fresh identifiers for several labels, each of them taken from then on. -/
def freshAll (taken : List Text) : List Text → List Text
  | [] => []
  | label :: rest =>
    let id := fresh label taken
    id :: freshAll (taken ++ [id]) rest

end LineDiagram.Identifier
