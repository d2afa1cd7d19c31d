import LineDiagram.Graph.Basic

/-!
# Elements of a drawing

Every node and edge of a drawing carries an identifier that the picture keeps,
so that a clicked element can be traced back to the source.  Identifiers of
elements are made of letters, digits, underscores and hyphens only; other
characters of a node identifier are lost.
-/

namespace LineDiagram

/-- What an element of a drawing stands for. -/
inductive Element where
  /-- A node, by its token. -/
  | node (token : Text)
  /-- An edge, by its line and the tokens of its ends. -/
  | edge (line : Nat) (source target : Text)
deriving DecidableEq, Repr

namespace Element

/-- A text with every run of characters other than letters and digits of ASCII
as one underscore. -/
def tokenOf (t : Text) : Text :=
  Text.underscoreRuns (fun c => Text.isAsciiLetter c || Text.isAsciiDigit c) t

/-- What the identifier of a node starts with. -/
def nodeMark : Text := "ms_n_"

/-- What the identifier of an edge starts with. -/
def edgeMark : Text := "ms_e_"

/-- The identifier of the element. -/
def id : Element → Text
  | .node token => nodeMark ++ token
  | .edge line source target => edgeMark ++ Text.ofNat line ++ "--" ++ source ++ "--" ++ target

/-- The element of a node. -/
def ofNodeId (id : Text) : Element := .node (tokenOf id)

/-- The element of an edge. -/
def ofEdge (e : Edge) : Element := .edge e.line (tokenOf e.source) (tokenOf e.target)

/-- Reads the two tokens of an edge, each after two hyphens. -/
def tokens? (t : Text) : Option (Text × Text) :=
  match t with
  | '-' :: '-' :: rest =>
    match rest.dropWhile Text.isWordChar with
    | '-' :: '-' :: target =>
      if target.all Text.isWordChar then some (rest.takeWhile Text.isWordChar, target) else none
    | _ => none
  | _ => none

/-- The element that an identifier stands for, if any. -/
def ofId? (id : Text) : Option Element :=
  let id := Text.trim id
  match Text.dropStart? nodeMark id with
  | some token => some (.node token)
  | none =>
    match Text.dropStart? edgeMark id with
    | some rest =>
      let digits := rest.takeWhile Text.isDigit
      if digits.isEmpty then none
      else
        (tokens? (rest.dropWhile Text.isDigit)).map fun (source, target) =>
          .edge (Text.digitsValue digits) source target
    | none => none

end Element

end LineDiagram
