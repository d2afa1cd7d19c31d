import LineDiagram.Line.Basic

/-!
# Box markers

The number of dashes of a marker is its depth: `--` is a box at the top, `----`
is nested once.  A marker of an odd depth is no marker.  An empty marker,
without label and bracket, is ambiguous: it closes when something of its depth
or deeper is open, and opens a box without a label otherwise.

The scanner is fed the lines in order.  It keeps all openers seen so far and the
stack of those that are open.  The graph and the editors number boxes by this
one scanner, so a box has the same number everywhere.
-/

namespace LineDiagram.Box

/-- A marker that opens a box. -/
structure Opener where
  /-- The number of the box, in opening order. -/
  index : Nat
  /-- Position of the marker among the lines, from zero. -/
  lineIndex : Nat
  /-- Number of dashes. -/
  depth : Nat
  /-- Label of the box. -/
  label : Text
  /-- Inside of the bracket; empty when there is none. -/
  inner : Text
  /-- Comment of the marker. -/
  comment : Text
  /-- The box around this one. -/
  parent : Option Nat
  /-- Position of the empty marker that closes the box, if one does. -/
  closeLine : Option Nat := none
deriving DecidableEq, Repr

/-- The name of a box in drawings and requests. -/
def idOf (index : Nat) : Text := "cluster_" ++ Text.ofNat index

/-- What a line does to the open boxes. -/
inductive Step where
  /-- It opens a box. -/
  | opened
  /-- It closes a box. -/
  | closed
  /-- It is no marker. -/
  | skipped
deriving DecidableEq, Repr

/-- What a scan has seen so far. -/
structure Scanner where
  /-- All openers, in order. -/
  openers : List Opener := []
  /-- The open ones, innermost first. -/
  stack : List Opener := []
deriving DecidableEq, Repr

namespace Scanner

/-- The innermost open box. -/
def current? (s : Scanner) : Option Opener := s.stack.head?

/-- Depth of the innermost open box; zero when none is open. -/
def depth (s : Scanner) : Nat :=
  match s.stack with
  | [] => 0
  | o :: _ => o.depth

/-- Whether an empty marker of some depth closes a box. -/
def closesAt (s : Scanner) (depth : Nat) : Bool :=
  match s.stack with
  | [] => false
  | o :: _ => depth ≤ o.depth

/-- Closes everything of some depth and deeper; a box of that depth has then
been closed by the marker. -/
def close (s : Scanner) (depth lineIndex : Nat) : Scanner :=
  let closed := s.stack.takeWhile fun o => depth ≤ o.depth
  let marked := (closed.filter (·.depth == depth)).map (·.index)
  { openers := s.openers.map fun o =>
      if marked.contains o.index then { o with closeLine := some lineIndex } else o
    stack := s.stack.drop closed.length }

/-- Opens a box inside the innermost one that is at least two dashes
shallower. -/
def openBox (s : Scanner) (lineIndex depth : Nat) (label inner comment : Text) : Scanner :=
  let outer := s.stack.dropWhile fun o => depth < o.depth + 2
  let opener : Opener :=
    { index := s.openers.length, lineIndex, depth, label, inner, comment
      parent := outer.head?.map (·.index) }
  ⟨s.openers ++ [opener], opener :: outer⟩

/-- Takes in a line. -/
def feed (s : Scanner) (lineIndex : Nat) (line : Line) : Step × Scanner :=
  match line.content with
  | .marker depth label bracket =>
    if depth % 2 != 0 then (.skipped, s)
    else if label.isEmpty && bracket.isNone && s.closesAt depth then
      (.closed, s.close depth lineIndex)
    else (.opened, s.openBox lineIndex depth label (Text.trim (bracket.getD [])) line.comment)
  | _ => (.skipped, s)

/-- Takes in lines in order, the first of them at a given position. -/
def feedAll (s : Scanner) (lineIndex : Nat) : List Text → Scanner
  | [] => s
  | raw :: rest => feedAll (s.feed lineIndex (.ofText raw)).2 (lineIndex + 1) rest

/-- What each line does, the first of them at a given position. -/
def steps (s : Scanner) (lineIndex : Nat) : List Text → List Step
  | [] => []
  | raw :: rest =>
    let (step, next) := s.feed lineIndex (.ofText raw)
    step :: steps next (lineIndex + 1) rest

/-- The scan of a document. -/
def scan (lines : List Text) : Scanner := feedAll {} 0 lines

end Scanner

/-- The openers of a document. -/
def openers (lines : List Text) : List Opener := (Scanner.scan lines).openers

/-- The opener of the box with a given name. -/
def find? (lines : List Text) (id : Text) : Option Opener :=
  (openers lines).find? fun o => idOf o.index == id

/-- Depth of the innermost box that is open before a line; zero when none is. -/
def depthBefore (lines : List Text) (lineIndex : Nat) : Nat :=
  (Scanner.scan (lines.take lineIndex)).depth

end LineDiagram.Box
