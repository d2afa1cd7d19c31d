import LineDiagram.Text.Basic

/-!
# Blanks

A blank is a white-space character of Unicode or one of the four information
separators.  Texts are trimmed at blanks and broken into words at them.
-/

namespace LineDiagram.Text

/-- Whether a character separates words. -/
def isBlank (c : Char) : Bool :=
  let n := c.toNat
  (0x09 ≤ n && n ≤ 0x0D) || (0x1C ≤ n && n ≤ 0x20) || n == 0x85 || n == 0xA0 || n == 0x1680 ||
  (0x2000 ≤ n && n ≤ 0x200A) || n == 0x2028 || n == 0x2029 || n == 0x202F || n == 0x205F ||
  n == 0x3000

/-- Removes the blanks at the start. -/
def trimStart (t : Text) : Text := t.dropWhile isBlank

/-- Removes the blanks at the end. -/
def trimEnd (t : Text) : Text := dropEndWhile isBlank t

/-- Removes the blanks at both ends. -/
def trim (t : Text) : Text := trimEnd (trimStart t)

/-- The blanks a text starts with. -/
def margin (t : Text) : Text := t.takeWhile isBlank

/-- The longest runs of characters that are not blank, in order. -/
def words (t : Text) : List Text := (t.splitOnP isBlank).filter fun w => !w.isEmpty

/-- The parts between separators, trimmed, without the empty ones. -/
def parts (separator : Char) (t : Text) : List Text :=
  ((t.splitOn separator).map trim).filter fun p => !p.isEmpty

end LineDiagram.Text
