import LineDiagram.Text.Printable

/-!
# Quoted texts

Messages show a text between quotes on one line.  Single quotes are used unless
the text holds a single quote and no double one; the quote, the backslash and
every character that does not print are escaped.
-/

namespace LineDiagram.Text

/-- The lower-case hexadecimal digits of `n`, filled with zeros to `width`
places. -/
def hexDigits (width n : Nat) : Text :=
  let digits := Nat.toDigits 16 n
  List.replicate (width - digits.length) '0' ++ digits

/-- A character as it stands between the quotes. -/
def quoteChar (quote c : Char) : Text :=
  let n := c.toNat
  if c == quote || c == '\\' then ['\\', c]
  else if c == '\n' then ['\\', 'n']
  else if c == '\r' then ['\\', 'r']
  else if c == '\t' then ['\\', 't']
  else if isPrintable c then [c]
  else if n < 0x100 then ['\\', 'x'] ++ hexDigits 2 n
  else if n < 0x10000 then ['\\', 'u'] ++ hexDigits 4 n
  else ['\\', 'U'] ++ hexDigits 8 n

/-- A text between quotes. -/
def quoted (t : Text) : Text :=
  let quote := if t.contains '\'' && !t.contains '"' then '"' else '\''
  [quote] ++ t.flatMap (quoteChar quote) ++ [quote]

end LineDiagram.Text
