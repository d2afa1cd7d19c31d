/-!
# Texts

A text is a list of characters.  Every law about texts is then a law about
lists, and lengths count characters.  String literals stand for the list of
their characters.

The functions here know nothing of blanks or letters: they cut, join and search.
-/

namespace LineDiagram

/-- A text is the list of its characters. -/
abbrev Text := List Char

/-- A string literal stands for its characters. -/
instance : Coe String Text := ⟨String.toList⟩

namespace Text

/-- Removes the characters at the end for which `p` holds. -/
def dropEndWhile (p : Char → Bool) (t : Text) : Text := (t.reverse.dropWhile p).reverse

/-- What follows `start` in a text that begins with it. -/
def dropStart? (start t : Text) : Option Text :=
  if start.isPrefixOf t then some (t.drop start.length) else none

/-- Whether `t` ends with `last`. -/
def endsWith (last t : Text) : Bool := last.isSuffixOf t

/-- Whether `part` occurs in a text. -/
def hasPart (part : Text) : Text → Bool
  | [] => part.isEmpty
  | c :: rest => part.isPrefixOf (c :: rest) || hasPart part rest

/-- Joins texts with a separator between neighbours. -/
def join (separator : Text) (parts : List Text) : Text := separator.intercalate parts

/-- Cuts a text at the first character for which `p` holds; that character opens
the second part. -/
def cut (p : Char → Bool) (t : Text) : Text × Text :=
  (t.takeWhile fun c => !p c, t.dropWhile fun c => !p c)

/-- Cuts a text at the last character `c`: what stands before it and what stands
after it. -/
def cutLast? (c : Char) (t : Text) : Option (Text × Text) :=
  match t.reverse.dropWhile (· != c) with
  | [] => none
  | _ :: before => some (before.reverse, (t.reverse.takeWhile (· != c)).reverse)

/-- Writes each longest run of characters that are not kept as one
underscore. -/
def underscoreRuns (keep : Char → Bool) (t : Text) : Text :=
  t.foldr (fun c done =>
    if keep c then c :: done
    else if done.head? == some '_' then done
    else '_' :: done) []

/-- A lower-case or upper-case letter of ASCII. -/
def isAsciiLetter (c : Char) : Bool := ('a' ≤ c && c ≤ 'z') || ('A' ≤ c && c ≤ 'Z')

/-- A digit of ASCII. -/
def isAsciiDigit (c : Char) : Bool := '0' ≤ c && c ≤ '9'

/-- A letter or digit of ASCII, or the underscore. -/
def isWordChar (c : Char) : Bool := isAsciiLetter c || isAsciiDigit c || c == '_'

/-- A character that ends a line or opens, closes or divides a bracket. -/
def isBracketBreaker (c : Char) : Bool :=
  c == '|' || c == '[' || c == ']' || c == '\r' || c == '\n'

/-- The decimal digits of a natural number. -/
def ofNat (n : Nat) : Text := Nat.toDigits 10 n

/-- The decimal digits of an integer, with a sign when it is negative. -/
def ofInt : Int → Text
  | .ofNat n => ofNat n
  | .negSucc n => '-' :: ofNat (n + 1)

end Text

end LineDiagram
