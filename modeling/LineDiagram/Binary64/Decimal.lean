import LineDiagram.Binary64.Basic
import LineDiagram.Text.Blank
import LineDiagram.Text.Digit
import LineDiagram.Text.Lower

/-!
# Decimal notation

Reading numbers.  A numeral is a sign, digits with at most one point, and an
exponent of ten; it stands for the number nearest to its exact value.  Settings
also take the numeral that a text starts with, and whole numbers may be written
with single underscores between digits.
-/

namespace LineDiagram

/-- A number in decimal notation: the digits before and after the point, and the
exponent of ten. -/
structure Numeral where
  /-- Whether a minus sign stands in front. -/
  negative : Bool
  /-- The digits before the point. -/
  whole : Text
  /-- The digits after the point. -/
  fraction : Text
  /-- The exponent of ten. -/
  exponent : Int
deriving DecidableEq, Repr

namespace Binary64

/-- The number nearest to `digits * 10 ^ exponent`, with the given sign.
Exponents far outside the range of the format lead to an infinity or to zero at
once. -/
def ofDecimal (negative : Bool) (digits : Nat) (exponent : Int) : Binary64 :=
  let places : Int := (Text.ofNat digits).length
  if digits == 0 || places + exponent < -330 then .finite negative 0 minExponent
  else if 310 < places + exponent then .infinite negative
  else if 0 ≤ exponent then ofRatio negative (digits * Nat.pow 10 exponent.toNat) 1
  else ofRatio negative digits (Nat.pow 10 (-exponent).toNat)

end Binary64

namespace Numeral

/-- The number a numeral stands for. -/
def value (n : Numeral) : Binary64 :=
  Binary64.ofDecimal n.negative (Text.digitsValue (n.whole ++ n.fraction))
    (n.exponent - n.fraction.length)

/-- A sign in front of a text, and the rest. -/
def sign : Text → Bool × Text
  | '+' :: rest => (false, rest)
  | '-' :: rest => (true, rest)
  | t => (false, t)

/-- The exponent that makes up a text, given with its mark; no text is the
exponent zero. -/
def exponent? : Text → Option Int
  | [] => some 0
  | mark :: rest =>
    if mark == 'e' || mark == 'E' then
      let (negative, digits) := sign rest
      if !digits.isEmpty && digits.all Text.isDigit then
        let n : Int := Text.digitsValue digits
        some (if negative then -n else n)
      else none
    else none

/-- The numeral that makes up a text. -/
def ofText? (t : Text) : Option Numeral :=
  let (negative, t) := sign t
  let whole := t.takeWhile Text.isDigit
  let (fraction, rest) :=
    match t.dropWhile Text.isDigit with
    | '.' :: rest => (rest.takeWhile Text.isDigit, rest.dropWhile Text.isDigit)
    | rest => ([], rest)
  if whole.isEmpty && fraction.isEmpty then none
  else (exponent? rest).map fun exponent => ⟨negative, whole, fraction, exponent⟩

/-- The numeral that a text starts with: digits, perhaps after a minus sign, and
a point only when digits follow it. -/
def leading? (t : Text) : Option Numeral :=
  let (negative, t) :=
    match t with
    | '-' :: rest => (true, rest)
    | t => (false, t)
  let whole := t.takeWhile Text.isDigit
  if whole.isEmpty then none
  else
    match t.dropWhile Text.isDigit with
    | '.' :: rest => some ⟨negative, whole, rest.takeWhile Text.isDigit, 0⟩
    | _ => some ⟨negative, whole, [], 0⟩

end Numeral

namespace Text

/-- A finite number that makes up a text, blanks aside. -/
def number? (t : Text) : Option Binary64 :=
  match Numeral.ofText? (trim t) with
  | some n => if n.value.isFinite then some n.value else none
  | none => none

/-- A finite number that a text starts with, blanks aside. -/
def leadingNumber? (t : Text) : Option Binary64 :=
  match Numeral.leading? (trim t) with
  | some n => if n.value.isFinite then some n.value else none
  | none => none

/-- A scale above zero: a number, or a percentage. -/
def scale? (t : Text) : Option Binary64 :=
  match (trim t).reverse with
  | '%' :: before =>
    ((number? before.reverse).filter Binary64.isPositive).map (·.div (Binary64.ofInt 100))
  | _ => (number? t).filter Binary64.isPositive

/-- A text without its underscores, when each of them stands between two
digits. -/
def withoutUnderscores? (t : Text) : Option Text :=
  let neighbours := (t.zip (none :: t.map some)).zip (t.tail.map some ++ [none])
  let isFree := fun (p : (Char × Option Char) × Option Char) =>
    p.1.1 != '_' || (p.1.2.any isDigit && p.2.any isDigit)
  if neighbours.all isFree then some (t.filter (· != '_')) else none

/-- The infinity or `nan` that a text spells, whatever its case. -/
def specialNumber? (t : Text) : Option Binary64 :=
  let (negative, word) := Numeral.sign t
  let word := lower word
  if word == ("inf" : Text) || word == ("infinity" : Text) then some (.infinite negative)
  else if word == ("nan" : Text) then some .nan
  else none

/-- The number that makes up a text, infinities and `nan` included; underscores
may divide digits. -/
def anyNumber? (t : Text) : Option Binary64 :=
  let t := trim t
  match withoutUnderscores? t with
  | none => none
  | some plain =>
    match Numeral.ofText? plain with
    | some n => some n.value
    | none => specialNumber? plain

/-- The integer that makes up a text, blanks aside; underscores may divide
digits. -/
def integer? (t : Text) : Option Int :=
  match withoutUnderscores? (trim t) with
  | none => none
  | some plain =>
    let (negative, digits) := Numeral.sign plain
    if !digits.isEmpty && digits.all isDigit then
      let n : Int := digitsValue digits
      some (if negative then -n else n)
    else none

end Text

end LineDiagram
