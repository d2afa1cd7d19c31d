import LineDiagram.Binary64.Decimal

/-!
# Number texts

Writing numbers: with a fixed number of places, with as few digits as read back,
and in the short form used inside diagrams, which has at most four places and no
zeros at its end.
-/

namespace LineDiagram.Binary64

/-- `m * 2 ^ e` as a fraction. -/
def ratio (m : Nat) (e : Int) : Nat × Nat :=
  if 0 ≤ e then (m * Nat.pow 2 e.toNat, 1) else (m, Nat.pow 2 (-e).toNat)

/-- `m * 2 ^ e` in units of the last of `places` decimal places, rounded to the
nearest. -/
def inPlaces (places m : Nat) (e : Int) : Nat :=
  let (num, den) := ratio m e
  roundDiv (num * Nat.pow 10 places) den

/-- Puts a point before the last `places` digits, with at least one digit in
front of it. -/
def withPoint (places n : Nat) : Text :=
  let digits := Text.ofNat n
  let digits := List.replicate (places + 1 - digits.length) '0' ++ digits
  digits.take (digits.length - places) ++ ['.'] ++ digits.drop (digits.length - places)

/-- A minus sign, if there is one. -/
def signText (negative : Bool) : Text := if negative then ['-'] else []

/-- A number with a fixed number of places, at least one. -/
def fixed (places : Nat) : Binary64 → Text
  | .finite s m e => signText s ++ withPoint places (inPlaces places m e)
  | .infinite s => signText s ++ "inf"
  | .nan => "nan"

/-- A number rounded to a number of decimal places. -/
def roundPlaces (places : Nat) : Binary64 → Binary64
  | .finite s m e => ofDecimal s (inPlaces places m e) (-places)
  | x => x

/-- A number with at most four places and no zeros at its end. -/
def compactText (x : Binary64) : Text :=
  let t := Text.dropEndWhile (· == '.') (Text.dropEndWhile (· == '0') (fixed 4 x))
  if t.isEmpty || t == ("-0" : Text) then ['0'] else t

/-- The `d` for which `num / den` lies from `10 ^ (d - 1)` up to, but not
including, `10 ^ d`. -/
def magnitude (num den : Nat) : Int :=
  if den ≤ num then (Text.ofNat (num / den)).length
  else -(((List.range 400).find? fun z => den ≤ num * Nat.pow 10 (z + 1)).getD 0 : Nat)

/-- The decimal with `count` digits that reads back as `m * 2 ^ e`, as digits
and exponent, if there is one.  The numbers that read back are those nearer to
`m * 2 ^ e` than to its neighbours, and the middles too when the mantissa is
even; the one nearest to it is taken. -/
def decimalOfLength? (count m : Nat) (e : Int) : Option (Nat × Int) :=
  let (num, den) := ratio m e
  let k := magnitude num den - count
  -- In quarters of a unit, `a * 10 ^ k` compares with `x` as `a * unit` with `x * quarter`.
  let unit := Nat.pow 10 k.toNat * Nat.pow 2 (2 - e).toNat
  let quarter := Nat.pow 10 (-k).toNat * Nat.pow 2 (e - 2).toNat
  let low := (if m == Nat.pow 2 52 && minExponent < e then 4 * m - 1 else 4 * m - 2) * quarter
  let high := (4 * m + 2) * quarter
  let readsBack := fun a =>
    if m % 2 == 0 then low ≤ a * unit && a * unit ≤ high else low < a * unit && a * unit < high
  let below := 4 * m * quarter / unit
  let rest := 4 * m * quarter % unit
  let takeBelow := 2 * rest < unit || (2 * rest == unit && below % 2 == 0)
  match readsBack below, readsBack (below + 1) with
  | true, true => some (if takeBelow then below else below + 1, k)
  | true, false => some (below, k)
  | false, true => some (below + 1, k)
  | false, false => none

/-- The digits of the shortest decimal that reads back as `m * 2 ^ e`, without
zeros at their end, and where the point stands: after that many digits. -/
def shortestDigits (m : Nat) (e : Int) : Text × Int :=
  let (digits, exponent) :=
    ((List.range 17).findSome? fun i => decimalOfLength? (i + 1) m e).getD (m, e)
  let text := Text.ofNat digits
  (Text.dropEndWhile (· == '0') text, text.length + exponent)

/-- Digits with the point after `point` of them: in full when the first digit
stands at most 16 places before the point or 4 after it, otherwise with an
exponent of at least two digits. -/
def positional (digits : Text) (point : Int) : Text :=
  if point ≤ 0 && -4 < point then "0." ++ List.replicate (-point).toNat '0' ++ digits
  else if 0 < point && point ≤ 16 then
    let whole := digits.take point.toNat ++ List.replicate (point.toNat - digits.length) '0'
    let fraction := digits.drop point.toNat
    whole ++ "." ++ (if fraction.isEmpty then ['0'] else fraction)
  else
    let exponent := point - 1
    let power := Text.ofNat exponent.natAbs
    let fraction := digits.drop 1
    digits.take 1 ++ (if fraction.isEmpty then [] else ['.'] ++ fraction) ++ "e" ++
      (if exponent < 0 then ['-'] else ['+']) ++ List.replicate (2 - power.length) '0' ++ power

/-- A number with as few digits as read back as the same number. -/
def plainText : Binary64 → Text
  | .finite s m e =>
    if m == 0 then signText s ++ "0.0"
    else
      let (digits, point) := shortestDigits m e
      signText s ++ positional digits point
  | .infinite s => signText s ++ "inf"
  | .nan => "nan"

end LineDiagram.Binary64
