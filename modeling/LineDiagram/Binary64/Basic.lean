/-!
# Binary64 numbers

Sizes, channels and widths are binary64 numbers.  A finite one is held as a
sign, a mantissa and an exponent of two, so that what happens to it can be said
in whole numbers: every operation computes the exact result as a fraction and
rounds it once, to the nearest number, a tie going to the even mantissa.

* `Binary64.ofRatio` is that one rounding step.
* `Binary64.floor` and `Binary64.roundHalfUp` lead back to the integers; only
  numbers that are not finite have no floor.
-/

namespace LineDiagram

/-- A binary64 number.  The value of `finite s m e` is `m * 2 ^ e`, negated when
`s` holds. -/
inductive Binary64 where
  /-- A number with a value. -/
  | finite (negative : Bool) (mantissa : Nat) (exponent : Int)
  /-- An infinity. -/
  | infinite (negative : Bool)
  /-- The result of an operation that has none. -/
  | nan
deriving DecidableEq, Repr, Inhabited

/-- Why a number has no nearest integer. -/
inductive RoundingFault where
  /-- It is no number. -/
  | notANumber
  /-- It is an infinity. -/
  | infinite
deriving DecidableEq, Repr

/-- The wording of a fault. -/
def RoundingFault.message : RoundingFault → String
  | .notANumber => "cannot convert float NaN to integer"
  | .infinite => "cannot convert float infinity to integer"

/-- The integer nearest to `num / den`, a tie going to the even one. -/
def roundDiv (num den : Nat) : Nat :=
  let q := num / den
  let r := num % den
  if 2 * r < den || (2 * r == den && q % 2 == 0) then q else q + 1

namespace Binary64

/-- The exponent of the smallest numbers. -/
def minExponent : Int := -1074

/-- The greatest exponent. -/
def maxExponent : Int := 971

/-- Mantissas stay below this. -/
def mantissaLimit : Nat := Nat.pow 2 53

/-- `num / den` in units of `2 ^ e`, as a fraction. -/
def inUnits (num den : Nat) (e : Int) : Nat × Nat :=
  if 0 ≤ e then (num, den * Nat.pow 2 e.toNat) else (num * Nat.pow 2 (-e).toNat, den)

/-- The exponent at which `num / den` has a mantissa of 53 bits, or the least
one. -/
def exponentOf (num den : Nat) : Int :=
  let e := max ((Nat.log2 num : Int) - (Nat.log2 den : Int) - 53) minExponent
  let (n, d) := inUnits num den e
  if mantissaLimit ≤ n / d then e + 1 else e

/-- The number nearest to `num / den`, with the given sign. -/
def ofRatio (negative : Bool) (num den : Nat) : Binary64 :=
  if num == 0 then .finite negative 0 minExponent
  else
    let e := exponentOf num den
    let (n, d) := inUnits num den e
    let m := roundDiv n d
    let (m, e) := if m == mantissaLimit then (Nat.pow 2 52, e + 1) else (m, e)
    if maxExponent < e then .infinite negative else .finite negative m e

/-- The number nearest to `m * 2 ^ e`, with the given sign. -/
def ofDyadic (negative : Bool) (m : Nat) (e : Int) : Binary64 :=
  if 0 ≤ e then ofRatio negative (m * Nat.pow 2 e.toNat) 1
  else ofRatio negative m (Nat.pow 2 (-e).toNat)

/-- The number nearest to `n * 2 ^ e`; a zero takes the sign `zeroNegative`. -/
def ofScaled (zeroNegative : Bool) (n : Int) (e : Int) : Binary64 :=
  if n == 0 then .finite zeroNegative 0 minExponent else ofDyadic (n < 0) n.natAbs e

/-- The number nearest to an integer. -/
def ofInt (n : Int) : Binary64 := ofRatio (n < 0) n.natAbs 1

/-- A mantissa with its sign, in units of `2 ^ k`, where `k` is at most the
exponent. -/
def signedAt (negative : Bool) (m : Nat) (e k : Int) : Int :=
  let n := m * Nat.pow 2 (e - k).toNat
  if negative then -(n : Int) else n

/-- Whether a number has a value. -/
def isFinite : Binary64 → Bool
  | .finite _ _ _ => true
  | _ => false

/-- The number with the opposite sign. -/
def neg : Binary64 → Binary64
  | .finite s m e => .finite (!s) m e
  | .infinite s => .infinite (!s)
  | .nan => .nan

/-- The sum of two numbers.  A number and its opposite add up to the positive
zero. -/
def add : Binary64 → Binary64 → Binary64
  | .finite s m e, .finite s' m' e' =>
    let k := min e e'
    ofScaled (s && s') (signedAt s m e k + signedAt s' m' e' k) k
  | .infinite s, .infinite s' => if s == s' then .infinite s else .nan
  | .infinite s, .finite _ _ _ => .infinite s
  | .finite _ _ _, .infinite s => .infinite s
  | _, _ => .nan

/-- The difference of two numbers. -/
def sub (x y : Binary64) : Binary64 := add x (neg y)

/-- The product of two numbers. -/
def mul : Binary64 → Binary64 → Binary64
  | .finite s m e, .finite s' m' e' => ofDyadic (s != s') (m * m') (e + e')
  | .infinite s, .infinite s' => .infinite (s != s')
  | .infinite s, .finite s' m _ => if m == 0 then .nan else .infinite (s != s')
  | .finite s m _, .infinite s' => if m == 0 then .nan else .infinite (s != s')
  | _, _ => .nan

/-- The quotient of two numbers. -/
def div : Binary64 → Binary64 → Binary64
  | .finite s m e, .finite s' m' e' =>
    if m' == 0 then if m == 0 then .nan else .infinite (s != s')
    else
      let (n, d) := inUnits m m' (e' - e)
      ofRatio (s != s') n d
  | .infinite s, .finite s' _ _ => .infinite (s != s')
  | .finite s _ _, .infinite s' => .finite (s != s') 0 minExponent
  | _, _ => .nan

/-- What is left of `x` when as many `y` as possible are taken away; it has the
sign of `y`.  There is no such number unless both are finite and `y` is not
zero. -/
def mod : Binary64 → Binary64 → Binary64
  | .finite s m e, .finite s' m' e' =>
    if m' == 0 then .nan
    else
      let k := min e e'
      let b := signedAt s' m' e' k
      let r := (signedAt s m e k).tmod b
      if r == 0 then .finite s' 0 minExponent
      else if decide (r < 0) == decide (b < 0) then ofScaled false r k
      else add (ofScaled false r k) (.finite s' m' e')
  | _, _ => .nan

/-- How two numbers compare; `nan` compares with nothing. -/
def compare? : Binary64 → Binary64 → Option Ordering
  | .finite s m e, .finite s' m' e' =>
    let k := min e e'
    some (compare (signedAt s m e k) (signedAt s' m' e' k))
  | .infinite s, .infinite s' =>
    some (if s == s' then .eq else if s then .lt else .gt)
  | .infinite s, .finite _ _ _ => some (if s then .lt else .gt)
  | .finite _ _ _, .infinite s => some (if s then .gt else .lt)
  | _, _ => none

/-- Whether the first number is less than the second. -/
def lt (x y : Binary64) : Bool := compare? x y == some .lt

/-- Whether the first number is at most the second. -/
def le (x y : Binary64) : Bool := compare? x y == some .lt || compare? x y == some .eq

/-- Whether two numbers have the same value; both zeros have. -/
def sameValue (x y : Binary64) : Bool := compare? x y == some .eq

/-- Whether a number is above zero. -/
def isPositive (x : Binary64) : Bool := lt (ofInt 0) x

/-- The greatest integer that is not above a number. -/
def floor : Binary64 → Except RoundingFault Int
  | .finite s m e =>
    let n : Int := if s then -(m : Int) else m
    .ok (if 0 ≤ e then n * (Nat.pow 2 e.toNat : Nat) else n.fdiv (Nat.pow 2 (-e).toNat : Nat))
  | .infinite _ => .error .infinite
  | .nan => .error .notANumber

/-- The integer towards zero next to a number. -/
def truncate : Binary64 → Except RoundingFault Int
  | .finite s m e =>
    let n : Int := if s then -(m : Int) else m
    .ok (if 0 ≤ e then n * (Nat.pow 2 e.toNat : Nat) else n.tdiv (Nat.pow 2 (-e).toNat : Nat))
  | .infinite _ => .error .infinite
  | .nan => .error .notANumber

/-- One half. -/
def half : Binary64 := ofRatio false 1 2

/-- The floor of a number plus one half, where the sum is itself rounded. -/
def roundHalfUp (x : Binary64) : Except RoundingFault Int := floor (add x half)

end Binary64

end LineDiagram
