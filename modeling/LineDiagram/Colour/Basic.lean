import LineDiagram.Binary64.Decimal
import LineDiagram.Colour.Named
import LineDiagram.Text.Quoted

/-!
# Colours

Colours are written as hexadecimal digits after a `#`, as `rgb(...)` or
`hsl(...)` functions, or by name.  `Colour.normalize` brings what it can to six
hexadecimal digits and leaves other words alone; `Colour.resolve?` finds the
bytes of a colour and refuses words that name none.  Since `#` opens a comment
in a diagram's source, `Colour.sourceToken` spells hexadecimal colours as
`rgb(...)`.
-/

namespace LineDiagram.Colour

/-- The byte nearest to a number, a half going up; numbers that are not finite
give zero. -/
def clampByte (x : Binary64) : Nat :=
  match x.roundHalfUp with
  | .ok n => (min 255 n).toNat
  | .error _ => 0

/-- A colour as `#` and six hexadecimal digits. -/
def hexText (c : Rgb) : Text :=
  ['#'] ++ Text.hexDigits 2 c.red ++ Text.hexDigits 2 c.green ++ Text.hexDigits 2 c.blue

/-- Whether a character is a hexadecimal digit. -/
def isHexDigit (c : Char) : Bool :=
  Text.isAsciiDigit c || ('a' ≤ c && c ≤ 'f') || ('A' ≤ c && c ≤ 'F')

/-- The value of a lower-case hexadecimal digit. -/
def hexDigitValue (c : Char) : Nat :=
  if Text.isAsciiDigit c then c.toNat - 0x30 else c.toNat - 0x57

/-- The six digits that a hexadecimal colour stands for.  Three or four digits
count twice each; a fourth channel is dropped. -/
def sixDigits? (digits : Text) : Option Text :=
  if digits.length == 3 || digits.length == 4 then some ((digits.take 3).flatMap fun c => [c, c])
  else if digits.length == 6 then some digits
  else if digits.length == 8 then some (digits.take 6)
  else none

/-- A hexadecimal colour as `#` and six lower-case digits.  Any number of `#`
may stand in front. -/
def expandHex? (t : Text) : Option Text :=
  let digits := (Text.trim t).dropWhile (· == '#')
  if !digits.isEmpty && digits.all isHexDigit then
    (sixDigits? (Text.lower digits)).map (['#'] ++ ·)
  else none

/-- The bytes of a hexadecimal colour. -/
def ofHex? (t : Text) : Option Rgb :=
  match expandHex? t with
  | some ['#', a, b, c, d, e, f] =>
    let byte := fun h l => 16 * hexDigitValue h + hexDigitValue l
    some ⟨byte a b, byte c d, byte e f⟩
  | _ => none

/-- The text between the brackets of a function with the given name, which may
end in `a`, when the bracket closes at the end of the text and not before. -/
def argument? (name raw : Text) : Option Text :=
  match Text.splitWordAnyCase? name raw with
  | none => none
  | some (_, rest) =>
    let rest := match rest with
      | c :: more => if c == 'a' || c == 'A' then more else rest
      | [] => []
    match rest with
    | '(' :: body =>
      let inner := body.takeWhile (· != ')')
      if !inner.isEmpty && body.drop inner.length == [')'] then some inner else none
    | _ => none

/-- The first three parts between commas. -/
def threeParts? (t : Text) : Option (Text × Text × Text) :=
  match t.splitOn ',' with
  | a :: b :: c :: _ => some (a, b, c)
  | _ => none

/-- A channel of `rgb(...)`: a number, or a percentage of 255. -/
def channel? (part : Text) : Option Binary64 :=
  match (Text.trim part).reverse with
  | '%' :: before =>
    (Text.number? before.reverse).map fun n => (n.div (.ofInt 100)).mul (.ofInt 255)
  | _ => Text.number? part

/-- The colour of an `rgb(...)` text. -/
def ofRgbFunction? (raw : Text) : Option Rgb := do
  let inner ← argument? "rgb" raw
  let (r, g, b) ← threeParts? inner
  let r ← channel? r
  let g ← channel? g
  let b ← channel? b
  some ⟨clampByte r, clampByte g, clampByte b⟩

/-- One channel of a colour given by the ends of its range and a hue counted in
turns. -/
def hueChannel (low high hue : Binary64) : Binary64 :=
  let hue := hue.mod (.ofInt 1)
  if hue.lt (.ofRatio false 1 6) then
    low.add (((high.sub low).mul hue).mul (.ofInt 6))
  else if hue.lt .half then high
  else if hue.lt (.ofRatio false 2 3) then
    low.add (((high.sub low).mul ((Binary64.ofRatio false 2 3).sub hue)).mul (.ofInt 6))
  else low

/-- The channels, from zero to one, of a colour given by hue, lightness and
saturation. -/
def ofHueLightnessSaturation (hue light saturation : Binary64) :
    Binary64 × Binary64 × Binary64 :=
  if saturation.sameValue (.ofInt 0) then (light, light, light)
  else
    let high :=
      if light.le .half then light.mul ((Binary64.ofInt 1).add saturation)
      else (light.add saturation).sub (light.mul saturation)
    let low := ((Binary64.ofInt 2).mul light).sub high
    let third := Binary64.ofRatio false 1 3
    (hueChannel low high (hue.add third), hueChannel low high hue,
      hueChannel low high (hue.sub third))

/-- The colour of an `hsl(...)` text: a hue in degrees and two percentages. -/
def ofHslFunction? (raw : Text) : Option Rgb := do
  let inner ← argument? "hsl" raw
  let (h, s, l) ← threeParts? inner
  let isDegreeMark := fun c => c == 'd' || c == 'e' || c == 'g'
  let hue ← Text.number? (Text.dropEndWhile isDegreeMark (Text.trim h))
  let saturation ← Text.number? (Text.dropEndWhile (· == '%') (Text.trim s))
  let light ← Text.number? (Text.dropEndWhile (· == '%') (Text.trim l))
  let turns := (hue.mod (.ofInt 360)).div (.ofInt 360)
  let (r, g, b) :=
    ofHueLightnessSaturation turns (light.div (.ofInt 100)) (saturation.div (.ofInt 100))
  let byte := fun (x : Binary64) => clampByte (x.mul (.ofInt 255))
  some ⟨byte r, byte g, byte b⟩

/-- A colour in the form used for drawing: `#` and six digits where the text is
hexadecimal or an `rgb(...)` function, the trimmed text otherwise. -/
def normalize (t : Text) : Text :=
  let raw := Text.trim t
  match raw with
  | '#' :: _ => (expandHex? raw).getD raw
  | _ =>
    match ofRgbFunction? raw with
    | some c => hexText c
    | none => raw

/-- The bytes of a colour in any of its forms; other words have none. -/
def resolve? (t : Text) : Option Rgb :=
  let raw := Text.trim t
  match ofRgbFunction? raw with
  | some c => some c
  | none =>
    match raw with
    | '#' :: _ => ofHex? raw
    | _ =>
      match ofName? (Text.lower raw) with
      | some c => some c
      | none => ofHslFunction? raw

/-- The six-digit form of a colour in any of its forms. -/
def resolveHex? (t : Text) : Option Text := (resolve? t).map hexText

/-- A colour as `rgb(...)`. -/
def rgbText (c : Rgb) : Text :=
  "rgb(" ++ Text.ofNat c.red ++ "," ++ Text.ofNat c.green ++ "," ++ Text.ofNat c.blue ++ ")"

/-- A colour as it is written into a diagram's source. -/
def sourceToken (t : Text) : Text :=
  let raw := Text.trim t
  match raw with
  | '#' :: _ =>
    match ofHex? raw with
    | some c => rgbText c
    | none => raw
  | _ => raw

end LineDiagram.Colour
