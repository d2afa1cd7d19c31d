import LineDiagram.Value.Basic

/-!
# JSON

Reading and writing values as JSON text.  A failure to read is the position of
the character that cannot stand where it stands.  Besides JSON's own numbers the
words `NaN`, `Infinity` and `-Infinity` are read.  Of fields with one name the
last counts.  Writing uses ASCII only, with one blank after each comma and
colon.
-/

namespace LineDiagram.Value

/-- A reader's place in the text: how many characters were read, and the
rest. -/
structure Place where
  /-- Number of characters read. -/
  position : Nat
  /-- What is left to read. -/
  rest : Text

/-- The blanks of JSON. -/
def isJsonBlank (c : Char) : Bool := c == ' ' || c == '\t' || c == '\n' || c == '\r'

/-- The place `n` characters further. -/
def Place.skip (n : Nat) (p : Place) : Place := ⟨p.position + n, p.rest.drop n⟩

/-- The next place that does not hold a blank. -/
def Place.skipBlanks (p : Place) : Place := p.skip (p.rest.takeWhile isJsonBlank).length

/-- The value of a hexadecimal digit. -/
def hexValue? (c : Char) : Option Nat :=
  if Text.isAsciiDigit c then some (c.toNat - 0x30)
  else if 'a' ≤ c && c ≤ 'f' then some (c.toNat - 0x57)
  else if 'A' ≤ c && c ≤ 'F' then some (c.toNat - 0x37)
  else none

/-- The number that four hexadecimal digits at the start of a text spell. -/
def hexUnit? (t : Text) : Option Nat :=
  let digits := t.take 4
  if digits.length == 4 then
    digits.foldl (fun n c => n.bind fun n => (hexValue? c).map (16 * n + ·)) (some 0)
  else none

/-- The character that a letter after a backslash stands for. -/
def escapedChar? : Char → Option Char
  | '"' => some '"'
  | '\\' => some '\\'
  | '/' => some '/'
  | 'b' => some '\x08'
  | 'f' => some '\x0c'
  | 'n' => some '\n'
  | 'r' => some '\r'
  | 't' => some '\t'
  | _ => none

/-- Reads the rest of a text that opened at `start`.  `skip` characters belong
to an escape that was read already, and `done` holds the characters so far,
reversed. -/
def readText (start skip position : Nat) (done : Text) : Text → Except Nat (Text × Place)
  | [] => .error start
  | c :: rest =>
    match skip with
    | skip + 1 => readText start skip (position + 1) done rest
    | 0 =>
      if c == '"' then .ok (done.reverse, ⟨position + 1, rest⟩)
      else if c == '\\' then
        match rest with
        | [] => .error start
        | 'u' :: digits =>
          -- Four digits and one more character have to follow.
          if digits.length ≤ 4 then .error (position + 1)
          else
            match hexUnit? digits with
            | none => .error (position + 1)
            | some unit =>
              if 0xD800 ≤ unit && unit < 0xDC00 && 11 ≤ digits.length &&
                  (digits.drop 4).take 2 == ['\\', 'u'] then
                match hexUnit? (digits.drop 6) with
                | none => .error (position + 7)
                | some low =>
                  if 0xDC00 ≤ low && low < 0xE000 then
                    let point := 0x10000 + (unit - 0xD800) * 0x400 + (low - 0xDC00)
                    readText start 11 (position + 1) (Char.ofNat point :: done) rest
                  else readText start 5 (position + 1) ('\ufffd' :: done) rest
              else
                let known := if 0xD800 ≤ unit && unit < 0xE000 then '\ufffd' else Char.ofNat unit
                readText start 5 (position + 1) (known :: done) rest
        | letter :: _ =>
          match escapedChar? letter with
          | some meant => readText start 1 (position + 1) (meant :: done) rest
          | none => .error position
      else if c.toNat < 0x20 then .error position
      else readText start 0 (position + 1) (c :: done) rest

/-- Reads a number, or fails where it would have started. -/
def readNumber (p : Place) : Except Nat (Value × Place) :=
  let (negative, t) := match p.rest with
    | '-' :: rest => (true, rest)
    | t => (false, t)
  let whole := match t with
    | '0' :: _ => ['0']
    | _ => t.takeWhile Text.isAsciiDigit
  if whole.isEmpty then .error p.position
  else
    let after := t.drop whole.length
    let fraction := match after with
      | '.' :: rest => rest.takeWhile Text.isAsciiDigit
      | _ => []
    let after := if fraction.isEmpty then after else after.drop (fraction.length + 1)
    let (mark, digits) := match after with
      | e :: rest =>
        if e == 'e' || e == 'E' then
          match rest with
          | '+' :: more => (2, more.takeWhile Text.isAsciiDigit)
          | '-' :: more => (2, more.takeWhile Text.isAsciiDigit)
          | more => (1, more.takeWhile Text.isAsciiDigit)
        else (0, [])
      | [] => (0, [])
    let exponentSize := if digits.isEmpty then 0 else mark + digits.length
    let size := (if negative then 1 else 0) + whole.length +
      (if fraction.isEmpty then 0 else fraction.length + 1) + exponentSize
    let value :=
      if fraction.isEmpty && digits.isEmpty then
        let n : Int := Text.digitsValue whole
        Value.whole (if negative then -n else n)
      else
        let size : Int := Text.digitsValue digits
        let exponent := if digits.isEmpty then 0 else
          match after.drop 1 with
          | '-' :: _ => -size
          | _ => size
        Value.real (Numeral.value ⟨negative, whole, fraction, exponent⟩)
    .ok (value, p.skip size)

/-- Reads a word or a number. -/
def readAtom (p : Place) : Except Nat (Value × Place) :=
  let words : List (Text × Value) := [
    ("null", .null), ("true", .flag true), ("false", .flag false), ("NaN", .real .nan),
    ("Infinity", .real (.infinite false)), ("-Infinity", .real (.infinite true))]
  match words.find? fun w => w.1.isPrefixOf p.rest with
  | some (word, v) => .ok (v, p.skip word.length)
  | none => readNumber p

/-- Sets a field of a record: in its place when the name is there already,
otherwise at the end. -/
def setField (name : Text) (v : Value) (fields : List (Text × Value)) : List (Text × Value) :=
  if fields.any (·.1 == name) then fields.map fun f => if f.1 == name then (name, v) else f
  else fields ++ [(name, v)]

mutual

/-- Reads a value; `fuel` bounds the number of values and fields still to
come. -/
def readValue (fuel : Nat) (p : Place) : Except Nat (Value × Place) :=
  match fuel with
  | 0 => .error p.position
  | fuel + 1 =>
    match p.rest with
    | '"' :: rest => do
      let (t, p) ← readText p.position 0 (p.position + 1) [] rest
      .ok (.text t, p)
    | '[' :: _ =>
      let p := (p.skip 1).skipBlanks
      match p.rest with
      | ']' :: _ => .ok (.list [], p.skip 1)
      | _ => readItems fuel [] p
    | '\x7b' :: _ =>
      let p := (p.skip 1).skipBlanks
      match p.rest with
      | '\x7d' :: _ => .ok (.record [], p.skip 1)
      | _ => readFields fuel [] p
    | _ => readAtom p

/-- Reads the items of a list up to its end; `done` holds those so far,
reversed. -/
def readItems (fuel : Nat) (done : List Value) (p : Place) : Except Nat (Value × Place) :=
  match fuel with
  | 0 => .error p.position
  | fuel + 1 => do
    let (v, p) ← readValue fuel p
    let p := p.skipBlanks
    match p.rest with
    | ']' :: _ => .ok (.list (v :: done).reverse, p.skip 1)
    | ',' :: _ => readItems fuel (v :: done) (p.skip 1).skipBlanks
    | _ => .error p.position

/-- Reads the fields of a record up to its end. -/
def readFields (fuel : Nat) (done : List (Text × Value)) (p : Place) :
    Except Nat (Value × Place) :=
  match fuel with
  | 0 => .error p.position
  | fuel + 1 =>
    match p.rest with
    | '"' :: rest => do
      let (name, p) ← readText p.position 0 (p.position + 1) [] rest
      let p := p.skipBlanks
      match p.rest with
      | ':' :: _ =>
        let (v, p) ← readValue fuel (p.skip 1).skipBlanks
        let p := p.skipBlanks
        let done := setField name v done
        match p.rest with
        | '\x7d' :: _ => .ok (.record done, p.skip 1)
        | ',' :: _ => readFields fuel done (p.skip 1).skipBlanks
        | _ => .error p.position
      | _ => .error p.position
    | _ => .error p.position

end

/-- The value that a JSON text spells, or the position where it goes wrong.  A
byte order mark in front is passed over. -/
def ofJson (t : Text) : Except Nat Value := do
  let t := match t with
    | '\ufeff' :: rest => rest
    | t => t
  let (v, p) ← readValue (2 * t.length + 2) (Place.skipBlanks ⟨0, t⟩)
  let p := p.skipBlanks
  if p.rest.isEmpty then .ok v else .error p.position

/-- A character inside a JSON text, in ASCII; one outside the first plane
becomes two units. -/
def jsonChar (c : Char) : Text :=
  let n := c.toNat
  if c == '"' || c == '\\' then ['\\', c]
  else if c == '\n' then ['\\', 'n']
  else if c == '\r' then ['\\', 'r']
  else if c == '\t' then ['\\', 't']
  else if n == 0x08 then ['\\', 'b']
  else if n == 0x0C then ['\\', 'f']
  else if 0x20 ≤ n && n < 0x7F then [c]
  else if n < 0x10000 then ['\\', 'u'] ++ Text.hexDigits 4 n
  else
    ['\\', 'u'] ++ Text.hexDigits 4 (0xD800 + (n - 0x10000) / 0x400) ++
    ['\\', 'u'] ++ Text.hexDigits 4 (0xDC00 + (n - 0x10000) % 0x400)

/-- A text as JSON. -/
def jsonText (t : Text) : Text := ['"'] ++ t.flatMap jsonChar ++ ['"']

/-- A number as JSON. -/
def jsonNumber : Binary64 → Text
  | .nan => "NaN"
  | .infinite false => "Infinity"
  | .infinite true => "-Infinity"
  | x => x.plainText

mutual

/-- A value as JSON text. -/
def toJson : Value → Text
  | .null => "null"
  | .flag true => "true"
  | .flag false => "false"
  | .whole n => Text.ofInt n
  | .real x => jsonNumber x
  | .text t => jsonText t
  | .list items => "[" ++ Text.join ", " (jsonItems items) ++ "]"
  | .record fields => "\x7b" ++ Text.join ", " (jsonFields fields) ++ "\x7d"

/-- The items of a list as JSON. -/
def jsonItems : List Value → List Text
  | [] => []
  | v :: rest => toJson v :: jsonItems rest

/-- The fields of a record as JSON. -/
def jsonFields : List (Text × Value) → List Text
  | [] => []
  | (name, v) :: rest => (jsonText name ++ ": " ++ toJson v) :: jsonFields rest

end

end LineDiagram.Value
