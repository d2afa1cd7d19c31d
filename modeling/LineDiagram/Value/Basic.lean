import LineDiagram.Binary64.Format
import LineDiagram.Text.Quoted

/-!
# Values

Requests and editor fields carry values of any kind: a size may come as a number
or as a text such as `80%`, a line number may be anything.  `Value` is that
loose kind of data.  Here is how a value is spelled in a message, which values
count as filled in, and which of them stand for a number.
-/

namespace LineDiagram

/-- A number of a settings record: whole or with a fraction. -/
inductive Number where
  /-- A whole number. -/
  | whole (n : Int)
  /-- A number that may have a fraction. -/
  | real (x : Binary64)
deriving DecidableEq, Repr

/-- The number as a binary64 number. -/
def Number.toBinary64 : Number → Binary64
  | .whole n => .ofInt n
  | .real x => x

/-- A value of any kind. -/
inductive Value where
  /-- Nothing. -/
  | null
  /-- A truth value. -/
  | flag (b : Bool)
  /-- A whole number. -/
  | whole (n : Int)
  /-- A number that may have a fraction. -/
  | real (x : Binary64)
  /-- A text. -/
  | text (t : Text)
  /-- A list. -/
  | list (items : List Value)
  /-- Named fields, each name once. -/
  | record (fields : List (Text × Value))
deriving Inhabited

namespace Value

/-- A string literal as a value. -/
def ofString (s : String) : Value := .text s.toList

/-- An optional text as a value. -/
def ofText? : Option Text → Value
  | none => .null
  | some t => .text t

/-- An optional integer as a value. -/
def ofInt? : Option Int → Value
  | none => .null
  | some n => .whole n

/-- A natural number as a value. -/
def ofNat (n : Nat) : Value := .whole n

/-- An optional natural number as a value. -/
def ofNat? : Option Nat → Value
  | none => .null
  | some n => ofNat n

/-- An optional number as a value. -/
def ofBinary64? : Option Binary64 → Value
  | none => .null
  | some x => .real x

/-- A number of a settings record as a value. -/
def ofNumber? : Option Number → Value
  | none => .null
  | some (.whole n) => .whole n
  | some (.real x) => .real x

/-- A list of texts as a value. -/
def ofTexts (ts : List Text) : Value := .list (ts.map .text)

/-- A table of texts as a value. -/
def ofTable (entries : List (Text × Text)) : Value :=
  .record (entries.map fun e => (e.1, .text e.2))

/-- Named values as a record. -/
def ofFields (fields : List (String × Value)) : Value :=
  .record (fields.map fun f => (f.1.toList, f.2))

/-- The field of a record. -/
def field? (name : String) : Value → Option Value
  | .record fields => fields.lookup name.toList
  | _ => none

mutual

/-- A value as it stands inside a list or a record: texts are quoted. -/
def spellInside : Value → Text
  | .null => "None"
  | .flag true => "True"
  | .flag false => "False"
  | .whole n => Text.ofInt n
  | .real x => x.plainText
  | .text t => Text.quoted t
  | .list items => "[" ++ Text.join ", " (spellItems items) ++ "]"
  | .record fields => "\x7b" ++ Text.join ", " (spellFields fields) ++ "\x7d"

/-- The items of a list. -/
def spellItems : List Value → List Text
  | [] => []
  | v :: rest => spellInside v :: spellItems rest

/-- The fields of a record. -/
def spellFields : List (Text × Value) → List Text
  | [] => []
  | (name, v) :: rest => (Text.quoted name ++ ": " ++ spellInside v) :: spellFields rest

end

/-- A value as it stands in a message. -/
def spell : Value → Text
  | .text t => t
  | v => spellInside v

/-- Whether a value is filled in: not null, not false, not zero and not
empty. -/
def isFilled : Value → Bool
  | .null => false
  | .flag b => b
  | .whole n => n != 0
  | .real x => !x.sameValue (.ofInt 0)
  | .text t => !t.isEmpty
  | .list items => !items.isEmpty
  | .record fields => !fields.isEmpty

/-- The text of a value; nothing spells the empty text. -/
def textUnlessNull : Value → Text
  | .null => []
  | v => v.spell

/-- The text of a value that is filled in; every other value spells the empty
text. -/
def textIfFilled (v : Value) : Text := if v.isFilled then v.spell else []

/-- The binary64 number that a value stands for. -/
def binary64? : Value → Option Binary64
  | .flag b => some (.ofInt (if b then 1 else 0))
  | .whole n => some (.ofInt n)
  | .real x => some x
  | .text t => Text.anyNumber? t
  | _ => none

/-- The line number that a value stands for, if any; fractions are cut off.  An
infinity is refused. -/
def lineNumber? : Value → Except RoundingFault (Option Int)
  | .flag b => .ok (some (if b then 1 else 0))
  | .whole n => .ok (some n)
  | .real x =>
    match x.truncate with
    | .ok n => .ok (some n)
    | .error .notANumber => .ok none
    | .error .infinite => .error .infinite
  | .text t => .ok (Text.integer? t)
  | _ => .ok none

/-- Whether a value is a truth value or a number. -/
def isScalarNumber : Value → Bool
  | .flag _ => true
  | .whole _ => true
  | .real _ => true
  | _ => false

end Value

end LineDiagram
