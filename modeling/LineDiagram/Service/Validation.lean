import LineDiagram.Settings.Basic

/-!
# Validating requests

A request is a record whose fields have to be of certain kinds.  Some leniency
is allowed: a number may come as a text that spells it, a truth value as a word
or as zero or one.  All faults of a request are reported, not only the first, in
the order in which its fields are declared.
-/

namespace LineDiagram

/-- A step on the way to a value inside a request. -/
inductive PathStep where
  /-- Into a field. -/
  | field (name : String)
  /-- To an item. -/
  | index (n : Nat)
deriving DecidableEq, Repr

/-- What can be wrong with a value. -/
inductive FaultKind where
  /-- A required field is missing. -/
  | missing
  /-- The body is no JSON. -/
  | jsonInvalid
  /-- It is no record. -/
  | noRecord
  /-- It is no text. -/
  | noText
  /-- It is no list. -/
  | noList
  /-- It is no direction of links. -/
  | noDirection
  /-- It is no whole number. -/
  | noInteger
  /-- The text spells no whole number. -/
  | integerText
  /-- The number has a fraction. -/
  | integerFraction
  /-- The number is not finite. -/
  | notFinite
  /-- The number is too large. -/
  | integerSize
  /-- It is no number. -/
  | noNumber
  /-- The text spells no number. -/
  | numberText
  /-- It is no truth value. -/
  | noFlag
  /-- The text or number stands for no truth value. -/
  | flagText
deriving DecidableEq, Repr

namespace FaultKind

/-- The name of a kind of fault. -/
def name : FaultKind → String
  | .missing => "missing"
  | .jsonInvalid => "json_invalid"
  | .noRecord => "model_attributes_type"
  | .noText => "string_type"
  | .noList => "list_type"
  | .noDirection => "literal_error"
  | .noInteger => "int_type"
  | .integerText => "int_parsing"
  | .integerFraction => "int_from_float"
  | .notFinite => "finite_number"
  | .integerSize => "int_parsing_size"
  | .noNumber => "float_type"
  | .numberText => "float_parsing"
  | .noFlag => "bool_type"
  | .flagText => "bool_parsing"

/-- The message of a kind of fault. -/
def message : FaultKind → String
  | .missing => "Field required"
  | .jsonInvalid => "JSON decode error"
  | .noRecord => "Input should be a valid dictionary or object to extract fields from"
  | .noText => "Input should be a valid string"
  | .noList => "Input should be a valid list"
  | .noDirection => "Input should be 'out' or 'in'"
  | .noInteger => "Input should be a valid integer"
  | .integerText => "Input should be a valid integer, unable to parse string as an integer"
  | .integerFraction => "Input should be a valid integer, got a number with a fractional part"
  | .notFinite => "Input should be a finite number"
  | .integerSize => "Unable to parse input string as an integer, exceeded maximum size"
  | .noNumber => "Input should be a valid number"
  | .numberText => "Input should be a valid number, unable to parse string as a number"
  | .noFlag => "Input should be a valid boolean"
  | .flagText => "Input should be a valid boolean, unable to interpret input"

end FaultKind

/-- A fault and where it is. -/
structure Fault where
  /-- What is wrong. -/
  kind : FaultKind
  /-- Where it is wrong. -/
  path : List PathStep := []
deriving DecidableEq, Repr

/-- A fault as a record. -/
def Fault.toValue (f : Fault) : Value := .ofFields [
  ("type", .ofString f.kind.name),
  ("loc", .list (f.path.map fun
    | .field name => .ofString name
    | .index n => .ofNat n)),
  ("msg", .ofString f.kind.message)]

/-- A value that was checked, or all faults that were found. -/
inductive Validation (α : Type) where
  /-- There are no faults. -/
  | ok (a : α)
  /-- There are faults. -/
  | faults (fs : List Fault)

namespace Validation

/-- Changes the value. -/
def map {α β : Type} (f : α → β) : Validation α → Validation β
  | .ok a => .ok (f a)
  | .faults fs => .faults fs

/-- Applies a checked function to a checked value; the faults of both are
kept. -/
def apply {α β : Type} : Validation (α → β) → Validation α → Validation β
  | .ok f, .ok a => .ok (f a)
  | .ok _, .faults fs => .faults fs
  | .faults fs, .ok _ => .faults fs
  | .faults fs, .faults gs => .faults (fs ++ gs)

instance : Functor Validation where
  map := map

instance : Applicative Validation where
  pure := .ok
  seq f a := apply f (a ())

/-- A single fault. -/
def fault {α : Type} (kind : FaultKind) : Validation α := .faults [⟨kind, []⟩]

/-- The faults as seen from one step further out. -/
def within {α : Type} (step : PathStep) : Validation α → Validation α
  | .ok a => .ok a
  | .faults fs => .faults (fs.map fun f => { f with path := step :: f.path })

/-- Checks a value as a record. -/
def record (v : Value) : Validation (List (Text × Value)) :=
  match v with
  | .record fields => .ok fields
  | _ => fault .noRecord

/-- Checks a text. -/
def text (v : Value) : Validation Text :=
  match v with
  | .text t => .ok t
  | _ => fault .noText

/-- Checks an item of a list after the others. -/
def addItem {α : Type} (check : Value → Validation α) (done : Validation (List α)) (index : Nat)
    (v : Value) : Validation (List α) :=
  apply (map (fun items item => items ++ [item]) done) ((check v).within (.index index))

/-- Checks every item of a list. -/
def list {α : Type} (check : Value → Validation α) (v : Value) : Validation (List α) :=
  match v with
  | .list items =>
    items.zipIdx.foldl (fun done item => addItem check done item.2 item.1) (.ok [])
  | _ => fault .noList

/-- A blank that may stand around a number; the information separators may
not. -/
def isNumberSpace (c : Char) : Bool :=
  Text.isBlank c && !(0x1C ≤ c.toNat && c.toNat ≤ 0x1F)

/-- Removes the blanks around a number. -/
def trimNumber (t : Text) : Text := Text.dropEndWhile isNumberSpace (t.dropWhile isNumberSpace)

/-- A text without its underscores, when none of them stands at an end or beside
another. -/
def withoutSingleUnderscores (t : Text) : Text :=
  if t.head? == some '_' || t.getLast? == some '_' || Text.hasPart "__" t then t
  else t.filter (· != '_')

/-- Removes the zeros in front of a number that has other digits. -/
def withoutLeadingZeros (t : Text) : Text :=
  match t with
  | '0' :: _ =>
    let rest := t.dropWhile fun c => c == '0' || c == '_'
    match rest with
    | [] => t.getLast?.toList
    | '.' :: _ => '0' :: rest
    | c :: _ => if Text.isAsciiDigit c then rest else t
  | _ => t

/-- Removes a point that only zeros follow. -/
def withoutZeroPlaces (t : Text) : Text :=
  match t.dropWhile (· != '.') with
  | '.' :: places => if places.all (· == '0') then t.takeWhile (· != '.') else t
  | _ => t

/-- The number that digits without a leading zero spell. -/
def plainDigits? (t : Text) : Option Nat :=
  if t.isEmpty || !t.all Text.isAsciiDigit || (t.head? == some '0' && t.length != 1) then none
  else some (Text.digitsValue t)

/-- The whole number that a text spells; a plus sign, zeros in front, zeros
after a point, single underscores and blanks around it do not matter. -/
def integerText? (t : Text) : Option Int :=
  let t := trimNumber t
  let t :=
    match t with
    | '+' :: c :: rest => if Text.isAsciiDigit c then c :: rest else t
    | _ => t
  match withoutSingleUnderscores (withoutZeroPlaces (withoutLeadingZeros t)) with
  | '-' :: digits => (plainDigits? digits).map fun n => -(n : Int)
  | digits => (plainDigits? digits).map fun n => (n : Int)

/-- The largest whole number that a number with a fraction may stand for, plus
one. -/
def integerLimit : Binary64 := .ofInt 9223372036854775808

/-- The whole number that a number stands for. -/
def integerOfBinary64 (x : Binary64) : Validation Int :=
  match x.truncate with
  | .error _ => fault .notFinite
  | .ok n =>
    if !(Binary64.ofInt n).sameValue x then fault .integerFraction
    else if x.lt integerLimit && integerLimit.neg.lt x then .ok n
    else fault .integerSize

/-- Checks a whole number. -/
def integer (v : Value) : Validation Int :=
  match v with
  | .whole n => .ok n
  | .flag b => .ok (if b then 1 else 0)
  | .real x => integerOfBinary64 x
  | .text t =>
    match integerText? t with
    | some n => .ok n
    | none => fault .integerText
  | _ => fault .noInteger

/-- Whether a text has only ASCII digits as digits. -/
def hasAsciiDigits (t : Text) : Bool := t.all fun c => !Text.isDigit c || Text.isAsciiDigit c

/-- The number that a text spells, without blanks around it. -/
def numberText? (t : Text) : Option Binary64 :=
  if hasAsciiDigits t && !t.contains '_' && !t.any Text.isBlank then Text.anyNumber? t else none

/-- Checks a number. -/
def number (v : Value) : Validation Binary64 :=
  match v with
  | .real x => .ok x
  | .whole n => if (Binary64.ofInt n).isFinite then .ok (.ofInt n) else fault .noNumber
  | .flag b => .ok (.ofInt (if b then 1 else 0))
  | .text t =>
    match (numberText? (trimNumber t)).orElse fun _ => numberText? (withoutSingleUnderscores t) with
    | some x => .ok x
    | none => fault .numberText
  | _ => fault .noNumber

/-- The words for true. -/
def trueWords : List String := ["1", "on", "t", "true", "y", "yes"]

/-- The words for false. -/
def falseWords : List String := ["0", "off", "f", "false", "n", "no"]

/-- A text with the capital letters of ASCII in lower case. -/
def asciiLower (t : Text) : Text :=
  t.map fun c => if 'A' ≤ c && c ≤ 'Z' then Text.lowerChar c else c

/-- The truth value of zero or one. -/
def flagOfInt (n : Int) : Validation Bool :=
  if n == 0 then .ok false else if n == 1 then .ok true else fault .flagText

/-- Checks a truth value. -/
def flag (v : Value) : Validation Bool :=
  match v with
  | .flag b => .ok b
  | .text t =>
    let isWord := fun (w : String) => w.toList == asciiLower t
    if trueWords.any isWord then .ok true
    else if falseWords.any isWord then .ok false
    else fault .flagText
  | .whole n =>
    match integerOfBinary64 (.ofInt n) with
    | .ok _ => flagOfInt n
    | .faults _ => fault .noFlag
  | .real x =>
    match integerOfBinary64 x with
    | .ok n => flagOfInt n
    | .faults _ => fault .noFlag
  | _ => fault .noFlag

/-- Checks a value unless it is null, and gives it back as a value. -/
def nullOr {α : Type} (check : Value → Validation α) (wrap : α → Value) (v : Value) :
    Validation Value :=
  match v with
  | .null => .ok .null
  | v => map wrap (check v)

/-- A text or null. -/
def textOrNull : Value → Validation Value := nullOr text .text

/-- A number or null. -/
def numberOrNull : Value → Validation Value := nullOr number .real

/-- A truth value or null. -/
def flagOrNull : Value → Validation Value := nullOr flag .flag

/-- Checks a field that has to be there. -/
def required {α : Type} (name : String) (check : Value → Validation α)
    (fields : List (Text × Value)) : Validation α :=
  match fields.lookup name.toList with
  | some v => (check v).within (.field name)
  | none => (fault .missing).within (.field name)

/-- Checks a field if it is there. -/
def optional {α : Type} (name : String) (check : Value → Validation α)
    (fields : List (Text × Value)) : Validation (Option α) :=
  match fields.lookup name.toList with
  | some v => (map some (check v)).within (.field name)
  | none => .ok none

/-- Checks a value by a check that needs the value before it. -/
def andThen {α β : Type} (v : Validation α) (check : α → Validation β) : Validation β :=
  match v with
  | .ok a => check a
  | .faults fs => .faults fs

end Validation

/-- Checks a settings record. -/
def Settings.validate (v : Value) : Validation Settings :=
  (Validation.record v).andThen fun fields =>
    let check := fun (entry : String × Setting) =>
      match entry.2 with
      | .text _ => Validation.optional entry.1 Validation.textOrNull fields
      | .number _ => Validation.optional entry.1 Validation.numberOrNull fields
    let checked := settingNames.foldl (fun done entry =>
      Validation.apply
        (Validation.map (fun fields v => fields ++ [(entry.1, v.getD .null)]) done)
        (check entry)) (.ok ([] : List (String × Value)))
    checked.map fun fields => .ofValue (.ofFields fields)

end LineDiagram
