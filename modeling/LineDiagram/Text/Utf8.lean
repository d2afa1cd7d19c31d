import LineDiagram.Text.Quoted

/-!
# UTF-8

Bytes are read as UTF-8.  Reading stops at the first byte sequence that spells
no character and says where it stands, how long it is and what is wrong with it.
A sequence is wrong as soon as one of its bytes cannot continue it, and covers
the bytes before that one.
-/

namespace LineDiagram.Text

/-- What is wrong with a byte sequence. -/
inductive Utf8Fault where
  /-- No character starts with this byte. -/
  | badStart
  /-- The byte after the sequence does not continue it. -/
  | badContinuation
  /-- The bytes end inside the sequence. -/
  | unfinished
deriving DecidableEq, Repr

/-- The wording of a fault. -/
def Utf8Fault.message : Utf8Fault → Text
  | .badStart => "invalid start byte"
  | .badContinuation => "invalid continuation byte"
  | .unfinished => "unexpected end of data"

/-- A byte sequence that spells no character: its first byte, where it stands,
how many bytes it covers and what is wrong with it. -/
structure Utf8Error where
  /-- The first byte of the sequence. -/
  byte : UInt8
  /-- How many bytes stand before the sequence. -/
  position : Nat
  /-- How many bytes it covers. -/
  size : Nat
  /-- What is wrong with it. -/
  fault : Utf8Fault
deriving DecidableEq, Repr

/-- The wording of an error: a single byte is shown, a longer sequence is given
by its ends. -/
def Utf8Error.message (e : Utf8Error) : Text :=
  if e.size == 1 then
    "'utf-8' codec can't decode byte 0x" ++ hexDigits 2 e.byte.toNat ++ " in position " ++
      ofNat e.position ++ ": " ++ e.fault.message
  else
    "'utf-8' codec can't decode bytes in position " ++ ofNat e.position ++ "-" ++
      ofNat (e.position + e.size - 1) ++ ": " ++ e.fault.message

/-- What a first byte announces: how many bytes follow, the limits of the first
of them, and the bits that the first byte itself gives to the code point. -/
structure Utf8Lead where
  /-- How many bytes follow. -/
  following : Nat
  /-- Least value of the second byte. -/
  low : Nat
  /-- Greatest value of the second byte. -/
  high : Nat
  /-- Bits of the code point in the first byte. -/
  bits : Nat

/-- What the first byte announces, if a character starts with it. -/
def Utf8Lead.ofByte? (b : UInt8) : Option Utf8Lead :=
  let n := b.toNat
  if n < 0x80 then some ⟨0, 0, 0, n⟩
  else if n < 0xC2 then none
  else if n < 0xE0 then some ⟨1, 0x80, 0xBF, n - 0xC0⟩
  else if n == 0xE0 then some ⟨2, 0xA0, 0xBF, 0⟩
  else if n == 0xED then some ⟨2, 0x80, 0x9F, 0xD⟩
  else if n < 0xF0 then some ⟨2, 0x80, 0xBF, n - 0xE0⟩
  else if n == 0xF0 then some ⟨3, 0x90, 0xBF, 0⟩
  else if n < 0xF4 then some ⟨3, 0x80, 0xBF, n - 0xF0⟩
  else if n == 0xF4 then some ⟨3, 0x80, 0x8F, 4⟩
  else none

/-- Reads the bytes that follow a first byte.  Gives the code point, or the
fault and the number of good bytes read. -/
def readFollowing (count low high point taken : Nat) (bytes : List UInt8) :
    Except (Utf8Fault × Nat) Nat :=
  match count, bytes with
  | 0, _ => .ok point
  | _ + 1, [] => .error (.unfinished, taken)
  | count + 1, b :: rest =>
    if low ≤ b.toNat && b.toNat ≤ high then
      readFollowing count 0x80 0xBF (point * 0x40 + (b.toNat - 0x80)) (taken + 1) rest
    else .error (.badContinuation, taken)

/-- Reads `bytes`, which start `position` bytes into the whole; `skip` of them
belong to the character read last, and `done` holds the characters so far,
reversed. -/
def decodeUtf8From (position skip : Nat) (done : Text) : List UInt8 → Except Utf8Error Text
  | [] => .ok done.reverse
  | b :: rest =>
    match skip with
    | skip + 1 => decodeUtf8From (position + 1) skip done rest
    | 0 =>
      match Utf8Lead.ofByte? b with
      | none => .error ⟨b, position, 1, .badStart⟩
      | some lead =>
        match readFollowing lead.following lead.low lead.high lead.bits 0 rest with
        | .ok point =>
          decodeUtf8From (position + 1) lead.following (Char.ofNat point :: done) rest
        | .error (fault, taken) => .error ⟨b, position, taken + 1, fault⟩

/-- The text that bytes spell in UTF-8. -/
def decodeUtf8 (bytes : List UInt8) : Except Utf8Error Text := decodeUtf8From 0 0 [] bytes

end LineDiagram.Text
