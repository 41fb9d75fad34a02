import Firestore.Text.Bytes

/-!
# Base64

Three bytes are written as four symbols of six bits each; one or two bytes left
over are written as two or three symbols and padding.  Reading is strict: the
bits that no byte takes must be zero, and padding is either complete or absent,
as the reader demands.  `decodeLenient` accepts both, and excess padding too.

Faults name the position and the byte that is wrong.  All groups but the last
may hold symbols only; in the last one padding stands from the third place on.
-/

namespace Firestore.Base64

/-- Why a text is not base64. -/
inductive Fault where
  | invalidByte (offset : Nat) (byte : UInt8)
  | invalidLength (length : Nat)
  | invalidLastSymbol (offset : Nat) (byte : UInt8)
  | invalidPadding
  deriving DecidableEq, Repr

def Fault.message : Fault → String
  | .invalidByte offset byte => s!"Invalid symbol {byte.toNat}, offset {offset}."
  | .invalidLength length => s!"Invalid input length: {length}"
  | .invalidLastSymbol offset byte => s!"Invalid last symbol {byte.toNat}, offset {offset}."
  | .invalidPadding => "Invalid padding"

/-! ## Symbols -/

/-- The symbol of six bits. -/
def symbol (n : Nat) : Char :=
  if n < 26 then Char.ofNat ('A'.toNat + n)
  else if n < 52 then Char.ofNat ('a'.toNat + (n - 26))
  else if n < 62 then Char.ofNat ('0'.toNat + (n - 52))
  else if n = 62 then '+'
  else '/'

/-- The six bits of a symbol, given by its byte. -/
def value? (b : UInt8) : Option Nat :=
  let n := b.toNat
  if 65 ≤ n ∧ n ≤ 90 then some (n - 65)
  else if 97 ≤ n ∧ n ≤ 122 then some (n - 97 + 26)
  else if 48 ≤ n ∧ n ≤ 57 then some (n - 48 + 52)
  else if n = 43 then some 62
  else if n = 47 then some 63
  else none

/-- The byte of the padding sign. -/
def pad : UInt8 := 61

/-! ## Writing -/

/-- The symbols of some bytes, padded to whole groups. -/
def encodeChars : List UInt8 → List Char
  | [] => []
  | [a] => [symbol (a.toNat / 4), symbol (a.toNat % 4 * 16), '=', '=']
  | [a, b] =>
      [symbol (a.toNat / 4), symbol (a.toNat % 4 * 16 + b.toNat / 16),
        symbol (b.toNat % 16 * 4), '=']
  | a :: b :: c :: rest =>
      symbol (a.toNat / 4) :: symbol (a.toNat % 4 * 16 + b.toNat / 16) ::
        symbol (b.toNat % 16 * 4 + c.toNat / 64) :: symbol (c.toNat % 64) :: encodeChars rest

/-- The base64 text of some bytes. -/
def encode (bytes : List UInt8) : String :=
  String.ofList (encodeChars bytes)

/-! ## Reading -/

/-- Whether the last group has to be padded or must not be. -/
inductive Padding where
  | required
  | forbidden
  deriving DecidableEq, Repr

/-- The six bits at a position that has to hold a symbol. -/
def symbolAt (offset : Nat) (b : UInt8) : Except Fault Nat :=
  match value? b with
  | some v => .ok v
  | none => .error (.invalidByte offset b)

/-- The three bytes of a full group. -/
def decodeGroup (offset : Nat) (a b c d : UInt8) : Except Fault (List UInt8) := do
  let v ← symbolAt offset a
  let w ← symbolAt (offset + 1) b
  let x ← symbolAt (offset + 2) c
  let y ← symbolAt (offset + 3) d
  return [.ofNat (v * 4 + w / 16), .ofNat (w % 16 * 16 + x / 4), .ofNat (x % 4 * 64 + y)]

/-- The symbols of the last group, read from place `index`; `firstPad` is the
place of the first padding sign so far. -/
def lastSymbols (offset index : Nat) (firstPad : Option Nat) :
    List UInt8 → Except Fault (List (UInt8 × Nat))
  | [] => .ok []
  | b :: rest =>
      if b = pad then
        if index < 2 then .error (.invalidByte (offset + index) b)
        else lastSymbols offset (index + 1) (firstPad <|> some index) rest
      else
        match firstPad with
        | some place => .error (.invalidByte (offset + place) pad)
        | none => do
            let v ← symbolAt (offset + index) b
            return (b, v) :: (← lastSymbols offset (index + 1) none rest)

/-- The bytes of a last group and the bits that they leave over. -/
def lastBytes : List Nat → List UInt8 × Nat
  | [v, w] => ([.ofNat (v * 4 + w / 16)], w % 16)
  | [v, w, x] => ([.ofNat (v * 4 + w / 16), .ofNat (w % 16 * 16 + x / 4)], x % 4)
  | [v, w, x, y] =>
      ([.ofNat (v * 4 + w / 16), .ofNat (w % 16 * 16 + x / 4), .ofNat (x % 4 * 64 + y)], 0)
  | _ => ([], 0)

/-- Reads the last group. -/
def decodeLast (padding : Padding) (offset : Nat) (group : List UInt8) :
    Except Fault (List UInt8) := do
  let symbols ← lastSymbols offset 0 none group
  let count := symbols.length
  if !group.isEmpty && count < 2 then
    throw (.invalidLength (offset + count))
  let padded := match padding with
    | .required => group.length % 4 == 0
    | .forbidden => group.length == count
  unless padded do
    throw .invalidPadding
  let (bytes, left) := lastBytes (symbols.map Prod.snd)
  match symbols.getLast? with
  | some (b, _) =>
      if left = 0 then return bytes else throw (.invalidLastSymbol (offset + count - 1) b)
  | none => return bytes

/-- Reads groups from a position on. -/
def decodeFrom (padding : Padding) (offset : Nat) : List UInt8 → Except Fault (List UInt8)
  | a :: b :: c :: d :: e :: rest => do
      let bytes ← decodeGroup offset a b c d
      return bytes ++ (← decodeFrom padding (offset + 4) (e :: rest))
  | group => decodeLast padding offset group

/-- A last byte that makes a group of its own is reported before all else, unless
it could stand in one. -/
def strayByte? (input : List UInt8) : Option Fault :=
  match input.getLast? with
  | some b =>
      if input.length % 4 = 1 ∧ b ≠ pad ∧ value? b = none then
        some (.invalidByte (input.length - 1) b)
      else none
  | none => none

/-- The bytes that a base64 text stands for, given by the text's own bytes. -/
def decode (padding : Padding) (input : List UInt8) : Except Fault (List UInt8) :=
  match strayByte? input with
  | some fault => .error fault
  | none => decodeFrom padding 0 input

/-- The input without the padding signs at its end. -/
def trimPadding (input : List UInt8) : List UInt8 :=
  (input.reverse.dropWhile (· == pad)).reverse

/-- The bytes of a padded base64 text. -/
def decodeText (s : String) : Except Fault (List UInt8) :=
  decode .required (Text.bytes s)

/-- The bytes of a base64 text whose padding may be missing or excessive. -/
def decodeLenient (s : String) : Except Fault (List UInt8) :=
  match decodeText s with
  | .ok bytes => .ok bytes
  | .error _ => decode .forbidden (trimPadding (Text.bytes s))

end Firestore.Base64
