/-!
# Texts as bytes

The UTF-8 form of a text as a list of bytes, and back.

Bytes that are no UTF-8 can still be shown as a text: each piece of them that
begins like a character and does not go on like one, and each byte that begins
none, is shown as the replacement character.  A piece ends before the first byte
that does not fit it, so what follows is not lost.
-/

namespace Firestore.Text

/-- The UTF-8 bytes of a text. -/
def bytes (s : String) : List UInt8 :=
  s.toList.flatMap String.utf8EncodeChar

/-- The text of some bytes, if they are UTF-8. -/
def ofBytes? (bytes : List UInt8) : Option String :=
  String.fromUTF8? ⟨bytes.toArray⟩

/-- The bytes of a code point in the manner of UTF-8; halves of surrogate pairs
have three, as their neighbours do. -/
def codeBytes (code : Nat) : List UInt8 :=
  if h : code.isValidChar then String.utf8EncodeChar (Char.ofNatAux code h)
  else [.ofNat (0xE0 + code / 4096), .ofNat (0x80 + code / 64 % 64), .ofNat (0x80 + code % 64)]

/-! ## Bytes shown as a text -/

/-- A character of which some bytes are read: what they spell so far, and the
ranges in which the bytes to come have to lie. -/
structure Begun where
  code : Nat
  ahead : List (UInt8 × UInt8)

/-- The character that a byte begins, if it begins one. -/
def Begun.ofLead? (lead : UInt8) : Option Begun :=
  let later : UInt8 × UInt8 := (0x80, 0xBF)
  if lead < 0x80 then some ⟨lead.toNat, []⟩
  else if lead < 0xC2 then none
  else if lead < 0xE0 then some ⟨lead.toNat % 32, [later]⟩
  else if lead < 0xF0 then
    let second := if lead = 0xE0 then (0xA0, 0xBF) else if lead = 0xED then (0x80, 0x9F) else later
    some ⟨lead.toNat % 16, [second, later]⟩
  else if lead < 0xF5 then
    let second := if lead = 0xF0 then (0x90, 0xBF) else if lead = 0xF4 then (0x80, 0x8F) else later
    some ⟨lead.toNat % 8, [second, later, later]⟩
  else none

/-- The character with one byte more, if the byte goes on with it. -/
def Begun.push? (c : Begun) (byte : UInt8) : Option Begun :=
  match c.ahead with
  | [] => none
  | (low, high) :: ahead =>
      if low ≤ byte ∧ byte ≤ high then some ⟨c.code * 64 + byte.toNat % 64, ahead⟩ else none

/-- What stands for a piece that is no character. -/
def replacement : Char := '\ufffd'

/-- The characters that are complete, and the one that is not. -/
def Begun.settle (c : Begun) : List Char × Option Begun :=
  if c.ahead.isEmpty then ([Char.ofNat c.code], none) else ([], some c)

/-- Reads a byte where a character has to begin. -/
def beginChar (byte : UInt8) : List Char × Option Begun :=
  match Begun.ofLead? byte with
  | some c => c.settle
  | none => ([replacement], none)

/-- Reads a byte; one that does not go on with the character begins another. -/
def goOn (begun : Option Begun) (byte : UInt8) : List Char × Option Begun :=
  match begun with
  | none => beginChar byte
  | some c =>
      match c.push? byte with
      | some c => c.settle
      | none => (replacement :: (beginChar byte).1, (beginChar byte).2)

/-- The characters of some bytes, after a character that has begun. -/
def repairFrom (begun : Option Begun) : List UInt8 → List Char
  | [] => if begun.isSome then [replacement] else []
  | byte :: rest =>
      let (chars, begun) := goOn begun byte
      chars ++ repairFrom begun rest

/-- The text that some bytes show, ill-formed pieces replaced. -/
def repair (bytes : List UInt8) : String :=
  String.ofList (repairFrom none bytes)

end Firestore.Text
