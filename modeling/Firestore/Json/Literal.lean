import Firestore.Text.Bytes

/-!
# Strings of JSON text

A string as it is written: characters that stand for themselves, characters
behind a backslash, and sixteen-bit units.  Two units that are the halves of a
surrogate pair spell one code point; a half without its other half spells itself.

A literal is a text if it has no control character and no lone half.  As bytes it
is read whatever it holds.
-/

namespace Firestore.Json

/-- A part of a string as it is written. -/
inductive Piece where
  /-- A character that stands for itself. -/
  | plain (c : Char)
  /-- A character behind a backslash. -/
  | escaped (c : Char)
  /-- The four digits of a sixteen-bit unit. -/
  | unit (n : Nat)
  deriving DecidableEq, Repr

def Piece.isControl : Piece → Bool
  | .plain c => c.toNat < 0x20
  | _ => false

/-- A string as it is written, without its quotes. -/
structure Literal where
  pieces : List Piece
  deriving DecidableEq, Repr

namespace Literal

def isHighHalf (n : Nat) : Bool := 0xD800 ≤ n && n < 0xDC00

def isLowHalf (n : Nat) : Bool := 0xDC00 ≤ n && n < 0xE000

/-- The code point of a surrogate pair. -/
def pairCode (high low : Nat) : Nat :=
  0x10000 + (high - 0xD800) * 1024 + (low - 0xDC00)

/-- The code points that some pieces spell; a high half waits for the next piece. -/
def codesAfter (waiting : Option Nat) : List Piece → List Nat
  | [] => waiting.toList
  | .plain c :: rest => waiting.toList ++ c.toNat :: codesAfter none rest
  | .escaped c :: rest => waiting.toList ++ c.toNat :: codesAfter none rest
  | .unit n :: rest =>
      match waiting with
      | some high =>
          if isLowHalf n then pairCode high n :: codesAfter none rest
          else if isHighHalf n then high :: codesAfter (some n) rest
          else high :: n :: codesAfter none rest
      | none =>
          if isHighHalf n then codesAfter (some n) rest else n :: codesAfter none rest

/-- The code points that a literal spells. -/
def codes (l : Literal) : List Nat := codesAfter none l.pieces

def hasControl (l : Literal) : Bool := l.pieces.any Piece.isControl

/-- The character of a code point, if it is no half of a pair. -/
def char? (code : Nat) : Option Char :=
  if h : code.isValidChar then some (Char.ofNatAux code h) else none

/-- The text that a literal stands for. -/
def text? (l : Literal) : Option String :=
  if l.hasControl then none else String.ofList <$> l.codes.mapM char?

/-- The bytes that a literal stands for. -/
def bytes (l : Literal) : List UInt8 := l.codes.flatMap Text.codeBytes

/-- The characters of a literal that is written without backslashes. -/
def plain? (l : Literal) : Option (List Char) :=
  l.pieces.mapM fun
    | .plain c => some c
    | _ => none

end Literal

end Firestore.Json
