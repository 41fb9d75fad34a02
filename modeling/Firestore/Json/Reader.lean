import Firestore.Json.Written
import Firestore.Text.Quoted

/-!
# Reading JSON text

The grammar of JSON text.  Blanks are the space, the tab and the two line ends,
numbers have no needless zero in front, and the members of objects are kept as
they stand.  What the strings and numbers of a text stand for is not decided
here.
-/

namespace Firestore.Json

/-- What is read, and the characters after it. -/
abbrev Reader (α : Type) := List Char → Option (α × List Char)

namespace Reader

def isBlank (c : Char) : Bool :=
  c == ' ' || c == '\t' || c == '\n' || c == '\r'

def skipBlanks (cs : List Char) : List Char := cs.dropWhile isBlank

/-! ## Strings -/

/-- The character that a character behind a backslash stands for. -/
def shortEscape? : Char → Option Char
  | '"' => some '"'
  | '\\' => some '\\'
  | '/' => some '/'
  | 'b' => some '\x08'
  | 'f' => some '\x0c'
  | 'n' => some '\n'
  | 'r' => some '\r'
  | 't' => some '\t'
  | _ => none

/-- The pieces of a string up to its closing quote, after those in `seen`. -/
def pieces (seen : List Piece) : Reader (List Piece)
  | '"' :: rest => some (seen.reverse, rest)
  | '\\' :: 'u' :: a :: b :: c :: d :: rest =>
      match Text.hexNumber? [a, b, c, d] with
      | some n => pieces (.unit n :: seen) rest
      | none => none
  | '\\' :: c :: rest =>
      match shortEscape? c with
      | some c => pieces (.escaped c :: seen) rest
      | none => none
  | c :: rest => pieces (.plain c :: seen) rest
  | [] => none

/-- A string whose opening quote has been read. -/
def literal : Reader Literal := fun cs =>
  (pieces [] cs).map fun (pieces, rest) => (⟨pieces⟩, rest)

/-! ## Numbers -/

/-- One digit or more. -/
def digits : Reader (List Char) := fun cs =>
  match cs.takeWhile Char.isDigit with
  | [] => none
  | run => some (run, cs.dropWhile Char.isDigit)

/-- The digits after a point, if there is one. -/
def fraction : Reader (List Char)
  | '.' :: rest => digits rest
  | cs => some ([], cs)

/-- The digits of an exponent. -/
def exponentDigits (negative : Bool) : Reader (Option Exponent) := fun cs =>
  (digits cs).map fun (run, rest) => (some ⟨negative, run⟩, rest)

/-- The exponent after its mark. -/
def signedExponent : Reader (Option Exponent)
  | '+' :: rest => exponentDigits false rest
  | '-' :: rest => exponentDigits true rest
  | cs => exponentDigits false cs

/-- The exponent of a number, if it has one. -/
def exponent : Reader (Option Exponent)
  | 'e' :: rest => signedExponent rest
  | 'E' :: rest => signedExponent rest
  | cs => some (none, cs)

/-- A number whose sign has been read. -/
def unsigned (negative : Bool) : Reader Numeral := fun cs => do
  let (whole, rest) ← digits cs
  if whole.head? = some '0' ∧ whole ≠ ['0'] then none
  let (fraction, rest) ← fraction rest
  let (exponent, rest) ← exponent rest
  return (⟨negative, whole, fraction, exponent⟩, rest)

/-- A number. -/
def numeral : Reader Numeral
  | '-' :: rest => unsigned true rest
  | cs => unsigned false cs

/-! ## Values -/

/-- A fixed word. -/
def word (expected : List Char) (value : Written) : Reader Written := fun cs =>
  if expected.isPrefixOf cs then some (value, cs.drop expected.length) else none

mutual

/-- A value.  The fuel bounds the steps, of which a value takes no more than its text
has characters. -/
def value : Nat → Reader Written
  | 0, _ => none
  | fuel + 1, cs =>
      match skipBlanks cs with
      | 'n' :: rest => word ['u', 'l', 'l'] .null rest
      | 't' :: rest => word ['r', 'u', 'e'] (.bool true) rest
      | 'f' :: rest => word ['a', 'l', 's', 'e'] (.bool false) rest
      | '"' :: rest => do
          let (l, rest) ← literal rest
          return (.string l, rest)
      | '[' :: rest =>
          match skipBlanks rest with
          | ']' :: rest => some (.array [], rest)
          | rest => elements fuel [] rest
      | '\x7b' :: rest =>
          match skipBlanks rest with
          | '\x7d' :: rest => some (.object [], rest)
          | rest => members fuel [] rest
      | rest => do
          let (n, rest) ← numeral rest
          return (.number n, rest)

/-- The elements of an array after those in `seen`, up to its end; there is at
least one more. -/
def elements : Nat → List Written → Reader Written
  | 0, _, _ => none
  | fuel + 1, seen, cs =>
      match value fuel cs with
      | some (element, rest) =>
          match skipBlanks rest with
          | ']' :: rest => some (.array (element :: seen).reverse, rest)
          | ',' :: rest => elements fuel (element :: seen) rest
          | _ => none
      | none => none

/-- The members of an object after those in `seen`, up to its end; there is at
least one more. -/
def members : Nat → List (Literal × Written) → Reader Written
  | 0, _, _ => none
  | fuel + 1, seen, cs =>
      match skipBlanks cs with
      | '"' :: rest =>
          match literal rest with
          | some (name, rest) =>
              match skipBlanks rest with
              | ':' :: rest =>
                  match value fuel rest with
                  | some (element, rest) =>
                      match skipBlanks rest with
                      | '\x7d' :: rest => some (.object ((name, element) :: seen).reverse, rest)
                      | ',' :: rest => members fuel ((name, element) :: seen) rest
                      | _ => none
                  | none => none
              | _ => none
          | none => none
      | _ => none

end

end Reader

/-- The tree of a JSON text. -/
def Written.read? (text : String) : Option Written :=
  let cs := text.toList
  match Reader.value (cs.length + 1) cs with
  | some (w, rest) => if (Reader.skipBlanks rest).isEmpty then some w else none
  | none => none

/-- The value of a JSON document, members as they stand in the text. -/
def read? (text : String) : Option Json :=
  (Written.read? text).bind (ofWritten? maxDepth)

end Firestore.Json
