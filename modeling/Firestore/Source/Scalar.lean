import Firestore.Source.Answer

/-!
# Reading scalars

The readers of data without parts.  Each puts its question and says what it
expected if it is shown something else.  Numbers are checked against the range
of their type, floating-point readers take integers too, and a reader of texts
takes bytes that are a text.
-/

namespace Firestore.Source

def readUnit (expected : String) (format : Format) (s : Source) : Except Error Unit := do
  match ← s.answer format .unit with
  | .unit => return ()
  | shown => throw (shown.mismatch expected)

def readBool (format : Format) (s : Source) : Except Error Bool := do
  match ← s.answer format .bool with
  | .bool b => return b
  | shown => throw (shown.mismatch "a boolean")

/-- Takes a shown integer if the type holds it. -/
def acceptInt (t : IntType) (shown : Shown) : Except Error Int :=
  let check (n : Int) : Except Error Int :=
    if t.holds n then .ok n else .error (shown.mismatch t.name)
  match shown with
  | .int n => check n
  | .word n => check n
  | shown => .error (shown.mismatch t.name)

def readInt (t : IntType) (format : Format) (s : Source) : Except Error Int := do
  acceptInt t (← s.answer format (.integer t))

/-- Takes a shown number, rounded to the format of the reader. -/
def acceptNumber {f : BinaryFormat} (name : String) (shown : Shown) :
    Except Error (Floating f) :=
  match shown with
  | .double x => .ok x.convert
  | .int n => .ok (.ofInt n)
  | .word n => .ok (.ofInt n)
  | shown => .error (shown.mismatch name)

def readDouble (format : Format) (s : Source) : Except Error Double := do
  match ← s.answer format .number with
  | .double x => return x
  | shown => acceptNumber "f64" shown

def readSingle (format : Format) (s : Source) : Except Error Single := do
  acceptNumber "f32" (← s.answer format .number)

def readChar (format : Format) (s : Source) : Except Error Char := do
  match ← s.answer format .text with
  | .text t =>
      match t.toList with
      | [c] => return c
      | _ => throw ((Shown.text t).mismatch "a character")
  | shown => throw (shown.mismatch "a character")

/-- Takes a shown text, or bytes that are one. -/
def acceptText (shown : Shown) : Except Error String :=
  match shown with
  | .text t => .ok t
  | .bytes owned bs =>
      match Text.ofBytes? bs with
      | some t => .ok t
      | none => .error ((Shown.bytes owned bs).mismatch "a string")
  | shown => .error (shown.mismatch "a string")

def readText (format : Format) (s : Source) : Except Error String := do
  acceptText (← s.answer format .text)

/-- Reads bytes that the reader may keep. -/
def readRawBytes (format : Format) (s : Source) : Except Error (List UInt8) := do
  match ← s.answer format .bytes with
  | .bytes true bs => return bs
  | shown => throw (shown.mismatch "raw bytes")

/-- Reads items one by one, the first of them at position `index`. -/
def readEach {α : Type} (read : Format → Source → Except Error α) (format : Format)
    (index : Nat) : List Source → Except Error (List α)
  | [] => .ok []
  | s :: rest => do
      let a ← format.locate (toString index) (read format s)
      return a :: (← readEach read format (index + 1) rest)

/-- Reads a sequence of any length. -/
def readList {α : Type} (read : Format → Source → Except Error α) (format : Format)
    (s : Source) : Except Error (List α) := do
  match ← s.answer format .seq with
  | .seq items => readEach read format 0 items
  | shown => throw (shown.mismatch "a sequence")

/-- What a reader of two items says that it expected. -/
def pairText : String := "a tuple of size 2"

/-- Reads the two items that a sequence starts with. -/
def readTwo {α β : Type} (first : Format → Source → Except Error α)
    (second : Format → Source → Except Error β) (format : Format) (items : List Source) :
    Except Error (α × β) := do
  match items with
  | [] => throw (Format.invalidLength 0 pairText)
  | s :: rest =>
      let a ← format.locate "0" (first format s)
      match rest with
      | [] => throw (Format.invalidLength 1 pairText)
      | t :: left =>
          let b ← format.locate "1" (second format t)
          format.finish 2 left.length "sequence"
          return (a, b)

/-- Reads a sequence of two items. -/
def readPair {α β : Type} (first : Format → Source → Except Error α)
    (second : Format → Source → Except Error β) (format : Format) (s : Source) :
    Except Error (α × β) := do
  match ← s.answer format .seq with
  | .seq items => readTwo first second format items
  | shown => throw (shown.mismatch pairText)

/-- Reads the numbers of a moment. -/
def readSeconds (format : Format) (s : Source) : Except Error Int64 :=
  Int64.ofInt <$> readInt .i64 format s

def readNanos (format : Format) (s : Source) : Except Error Int32 :=
  Int32.ofInt <$> readInt .i32 format s

def readByte (format : Format) (s : Source) : Except Error UInt8 :=
  (fun n => UInt8.ofNat n.toNat) <$> readInt .u8 format s

/-- A refusal that a type makes of its own accord reaches the reader as a plain
message that holds the whole text of it. -/
def asPlain {α : Type} (r : Except Error α) : Except Error α :=
  r.mapError fun e => .invalidArgument e.text

@[simp]
theorem asPlain_ok {α : Type} (a : α) : asPlain (.ok a) = .ok a := rfl

end Firestore.Source
