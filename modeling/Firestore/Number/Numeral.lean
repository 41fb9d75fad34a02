import Firestore.Number.Floating

/-!
# Reading numerals

The two numeral grammars that text fields use.  A whole number is an optional
sign and decimal digits, read from the left; the first character that is no
digit, or the first digit that leaves the 64-bit range, decides the fault.  A
floating-point literal is an optional sign and either a word for infinity or
for no number, or digits with an optional point and an optional exponent, at
least one digit standing before the exponent.  Its value is rounded once.
-/

namespace Firestore.Numeral

/-- Why a text is not a whole number of 64 bits. -/
inductive IntegerFault where
  | empty
  | invalidDigit
  | tooLarge
  | tooSmall
  deriving DecidableEq, Repr

def IntegerFault.message : IntegerFault → String
  | .empty => "cannot parse integer from empty string"
  | .invalidDigit => "invalid digit found in string"
  | .tooLarge => "number too large to fit in target type"
  | .tooSmall => "number too small to fit in target type"

/-- The value of a decimal digit. -/
def digit? (c : Char) : Option Nat :=
  if c.isDigit then some (c.toNat - '0'.toNat) else none

/-- Takes one more digit into a number, away from zero. -/
def pushDigit (negative : Bool) (value : Int) (c : Char) : Except IntegerFault Int :=
  match digit? c with
  | none => .error .invalidDigit
  | some d =>
      let next := if negative then value * 10 - d else value * 10 + d
      if next < Int64.minValue.toInt then .error .tooSmall
      else if Int64.maxValue.toInt < next then .error .tooLarge
      else .ok next

/-- The number that a run of digits stands for. -/
def readDigits (negative : Bool) : List Char → Except IntegerFault Int
  | [] => .error .invalidDigit
  | digits => digits.foldlM (pushDigit negative) 0

/-- The whole number that a text stands for. -/
def readInt64 (s : String) : Except IntegerFault Int64 :=
  match s.toList with
  | [] => .error .empty
  | '+' :: digits => Int64.ofInt <$> readDigits false digits
  | '-' :: digits => Int64.ofInt <$> readDigits true digits
  | digits => Int64.ofInt <$> readDigits false digits

/-- Why a text is no floating-point literal. -/
inductive FloatFault where
  | empty
  | invalid
  deriving DecidableEq, Repr

def FloatFault.message : FloatFault → String
  | .empty => "cannot parse float from empty string"
  | .invalid => "invalid float literal"

/-- The value of a run of decimal digits. -/
def digitsValue (digits : List Char) : Nat :=
  digits.foldl (fun value c => value * 10 + (c.toNat - '0'.toNat)) 0

/-- The number nearest to `digits * 10 ^ exponent`.  Beyond these exponents the
answer is infinity or zero whatever the digits. -/
def scaled (negative : Bool) (digits : Nat) (exponent : Int) : Double :=
  let size : Int := (Nat.toDigits 10 digits).length
  if digits = 0 ∨ size + exponent < -400 then .ofRank negative 0
  else if 400 < size + exponent then .infinite negative
  else .ofRatio negative (digits * Nat.pow 10 exponent.toNat) (Nat.pow 10 (-exponent).toNat)

/-- The exponent part of a literal, if the text is one. -/
def readExponent : List Char → Option Int
  | [] => some 0
  | e :: rest =>
      if e = 'e' ∨ e = 'E' then
        let (negative, digits) :=
          match rest with
          | '+' :: digits => (false, digits)
          | '-' :: digits => (true, digits)
          | digits => (false, digits)
        if digits.isEmpty || !digits.all Char.isDigit then none
        else
          let size := digitsValue digits
          some (if negative then -size else size)
      else none

/-- A literal without its sign. -/
def readUnsigned (negative : Bool) (cs : List Char) : Option Double :=
  let word := String.ofList (cs.map Char.toLower)
  if word = "inf" ∨ word = "infinity" then some (.infinite negative)
  else if word = "nan" then some .nan
  else
    let whole := cs.takeWhile Char.isDigit
    let afterWhole := cs.dropWhile Char.isDigit
    let (fraction, rest) :=
      match afterWhole with
      | '.' :: tail => (tail.takeWhile Char.isDigit, tail.dropWhile Char.isDigit)
      | _ => ([], afterWhole)
    if whole.isEmpty && fraction.isEmpty then none
    else (readExponent rest).map fun exponent =>
      scaled negative (digitsValue (whole ++ fraction)) (exponent - fraction.length)

/-- The number that a floating-point literal stands for. -/
def readDouble (s : String) : Except FloatFault Double :=
  let answer (r : Option Double) : Except FloatFault Double :=
    match r with
    | some x => .ok x
    | none => .error .invalid
  match s.toList with
  | [] => .error .empty
  | '+' :: rest => answer (readUnsigned false rest)
  | '-' :: rest => answer (readUnsigned true rest)
  | cs => answer (readUnsigned false cs)

end Firestore.Numeral
