/-!
# Integer types

The integer types that a reader can ask for: a width, with or without a sign.
-/

namespace Firestore

/-- An integer type. -/
structure IntType where
  signed : Bool
  bits : Nat
  deriving DecidableEq, Repr

namespace IntType

def i8 : IntType := ⟨true, 8⟩
def i16 : IntType := ⟨true, 16⟩
def i32 : IntType := ⟨true, 32⟩
def i64 : IntType := ⟨true, 64⟩
def i128 : IntType := ⟨true, 128⟩
def u8 : IntType := ⟨false, 8⟩
def u16 : IntType := ⟨false, 16⟩
def u32 : IntType := ⟨false, 32⟩
def u64 : IntType := ⟨false, 64⟩
def u128 : IntType := ⟨false, 128⟩

/-- The name of a type in refusals. -/
def name (t : IntType) : String :=
  (if t.signed then "i" else "u") ++ toString t.bits

/-- All integer types. -/
def all : List IntType := [i8, i16, i32, i64, i128, u8, u16, u32, u64, u128]

/-- The type of a name. -/
def ofName? (name : String) : Option IntType := all.find? fun t => t.name == name

/-- The smallest number of a type. -/
def low (t : IntType) : Int :=
  if t.signed then -(Nat.pow 2 (t.bits - 1) : Nat) else 0

/-- The largest number of a type. -/
def high (t : IntType) : Int :=
  (if t.signed then Nat.pow 2 (t.bits - 1) else Nat.pow 2 t.bits : Nat) - 1

/-- Whether a type holds a number. -/
def holds (t : IntType) (n : Int) : Bool :=
  t.low ≤ n && n ≤ t.high

/-- Whether a type is wider than a machine word. -/
def isWide (t : IntType) : Bool := 64 < t.bits

/-- The words of a type are the numbers that it holds. -/
theorem holds_i64 (n : Int64) : i64.holds n.toInt = true := by
  have hlow := n.le_toInt
  have hhigh := n.toInt_lt
  simp [holds, low, high, i64]
  omega

theorem holds_i32 (n : Int32) : i32.holds n.toInt = true := by
  have hlow := n.le_toInt
  have hhigh := n.toInt_lt
  simp [holds, low, high, i32]
  omega

end IntType

end Firestore
