/-!
# Made-up document ids

A document that is given no id gets one of twenty letters and digits.  Which
ones is up to a source of numbers; here only their form is fixed.
-/

namespace Firestore

/-- Twenty ASCII letters and digits. -/
structure AutoId where
  chars : List Char
  length_eq : chars.length = 20
  alphanumeric : chars.all Char.isAlphanum = true

namespace AutoId

/-- The letter or digit that a number draws. -/
def pick (n : Nat) : Char :=
  let n := n % 62
  if n < 26 then Char.ofNat (65 + n)
  else if n < 52 then Char.ofNat (97 + (n - 26))
  else Char.ofNat (48 + (n - 52))

theorem isAlphanum_pick (n : Nat) : (pick n).isAlphanum = true := by
  have hall : ∀ m : Fin 62, (pick m.val).isAlphanum = true := by decide
  have hmod : pick n = pick (n % 62) := by simp [pick]
  rw [hmod]
  exact hall ⟨n % 62, Nat.mod_lt _ (by decide)⟩

/-- The id that a sequence of numbers draws. -/
def ofDraws (draw : Nat → Nat) : AutoId where
  chars := (List.range 20).map fun i => pick (draw i)
  length_eq := by simp
  alphanumeric := by simp [isAlphanum_pick]

def text (id : AutoId) : String := String.ofList id.chars

end AutoId

end Firestore
