/-!
# Write-time transforms

A transform stands in written data for a change that the backend makes when the
write is applied: it removes the field, sets it to the time of the write, adds to
it, or adds and removes elements of it.  A transform travels as a tag and the
list of its operands; `Transform.ofParts?` reads what `tag` and `operands` show.
-/

namespace Firestore

/-- A change of a field that is made when a write is applied. -/
inductive Transform (α : Type) where
  | delete
  | serverTimestamp
  | increment (operand : α)
  | arrayUnion (elements : List α)
  | arrayRemove (elements : List α)
  deriving DecidableEq, Repr

namespace Transform

variable {α : Type}

def tag : Transform α → String
  | .delete => "delete"
  | .serverTimestamp => "serverTimestamp"
  | .increment _ => "increment"
  | .arrayUnion _ => "arrayUnion"
  | .arrayRemove _ => "arrayRemove"

def operands : Transform α → List α
  | .delete | .serverTimestamp => []
  | .increment operand => [operand]
  | .arrayUnion elements | .arrayRemove elements => elements

/-- The transform of a tag and operands; those without operands ignore them. -/
def ofParts? (tag : String) (operands : List α) : Option (Transform α) :=
  match tag, operands with
  | "delete", _ => some .delete
  | "serverTimestamp", _ => some .serverTimestamp
  | "increment", [operand] => some (.increment operand)
  | "arrayUnion", elements => some (.arrayUnion elements)
  | "arrayRemove", elements => some (.arrayRemove elements)
  | _, _ => none

/-- The transform with each operand changed by a function. -/
def map {β : Type} (f : α → β) : Transform α → Transform β
  | .delete => .delete
  | .serverTimestamp => .serverTimestamp
  | .increment operand => .increment (f operand)
  | .arrayUnion elements => .arrayUnion (elements.map f)
  | .arrayRemove elements => .arrayRemove (elements.map f)

def isDelete : Transform α → Bool
  | .delete => true
  | _ => false

/-- What was taken apart can be put together again, though its operands were changed on the way. -/
theorem ofParts?_tag_map {β : Type} (f : α → β) (t : Transform α) :
    ofParts? t.tag (t.operands.map f) = some (t.map f) := by
  cases t <;> rfl

theorem map_congr {f g : α → α} {t : Transform α} (h : ∀ a ∈ t.operands, f a = g a) :
    t.map f = t.map g := by
  cases t <;> simp_all [map, operands]

theorem map_id (t : Transform α) : t.map id = t := by
  cases t <;> simp [map]

end Transform

end Firestore
