import Firestore.Value

/-!
# Leaves of nested maps

A leaf is what is reached through maps only and is not itself a map with fields:
an array, a transform and an empty map are leaves.  `Value.leaves` lists them with
the keys that lead to them, in the order of the data.  Two paths are apart if
neither leads to the other; no two leaves of a record lie on one path.  What is left
of a value without the leaves that are transforms is its plain part.
-/

namespace Firestore

/-- What stands at the end of some keys. -/
structure Leaf where
  path : List String
  value : Value

namespace Leaf

/-- A leaf of a map, seen from the record that holds the map under a name. -/
def under (key : String) (leaf : Leaf) : Leaf := ⟨key :: leaf.path, leaf.value⟩

/-- A leaf of a map, seen from the record that holds the map at the end of some keys. -/
def below (parent : List String) (leaf : Leaf) : Leaf := ⟨parent ++ leaf.path, leaf.value⟩

@[simp]
theorem path_under (key : String) (leaf : Leaf) : (leaf.under key).path = key :: leaf.path := rfl

@[simp]
theorem value_under (key : String) (leaf : Leaf) : (leaf.under key).value = leaf.value := rfl

@[simp]
theorem below_nil (leaf : Leaf) : leaf.below [] = leaf := rfl

@[simp]
theorem below_under (parent : List String) (key : String) (leaf : Leaf) :
    (leaf.under key).below parent = leaf.below (parent ++ [key]) := by
  simp [under, below]

end Leaf

/-- Neither of two paths leads to the other. -/
def Apart (p q : List String) : Prop := ¬ p <+: q ∧ ¬ q <+: p

namespace Value

/-- Whether a value is a map that is not empty. -/
def hasFields : Value → Bool
  | .map (_ :: _) => true
  | _ => false

mutual

/-- The leaves of a value. -/
def leaves : Value → List Leaf
  | .map (first :: rest) => fieldLeaves (first :: rest)
  | v => [⟨[], v⟩]

/-- The leaves of some fields. -/
def fieldLeaves : List (String × Value) → List Leaf
  | [] => []
  | (key, v) :: rest => v.leaves.map (Leaf.under key) ++ fieldLeaves rest

end

mutual

/-- A value without the transforms in its maps.  Nothing is left of a transform, nor of a map
that held nothing else. -/
def plainPart : Value → Option Value
  | .transform _ => none
  | .map (first :: rest) =>
      match plainFields (first :: rest) with
      | [] => none
      | kept => some (.map kept)
  | v => some v

/-- The fields of which something is left, without the transforms in them. -/
def plainFields : List (String × Value) → List (String × Value)
  | [] => []
  | (key, v) :: rest =>
      match v.plainPart with
      | some w => (key, w) :: plainFields rest
      | none => plainFields rest

end

theorem leaves_eq_self {v : Value} (h : v.hasFields = false) : v.leaves = [⟨[], v⟩] := by
  unfold hasFields at h
  split at h
  · contradiction
  · rename_i hnot
    rw [leaves]
    exact fun first rest heq => hnot first rest heq

theorem leaves_map {fields : List (String × Value)} (h : fields ≠ []) :
    (map fields).leaves = fieldLeaves fields := by
  cases fields with
  | nil => exact absurd rfl h
  | cons first rest => rw [leaves]

end Value

end Firestore
