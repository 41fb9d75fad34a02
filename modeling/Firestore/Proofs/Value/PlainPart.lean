import Firestore.Proofs.Value.Leaves

/-!
# The plain part of a value

The plain part of a value has the leaves that are no transforms (`leaves_plainPart`);
a leaf that is no transform is its own plain part.
-/

namespace Firestore

namespace Leaf

def isTransform (leaf : Leaf) : Bool := leaf.value.isTransform

def isPlain (leaf : Leaf) : Bool := !leaf.isTransform

@[simp]
theorem isTransform_under (key : String) (leaf : Leaf) :
    (leaf.under key).isTransform = leaf.isTransform := rfl

@[simp]
theorem isPlain_under (key : String) (leaf : Leaf) : (leaf.under key).isPlain = leaf.isPlain := rfl

theorem filter_map_under {p : Leaf → Bool} {key : String}
    (hp : ∀ leaf : Leaf, p (leaf.under key) = p leaf) (leaves : List Leaf) :
    (leaves.map (under key)).filter p = (leaves.filter p).map (under key) := by
  rw [List.filter_map]
  exact congrArg _ (List.filter_congr fun leaf _ => hp leaf)

end Leaf

namespace Value

theorem plainPart_eq_self {v : Value} (hfields : v.hasFields = false)
    (hkind : v.isTransform = false) : v.plainPart = some v := by
  cases v with
  | map fields =>
      cases fields with
      | nil => rfl
      | cons first rest => contradiction
  | transform t => contradiction
  | _ => rfl

theorem plainPart_map {fields : List (String × Value)} (h : fields ≠ []) :
    (map fields).plainPart =
      if (plainFields fields).isEmpty then none else some (.map (plainFields fields)) := by
  cases fields with
  | nil => exact absurd rfl h
  | cons first rest =>
      rw [plainPart]
      split
      · rename_i hnil
        simp [hnil]
      · rename_i kept hne
        rw [if_neg]
        simpa using hne

theorem plainFields_cons (key : String) (v : Value) (rest : List (String × Value)) :
    plainFields ((key, v) :: rest) =
      v.plainPart.elim (plainFields rest) fun w => (key, w) :: plainFields rest := by
  rw [plainFields]
  cases v.plainPart <;> rfl

private theorem fieldLeaves_plainFields_of {fields : List (String × Value)}
    (h : ∀ field ∈ fields, field.2.plainPart.elim [] leaves = field.2.leaves.filter Leaf.isPlain) :
    fieldLeaves (plainFields fields) = (fieldLeaves fields).filter Leaf.isPlain := by
  induction fields with
  | nil => rfl
  | cons field rest ih =>
      obtain ⟨key, v⟩ := field
      obtain ⟨hv, hrest⟩ := List.forall_mem_cons.mp h
      rw [fieldLeaves, List.filter_append, Leaf.filter_map_under (Leaf.isPlain_under key), ← hv,
        ← ih hrest, plainFields_cons]
      cases v.plainPart <;> rfl

/-- The plain part of a value has the leaves that are no transforms. -/
theorem leaves_plainPart (v : Value) :
    v.plainPart.elim [] leaves = v.leaves.filter Leaf.isPlain := by
  induction v with
  | map fields ih =>
      by_cases hnil : fields = []
      · subst hnil
        rfl
      · rw [plainPart_map hnil, leaves_map hnil, ← fieldLeaves_plainFields_of ih]
        split
        · rename_i hempty
          rw [List.isEmpty_iff.mp hempty]
          rfl
        · rename_i hne
          exact leaves_map fun hempty => hne (by rw [hempty]; rfl)
  | _ => rfl

theorem fieldLeaves_plainFields (fields : List (String × Value)) :
    fieldLeaves (plainFields fields) = (fieldLeaves fields).filter Leaf.isPlain :=
  fieldLeaves_plainFields_of fun field _ => leaves_plainPart field.2

end Value

end Firestore
