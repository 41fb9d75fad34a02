import Firestore.Proofs.Fields
import Firestore.Value.Everywhere
import Firestore.Value.Place

/-!
# Values without transforms

A value has no transform when none of its elements or fields has one.  Reading and
writing along a path keep a record free of transforms.
-/

namespace Firestore.Value

theorem anyTransform_eq_false {elements : List Value} :
    anyTransform elements = false ↔ ∀ v ∈ elements, v.hasTransform = false := by
  induction elements with
  | nil => simp [anyTransform]
  | cons v rest ih => simp [anyTransform, ih]

theorem anyFieldTransform_eq_false {fields : List (String × Value)} :
    anyFieldTransform fields = false ↔ ∀ field ∈ fields, field.2.hasTransform = false := by
  induction fields with
  | nil => simp [anyFieldTransform]
  | cons field rest ih => simp [anyFieldTransform, ih]

theorem hasTransform_array {elements : List Value} :
    (array elements).hasTransform = false ↔ ∀ v ∈ elements, v.hasTransform = false := by
  rw [hasTransform, anyTransform_eq_false]

theorem hasTransform_map {fields : List (String × Value)} :
    (map fields).hasTransform = false ↔ ∀ field ∈ fields, field.2.hasTransform = false := by
  rw [hasTransform, anyFieldTransform_eq_false]

/-! ## Along a path -/

theorem hasTransform_of_get? {fields : Fields Value} (h : anyFieldTransform fields = false)
    {key : String} {v : Value} (hget : fields.get? key = some v) : v.hasTransform = false :=
  anyFieldTransform_eq_false.mp h (key, v) (Fields.mem_of_get? hget)

theorem anyFieldTransform_inner {fields : Fields Value} (h : anyFieldTransform fields = false)
    (key : String) : anyFieldTransform (fields.inner key) = false := by
  unfold Fields.inner
  split
  · rename_i inside hget
    exact hasTransform_of_get? h hget
  · rfl

theorem anyFieldTransform_insert {fields : Fields Value} (h : anyFieldTransform fields = false)
    (key : String) {v : Value} (hv : v.hasTransform = false) :
    anyFieldTransform (fields.insert key v) = false := by
  rw [anyFieldTransform_eq_false] at h ⊢
  intro field hfield
  rcases Fields.mem_insert hfield with rfl | hold
  · exact hv
  · exact h field hold

theorem anyFieldTransform_setAt {fields : Fields Value} (h : anyFieldTransform fields = false)
    (path : List String) {v : Value} (hv : v.hasTransform = false) :
    anyFieldTransform (fields.setAt path v) = false := by
  induction path generalizing fields with
  | nil => exact h
  | cons key rest ih =>
      cases rest with
      | nil => exact anyFieldTransform_insert h key hv
      | cons next rest =>
          exact anyFieldTransform_insert h key (ih (anyFieldTransform_inner h key))

theorem hasTransform_of_getAt {fields : Fields Value} (h : anyFieldTransform fields = false)
    {path : List String} {v : Value} (hget : fields.getAt path = some v) :
    v.hasTransform = false := by
  fun_induction Fields.getAt fields path with
  | case1 => contradiction
  | case2 fields key => exact hasTransform_of_get? h hget
  | case3 fields key next rest inside hinside ih => exact ih (hasTransform_of_get? h hinside) hget
  | case4 => contradiction

end Firestore.Value
