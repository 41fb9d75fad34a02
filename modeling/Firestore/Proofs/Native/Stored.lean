import Firestore.Native.Encoding
import Firestore.Proofs.Fields
import Firestore.Proofs.Steps
import Firestore.Proofs.Value.Normal
import Mathlib.Algebra.Group.Int.Defs
import Mathlib.Algebra.Group.Nat.Defs

/-!
# Stored values as native data

A value shows itself as native data with its leaves in wrappers of reserved names.
Writing that data again unwraps the leaves, so the value comes back in normal form
(`encode_ofValue`).
-/

namespace Firestore

/-! ## Words -/

theorem int64?_eq (n : Int) :
    int64? n = if -2 ^ 63 ≤ n ∧ n < 2 ^ 63 then some (.ofInt n) else none := by
  have hmin : Int64.minValue.toInt = -2 ^ 63 := Int64.toInt_minValue
  have hmax : Int64.maxValue.toInt = 2 ^ 63 - 1 := Int64.toInt_maxValue
  exact if_congr (by omega) rfl rfl

theorem int32?_eq (n : Int) :
    int32? n = if -2 ^ 31 ≤ n ∧ n < 2 ^ 31 then some (.ofInt n) else none := by
  have hmin : Int32.minValue.toInt = -2 ^ 31 := Int32.toInt_minValue
  have hmax : Int32.maxValue.toInt = 2 ^ 31 - 1 := Int32.toInt_maxValue
  exact if_congr (by omega) rfl rfl

theorem int64?_eq_some {n : Int} (hlow : -2 ^ 63 ≤ n) (hhigh : n < 2 ^ 63) :
    int64? n = some (.ofInt n) := by
  rw [int64?_eq, if_pos ⟨hlow, hhigh⟩]

theorem int32?_eq_some {n : Int} (hlow : -2 ^ 31 ≤ n) (hhigh : n < 2 ^ 31) :
    int32? n = some (.ofInt n) := by
  rw [int32?_eq, if_pos ⟨hlow, hhigh⟩]

theorem int64?_eq_none {n : Int} : int64? n = none ↔ ¬ (-2 ^ 63 ≤ n ∧ n < 2 ^ 63) := by
  rw [int64?_eq, ite_eq_right_iff]
  simp only [reduceCtorEq, imp_false]

theorem int32?_eq_none {n : Int} : int32? n = none ↔ ¬ (-2 ^ 31 ≤ n ∧ n < 2 ^ 31) := by
  rw [int32?_eq, ite_eq_right_iff]
  simp only [reduceCtorEq, imp_false]

theorem int64?_toInt (n : Int64) : int64? n.toInt = some n := by
  rw [int64?_eq_some n.le_toInt n.toInt_lt, Int64.ofInt_toInt]

theorem int32?_toInt (n : Int32) : int32? n.toInt = some n := by
  rw [int32?_eq_some n.le_toInt n.toInt_lt, Int32.ofInt_toInt]

namespace Native

/-! ## Leaves -/

theorem encode_ofTimestamp (t : Timestamp) :
    (ofTimestamp t).encode = .ok (.timestamp t.normalize) := by
  have hnanos : int64? t.nanos.toInt = some t.nanos.toInt64 := by
    rw [← Int32.toInt_toInt64, int64?_toInt]
  simp [ofTimestamp, encode, encodeAll, int64?_toInt, hnanos, Marker.ofName?_name, Value.leaf,
    int32?_toInt, Timestamp.normalize]

theorem encode_ofGeoPoint (p : GeoPoint) : (ofGeoPoint p).encode = .ok (.geoPoint p) := by
  simp [ofGeoPoint, encode, encodeAll, Marker.ofName?_name, Value.leaf, Value.double?,
    GeoPoint.make_coordinates]

theorem encode_ofBytes (bs : List UInt8) : (ofBytes bs).encode = .ok (.bytes bs) := by
  simp [ofBytes, encode, Marker.ofName?_name, Value.leaf]

theorem encode_ofReference (name : String) :
    (ofReference name).encode = .ok (.reference name) := by
  simp [ofReference, encode, Marker.ofName?_name, Value.leaf]

/-! ## Whole values -/

theorem ofValues_eq_map (elements : List Value) : ofValues elements = elements.map ofValue := by
  induction elements with
  | nil => rfl
  | cons v rest ih => rw [ofValues, ih, List.map_cons]

theorem ofFields_eq_map (fields : List (String × Value)) :
    ofFields fields = fields.map fun field => (.text field.1, ofValue field.2) := by
  induction fields with
  | nil => rfl
  | cons field rest ih => rw [ofFields, ih, List.map_cons]

theorem ofValue_transform (t : Transform Value) :
    ofValue (.transform t) = ofTransform t.tag (ofValues t.operands) := by
  cases t <;> rfl

/-- Items that make values one by one make them together. -/
theorem encodeAll_map {β : Type} {write : β → Native} {result : β → Value} {items : List β}
    (h : ∀ item ∈ items, (write item).encode = .ok (result item)) (index : Nat) :
    encodeAll index (items.map write) = .ok (items.map result) := by
  induction items generalizing index with
  | nil => rfl
  | cons item rest ih =>
      rw [List.forall_mem_cons] at h
      simp [encodeAll, h.1, ih h.2]

/-- Entries whose keys are texts and that make values one by one make fields together. -/
theorem encodeEntries_map {β : Type} {name : β → String} {write : β → Native} {result : β → Value}
    {items : List β} (h : ∀ item ∈ items, (write item).encode = .ok (result item)) :
    encodeEntries (items.map fun item => (.text (name item), write item)) =
      .ok (items.map fun item => (name item, result item)) := by
  induction items with
  | nil => rfl
  | cons item rest ih =>
      rw [List.forall_mem_cons] at h
      simp [encodeEntries, key, h.1, ih h.2]

/-- **A value, written again, is its own normal form.** -/
theorem encode_ofValue {v : Value} (h : v.Ordered) : (ofValue v).encode = .ok v.normalize := by
  induction v with
  | array elements ih =>
      rw [Value.ordered_array] at h
      rw [ofValue, encode, ofValues_eq_map, encodeAll_map fun v hv => ih v hv (h v hv),
        Value.normalize_array]
      rfl
  | map fields ih =>
      obtain ⟨hsorted, hfields⟩ := Value.ordered_map.mp h
      rw [ofValue, encode, ofFields_eq_map,
        encodeEntries_map fun field hfield => ih field hfield (hfields field hfield),
        ok_bind, pure_eq_ok, Fields.ofList_eq_self (Value.sorted_normalize hsorted),
        Value.normalize_map]
  | transform t ih =>
      rw [Value.ordered_transform] at h
      have hoperands := encodeAll_map (fun v hv => ih v hv (h v hv)) 0
      rw [ofValue_transform, ofValues_eq_map]
      simp [ofTransform, encode, encodeAll, hoperands, Marker.ofName?_name, Value.leaf,
        Transform.ofParts?_tag_map, Value.normalize_transform]
  -- each kind of leaf goes through the wrapper of its name
  | timestamp t => exact encode_ofTimestamp t
  | bytes bs => exact encode_ofBytes bs
  | reference name => exact encode_ofReference name
  | geoPoint p => exact encode_ofGeoPoint p
  | integer n => simp [ofValue, encode, int64?_toInt, Value.normalize]
  | _ => rfl

end Native

end Firestore
