import Firestore.Value.Everywhere

/-!
# Normal forms

`Value.normalize` brings all moments inside a value into normal form.  It works
through elements, fields and operands (`normalize_array`, `normalize_map`,
`normalize_transform`), and a value all of whose moments are normal is its own
normal form (`normalize_eq_self`).
-/

namespace Firestore

namespace Timestamp

theorem normalized_of_isNormal {t : Timestamp} (h : t.IsNormal) :
    normalized t.seconds t.nanos = t := by
  have hcarry : t.nanos.toInt / nanosPerSecond = 0 := Int.ediv_eq_zero_of_lt h.1 h.2
  have hrest : t.nanos.toInt % nanosPerSecond = t.nanos.toInt := Int.emod_eq_of_lt h.1 h.2
  cases t
  simp_all [normalized, Int64.ofIntClamp_toInt]

end Timestamp

namespace Value

theorem normalizeAll_eq_map (elements : List Value) :
    normalizeAll elements = elements.map normalize := by
  induction elements with
  | nil => rfl
  | cons v rest ih => rw [normalizeAll, ih, List.map_cons]

theorem normalizeFields_eq_map (fields : List (String × Value)) :
    normalizeFields fields = fields.map fun field => (field.1, field.2.normalize) := by
  induction fields with
  | nil => rfl
  | cons field rest ih => rw [normalizeFields, ih, List.map_cons]

theorem normalize_array (elements : List Value) :
    (array elements).normalize = .array (elements.map normalize) := by
  rw [normalize, normalizeAll_eq_map]

theorem normalize_map (fields : List (String × Value)) :
    (map fields).normalize = .map (fields.map fun field => (field.1, field.2.normalize)) := by
  rw [normalize, normalizeFields_eq_map]

theorem normalize_transform (t : Transform Value) :
    (transform t).normalize = .transform (t.map normalize) := by
  cases t <;> simp [normalize, normalizeAll_eq_map, Transform.map]

/-- A value whose moments are all normal is its own normal form. -/
theorem normalize_eq_self {v : Value} (h : v.TimesAre Timestamp.IsNormal) : v.normalize = v := by
  induction v with
  | timestamp t =>
      rw [normalize, Timestamp.normalize, Timestamp.normalized_of_isNormal (by simpa using h)]
  | array elements ih =>
      rw [timesAre_array] at h
      rw [normalize_array, List.map_congr_left fun v hv => ih v hv (h v hv), List.map_id']
  | map fields ih =>
      rw [timesAre_map] at h
      have hfields : ∀ field ∈ fields, (field.1, field.2.normalize) = field :=
        fun field hfield => Prod.ext rfl (ih field hfield (h field hfield))
      rw [normalize_map, List.map_congr_left hfields, List.map_id']
  | transform t ih =>
      rw [timesAre_transform] at h
      rw [normalize_transform, Transform.map_congr fun v hv => ih v hv (h v hv)]
      exact congrArg Value.transform t.map_id
  | _ => rfl

/-- The names of fields do not change in the normal form. -/
theorem sorted_normalize {fields : Fields Value} (h : Fields.Sorted fields) :
    Fields.Sorted (fields.map fun field => (field.1, field.2.normalize)) :=
  List.pairwise_map.mpr h

end Value

end Firestore
