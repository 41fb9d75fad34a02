import Firestore.Proofs.Rest.RoundTrip
import Firestore.Proofs.Rest.Write

/-!
# What a REST notation can stand for

The contents of an array or a map are looked up by name, so a reading is a leaf, an
array of readings, or the record of readings under their names (`restDecode_cases`).
The notations that are read inside are smaller, which gives an induction over
whatever has been read (`restDecode_induction`).

By it, everything that is read is in order, has no transform in it, and its moments
are normal and in the calendar, so it can be written again.
-/

namespace Firestore

open Value

/-! ## Contents by name -/

/-- A search for a name through some members makes something of what the name holds. -/
private theorem eq_of_search {α : Type} (search : List (String × Json) → α) (name : String)
    (found : Json → α)
    (hcons : ∀ key content rest, search ((key, content) :: rest) =
      if key = name then found content else search rest)
    (members : List (String × Json)) :
    search members = ((Fields.get? members name).map found).getD (search []) := by
  induction members with
  | nil => rfl
  | cons member rest ih =>
      obtain ⟨key, content⟩ := member
      rw [hcons, Fields.get?_cons]
      by_cases hname : key = name
      · rw [if_pos hname, if_pos hname]
        rfl
      · rw [if_neg hname, if_neg hname, ih]

theorem restDecodeValues_eq (members : List (String × Json)) :
    restDecodeValues members =
      match Fields.get? members "values" with
      | some (.array elements) => restDecodeAll 0 elements
      | _ => .ok [] := by
  rw [eq_of_search restDecodeValues "values" _ fun _ _ _ => restDecodeValues.eq_def _]
  cases Fields.get? members "values" with
  | none => rfl
  | some content => cases content <;> rfl

theorem restDecodeFields_eq (members : List (String × Json)) :
    restDecodeFields members =
      match Fields.get? members "fields" with
      | some (.object inner) => Fields.ofList <$> restDecodeMembers inner
      | some _ => .error RestFault.fieldsNotObject.error
      | none => .ok [] := by
  rw [eq_of_search restDecodeFields "fields" _ fun _ _ _ => restDecodeFields.eq_def _]
  cases Fields.get? members "fields" with
  | none => rfl
  | some content => cases content <;> rfl

theorem restDecodeArray_eq (members : List (String × Json)) :
    restDecodeArray members =
      match Fields.get? members TypeName.array.name with
      | some (.object inner) => .array <$> restDecodeValues inner
      | _ => .ok (.array []) := by
  rw [eq_of_search restDecodeArray TypeName.array.name _ fun _ _ _ => restDecodeArray.eq_def _]
  cases Fields.get? members TypeName.array.name with
  | none => rfl
  | some content => cases content <;> rfl

theorem restDecodeMap_eq (members : List (String × Json)) :
    restDecodeMap members =
      match Fields.get? members TypeName.map.name with
      | some (.object inner) => .map <$> restDecodeFields inner
      | some _ => .error RestFault.mapNotObject.error
      | none => .ok (.map []) := by
  rw [eq_of_search restDecodeMap TypeName.map.name _ fun _ _ _ => restDecodeMap.eq_def _]
  cases Fields.get? members TypeName.map.name with
  | none => rfl
  | some content => cases content <;> rfl

/-! ## Readings -/

/-- The readings of some notations. -/
abbrev AreRead (js : List Json) (values : List Value) : Prop :=
  List.Forall₂ (fun j v => restDecode j = .ok v) js values

/-- The readings of some members, under their names. -/
abbrev MembersAreRead (members : List (String × Json)) (fields : List (String × Value)) : Prop :=
  List.Forall₂ (fun member field => field.1 = member.1 ∧ restDecode member.2 = .ok field.2)
    members fields

theorem restDecodeAll_eq_ok {index : Nat} {js : List Json} {values : List Value} :
    restDecodeAll index js = .ok values ↔ AreRead js values :=
  indexed_eq_ok restDecodeAll restDecode (fun _ => rfl) fun _ _ _ => rfl

theorem restDecodeMembers_eq_ok {members : List (String × Json)} {fields : List (String × Value)} :
    restDecodeMembers members = .ok fields ↔ MembersAreRead members fields :=
  named_eq_ok restDecodeMembers restDecode rfl fun _ _ => rfl

section Smaller

variable {members : List (String × Json)}

theorem sizeOf_lt_of_get? {name : String} {j : Json}
    (h : Fields.get? members name = some j) : sizeOf j < sizeOf (Json.object members) := by
  have hmem := List.sizeOf_lt_of_mem (Fields.mem_of_get? h)
  simp only [Prod.mk.sizeOf_spec, Json.object.sizeOf_spec] at hmem ⊢
  omega

theorem sizeOf_lt_of_mem {member : String × Json} (h : member ∈ members) :
    sizeOf member.2 < sizeOf (Json.object members) := by
  have hmem := List.sizeOf_lt_of_mem h
  obtain ⟨name, j⟩ := member
  simp only [Prod.mk.sizeOf_spec, Json.object.sizeOf_spec] at hmem ⊢
  omega

private theorem cases_of_restDecodeArray {v : Value} (h : restDecodeArray members = .ok v) :
    ∃ js elements, v = .array elements ∧ AreRead js elements ∧
      ∀ j ∈ js, sizeOf j < sizeOf (Json.object members) := by
  rw [restDecodeArray_eq] at h
  split at h
  · rename_i inner hinner
    obtain ⟨elements, helements, rfl⟩ := map_eq_ok.mp h
    rw [restDecodeValues_eq] at helements
    split at helements
    · rename_i js hjs
      refine ⟨js, elements, rfl, restDecodeAll_eq_ok.mp helements, fun j hj => ?_⟩
      have hlist := sizeOf_lt_of_get? hjs
      have hcontent := sizeOf_lt_of_get? hinner
      have hj := List.sizeOf_lt_of_mem hj
      rw [Json.array.sizeOf_spec] at hlist
      omega
    · cases helements
      exact ⟨[], [], rfl, .nil, by simp⟩
  · cases h
    exact ⟨[], [], rfl, .nil, by simp⟩

private theorem cases_of_restDecodeFields {fields : Fields Value}
    (h : restDecodeFields members = .ok fields) :
    ∃ inner read, fields = Fields.ofList read ∧ MembersAreRead inner read ∧
      ∀ member ∈ inner, sizeOf member.2 < sizeOf (Json.object members) := by
  rw [restDecodeFields_eq] at h
  split at h
  · rename_i inner hinner
    obtain ⟨read, hread, rfl⟩ := map_eq_ok.mp h
    refine ⟨inner, read, rfl, restDecodeMembers_eq_ok.mp hread, fun member hmember => ?_⟩
    exact (sizeOf_lt_of_mem hmember).trans (sizeOf_lt_of_get? hinner)
  · contradiction
  · cases h
    exact ⟨[], [], rfl, .nil, by simp⟩

private theorem cases_of_restDecodeMap {v : Value} (h : restDecodeMap members = .ok v) :
    ∃ inner read, v = .map (Fields.ofList read) ∧ MembersAreRead inner read ∧
      ∀ member ∈ inner, sizeOf member.2 < sizeOf (Json.object members) := by
  rw [restDecodeMap_eq] at h
  split at h
  · rename_i content hcontent
    obtain ⟨fields, hfields, rfl⟩ := map_eq_ok.mp h
    obtain ⟨inner, read, rfl, hread, hsize⟩ := cases_of_restDecodeFields hfields
    refine ⟨inner, read, rfl, hread, fun member hmember => ?_⟩
    exact (hsize member hmember).trans (sizeOf_lt_of_get? hcontent)
  · contradiction
  · cases h
    exact ⟨[], [], rfl, .nil, by simp⟩

end Smaller

/-- A reading is a leaf, an array of readings of smaller notations, or a record of them. -/
theorem restDecode_cases {j : Json} {v : Value} (h : restDecode j = .ok v) :
    (∃ t content, decodeLeaf t content = .ok v) ∨
    (∃ js elements, v = .array elements ∧ AreRead js elements ∧ ∀ k ∈ js, sizeOf k < sizeOf j) ∨
    ∃ members fields, v = .map (Fields.ofList fields) ∧ MembersAreRead members fields ∧
      ∀ member ∈ members, sizeOf member.2 < sizeOf j := by
  cases j with
  | object members =>
      rw [restDecode] at h
      split at h
      · contradiction
      · exact .inr (.inl (cases_of_restDecodeArray h))
      · exact .inr (.inr (cases_of_restDecodeMap h))
      · exact .inl ⟨_, _, h⟩
  | _ => simp [restDecode] at h

/-- What holds of leaves, and of arrays and maps if it holds inside them, holds of whatever has
been read. -/
theorem restDecode_induction {p : Value → Prop}
    (leaf : ∀ t content v, decodeLeaf t content = .ok v → p v)
    (array : ∀ elements, (∀ v ∈ elements, p v) → p (.array elements))
    (map : ∀ fields, (∀ field ∈ fields, p field.2) → p (.map (Fields.ofList fields)))
    {j : Json} {v : Value} (h : restDecode j = .ok v) : p v := by
  induction hsize : sizeOf j using Nat.strong_induction_on generalizing j v with
  | _ size ih =>
    subst hsize
    rcases restDecode_cases h with ⟨t, content, hleaf⟩ | ⟨js, elements, rfl, hread, hsmaller⟩ |
      ⟨members, fields, rfl, hread, hsmaller⟩
    · exact leaf t content v hleaf
    · apply array
      intro v hv
      obtain ⟨j, hj, hjv⟩ := exists_of_mem_forall₂ hread hv
      exact ih (sizeOf j) (hsmaller j hj) hjv rfl
    · apply map
      intro field hfield
      obtain ⟨member, hmember, -, hvalue⟩ := exists_of_mem_forall₂ hread hfield
      exact ih (sizeOf member.2) (hsmaller member hmember) hvalue rfl

/-! ## What is read can be written -/

/-- A moment in the calendar, its nanoseconds in one second. -/
def Timestamp.IsShown (t : Timestamp) : Prop := t.IsNormal ∧ t.InCalendar

theorem isShown_of_parseTimestamp {text : String} {t : Timestamp}
    (h : parseTimestamp text = .ok t) : t.IsShown := by
  obtain ⟨d, hread, rfl⟩ := parseTimestamp_eq_ok.mp h
  exact ⟨Timestamp.isNormal_normalized _ _,
    Option.isSome_iff_exists.mpr (Rfc3339.exists_toDateTime?_of_read hread)⟩

/-- A value that a REST notation may stand for. -/
structure Value.IsReadable (v : Value) : Prop where
  ordered : v.Ordered
  no_transform : v.hasTransform = false
  times : v.TimesAre Timestamp.IsShown

theorem isReadable_of_decodeLeaf {t : TypeName} {content : Json} {v : Value}
    (h : decodeLeaf t content = .ok v) : v.IsReadable := by
  cases t with
  -- only a moment has something to show; every other leaf holds no transform and no time
  | timestamp =>
      obtain ⟨text, -, h⟩ := bind_eq_ok.mp h
      obtain ⟨t, htime, h⟩ := bind_eq_ok.mp h
      cases h
      exact ⟨trivial, rfl, timesAre_timestamp.mpr (isShown_of_parseTimestamp htime)⟩
  | boolean =>
      cases content with
      | bool b =>
          cases h
          exact ⟨trivial, rfl, trivial⟩
      | _ => contradiction
  | bytes =>
      obtain ⟨text, -, h⟩ := bind_eq_ok.mp h
      cases hbytes : Base64.decodeText text with
      | ok bs =>
          simp only [hbytes] at h
          cases h
          exact ⟨trivial, rfl, trivial⟩
      | error fault =>
          simp only [hbytes] at h
          contradiction
  | geoPoint =>
      obtain ⟨latitude, -, h⟩ := bind_eq_ok.mp h
      obtain ⟨longitude, -, h⟩ := bind_eq_ok.mp h
      obtain ⟨point, -, rfl⟩ := map_eq_ok.mp h
      exact ⟨trivial, rfl, trivial⟩
  | integer | double | string | reference =>
      obtain ⟨found, -, rfl⟩ := map_eq_ok.mp h
      exact ⟨trivial, rfl, trivial⟩
  | null | array | map =>
      cases h
      exact ⟨trivial, rfl, trivial⟩

/-- **Whatever is read is in order, has no transform in it, and shows moments of the calendar.** -/
theorem isReadable_of_restDecode {j : Json} {v : Value} (h : restDecode j = .ok v) :
    v.IsReadable := by
  refine restDecode_induction (fun t content v => isReadable_of_decodeLeaf) ?_ ?_ h
  · intro elements helements
    refine ⟨ordered_array.mpr ?_, hasTransform_array.mpr ?_, timesAre_array.mpr ?_⟩
    · exact fun v hv => (helements v hv).ordered
    · exact fun v hv => (helements v hv).no_transform
    · exact fun v hv => (helements v hv).times
  · intro fields hfields
    have hmem : ∀ field ∈ Fields.ofList fields, field.2.IsReadable :=
      fun field hfield => hfields field (Fields.mem_of_mem_ofList hfield)
    refine ⟨ordered_map.mpr ⟨Fields.sorted_ofList fields, ?_⟩, hasTransform_map.mpr ?_,
      timesAre_map.mpr ?_⟩
    · exact fun field hfield => (hmem field hfield).ordered
    · exact fun field hfield => (hmem field hfield).no_transform
    · exact fun field hfield => (hmem field hfield).times

end Firestore
