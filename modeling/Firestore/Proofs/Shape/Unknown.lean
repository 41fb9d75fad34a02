import Firestore.Proofs.Shape.Failures

/-!
# Unknown fields make no difference

A record that neither refuses nor gathers what it does not know passes over the value under
an unknown name without a question.  So it reads the fields of a document as it reads those
among them that it knows (`record_known`), and a field more or less that it does not know
changes neither what is read nor what is refused (`record_insert_unknown`).
-/

namespace Firestore

namespace Reader

variable {fields : List FieldReader}

/-- A record that is not strict has no field under an unknown name, and does not mind. -/
theorem fieldAt_unknown {name : String} (h : name ∉ fields.map FieldReader.name) :
    fieldAt fields false .storedName (.text name) = .ok none := by
  have hfind : (fields.map FieldReader.name).findIdx? (· == name) = none := by
    rw [List.findIdx?_eq_none_iff]
    intro other hother
    exact beq_false_of_ne fun heq => h (heq ▸ hother)
  rw [fieldAt, place_name, hfind]
  rfl

/-- Whatever stands under an unknown name is passed over. -/
theorem fieldEntries_cons_unknown {name : String} (h : name ∉ fields.map FieldReader.name)
    (v : Value) (rest : Fields Value) (seen : List (String × Datum)) :
    fieldEntries fields false .stored seen (Source.ofFields ((name, v) :: rest)) =
      fieldEntries fields false .stored seen (Source.ofFields rest) := by
  have hskip : (Source.ofValue v).answer .stored .skip = .ok .unit := rfl
  rw [Source.ofFields, fieldEntries]
  show (fieldAt fields false .storedName (.text name) >>= _) = _
  rw [fieldAt_unknown h, ok_bind]
  show ((Source.ofValue v).answer .stored .skip >>= _) = _
  rw [hskip, ok_bind]

/-- The fields of a document that a record knows. -/
def known (fields : List FieldReader) (stored : Fields Value) : Fields Value :=
  stored.filter fun pair => pair.1 ∈ fields.map FieldReader.name

theorem known_cons_of_mem {name : String} (h : name ∈ fields.map FieldReader.name) (v : Value)
    (rest : Fields Value) : known fields ((name, v) :: rest) = (name, v) :: known fields rest :=
  List.filter_cons_of_pos (by simpa using h)

theorem known_cons_of_not_mem {name : String} (h : name ∉ fields.map FieldReader.name) (v : Value)
    (rest : Fields Value) : known fields ((name, v) :: rest) = known fields rest :=
  List.filter_cons_of_neg (by simpa using h)

/-- The known fields are read as if they were alone. -/
theorem fieldEntries_known (stored : Fields Value) (seen : List (String × Datum)) :
    fieldEntries fields false .stored seen (Source.ofFields stored) =
      fieldEntries fields false .stored seen (Source.ofFields (known fields stored)) := by
  -- on the stored fields; what has been seen so far decides what a known field does next
  induction stored generalizing seen with
  | nil => rfl
  | cons pair rest ih =>
      obtain ⟨name, v⟩ := pair
      by_cases hname : name ∈ fields.map FieldReader.name
      · rw [known_cons_of_mem hname, Source.ofFields, Source.ofFields, fieldEntries, fieldEntries]
        simp only [ih]
      · rw [known_cons_of_not_mem hname, fieldEntries_cons_unknown hname, ih]

/-- **A record depends on no field that it does not know.** -/
theorem record_known (name : String) (fields : List FieldReader) (stored : Fields Value) :
    record name fields false .stored (.ofValue (.map stored)) =
      record name fields false .stored (.ofValue (.map (known fields stored))) := by
  show (fieldEntries fields false .stored [] (Source.ofFields stored) >>= fun seen =>
    Datum.record <$> collect seen fields) = _
  rw [fieldEntries_known]
  rfl

/-- A field under an unknown name is not among the known ones. -/
theorem known_insert {k : String} (h : k ∉ fields.map FieldReader.name) (stored : Fields Value)
    (x : Value) : known fields (stored.insert k x) = known fields stored := by
  induction stored with
  | nil => exact known_cons_of_not_mem h x []
  | cons pair rest ih =>
      obtain ⟨name, v⟩ := pair
      unfold Fields.insert
      split
      · rename_i hsame
        subst hsame
        rw [known_cons_of_not_mem h, known_cons_of_not_mem h]
      · split
        · exact known_cons_of_not_mem h x _
        · by_cases hname : name ∈ fields.map FieldReader.name
          · rw [known_cons_of_mem hname, known_cons_of_mem hname, ih]
          · rw [known_cons_of_not_mem hname, known_cons_of_not_mem hname, ih]

/-- A field under an unknown name changes nothing, however the known ones are read. -/
theorem record_insert_unknown (name : String) {k : String} (h : k ∉ fields.map FieldReader.name)
    (stored : Fields Value) (x : Value) :
    record name fields false .stored (.ofValue (.map (stored.insert k x))) =
      record name fields false .stored (.ofValue (.map stored)) := by
  rw [record_known, known_insert h, ← record_known]

end Reader

namespace Shape

/-- **Unknown fields cannot influence a record.**  Whatever is stored under a name that the record
does not have, the fields of a document are read as the same data, or refused with the same error.
So it is for fields with the readers of shapes, and with any others. -/
theorem decodeFields_insert_unknown (name : String) (stored : Fields Value) (k : String)
    (x : Value) :
    (∀ fields : List (Field Shape), (∀ field ∈ fields, field.name ≠ k) →
      (Shape.record name fields false).decodeFields (stored.insert k x) =
        (Shape.record name fields false).decodeFields stored) ∧
    ∀ readers : List FieldReader, (∀ field ∈ readers, field.name ≠ k) →
      Reader.record name readers false .stored (.ofValue (.map (stored.insert k x))) =
        Reader.record name readers false .stored (.ofValue (.map stored)) := by
  constructor
  · intro fields h
    refine Reader.record_insert_unknown name ?_ stored x
    rw [fieldReaders_names]
    intro hmem
    obtain ⟨field, hfield, heq⟩ := List.mem_map.mp hmem
    exact h field hfield heq
  · intro readers h
    refine Reader.record_insert_unknown name ?_ stored x
    intro hmem
    obtain ⟨field, hfield, heq⟩ := List.mem_map.mp hmem
    exact h field hfield heq

/-- Before, between and after the fields of a person stands what a person does not have: data that
can be read, data that is refused, and a field whose own reader refuses everything. -/
theorem decodeFields_insert_unknown_person :
    let fields : List (Field Shape) := [⟨"name", .text, none⟩, ⟨"age", .int .u8, none⟩]
    let odd : Value := .transform (.arrayUnion [.map [(Marker.bytes.name, .timestamp ⟨0, -1⟩)]])
    let person (age : Value) : Fields Value := [("age", age), ("name", .string "Ada")]
    let never : List FieldReader := [⟨"name", Reader.never, none, none⟩]
    (∀ field ∈ fields, field.name ≠ Marker.timestamp.name) ∧
      (Shape.record "Person" fields false).decodeFields
          ((person (.integer 36)).insert Marker.timestamp.name odd) =
        .ok (.record [("name", .text "Ada"), ("age", .int 36)]) ∧
      (Shape.record "Person" fields false).decodeFields ((person .null).insert "b" odd) =
        .error ⟨.typeMismatch, "Expected an integer, found null", ["age"]⟩ ∧
      Reader.record "Person" never false .stored (.ofValue (.map ((person .null).insert "z" odd))) =
        .error ⟨.invalidArgument, "no data has this shape", ["name"]⟩ := by
  intro fields odd person never
  have hreserved : ∀ field ∈ fields, field.name ≠ Marker.timestamp.name := by decide
  refine ⟨hreserved, ?_, ?_, ?_⟩
  · exact ((decodeFields_insert_unknown "Person" (person (.integer 36)) _ odd).1 fields
      hreserved).trans rfl
  · exact ((decodeFields_insert_unknown "Person" (person .null) "b" odd).1 fields
      (by decide)).trans rfl
  · exact ((decodeFields_insert_unknown "Person" (person .null) "z" odd).2 never
      (by simp [never])).trans rfl

end Shape

end Firestore
