import Firestore.Proofs.Fields
import Firestore.Proofs.Steps
import Firestore.Proofs.Value.Normal
import Firestore.Shape.Reading

/-!
# Any value reads as itself

A reader that takes any value is shown something it knows: scalars, sequences and
maps.  A leaf is shown as a map whose one entry has a reserved name, and a map that
starts with a reserved name is shown inside an entry of its own.  `acceptValue` is
what the reader makes of the things it is shown, told apart by nothing but the
first name of a map; `readValue_eq_acceptValue` says that this is all that reading
a stored value comes to.

Hence what is shown and what is taken agree (`readValue_ofValue`): whatever names
the maps of a value have, at whatever depth, the value read is its normal form.
-/

namespace Firestore.Source

open Value

/-! ## Shown and taken -/

/-- What a reader of any value makes of a map, by the first name in it. -/
def acceptEntries (format : Format) : List (Source × Source) → Except Error Value
  | [] => .ok (.map [])
  | (k, s) :: rest => do
      let name ← readText format.keys k
      match Marker.ofName? name with
      | some m => do
          let v ← format.locate name (readLeaf format m s)
          format.finish 1 rest.length "map"
          return v
      | none =>
          if name = Marker.literalMap then do
            let v ← format.locate name (readLiteral format s)
            format.finish 1 rest.length "map"
            return v
          else do
            let fields ← readEntries format ((k, s) :: rest)
            return .map (Fields.ofList fields)

/-- What a reader of any value makes of what it is shown. -/
def acceptValue (format : Format) : Shown → Except Error Value
  | .unit | .absent => .ok .null
  | .present inner | .wrapper inner => readValue format inner
  | .bool b => .ok (.boolean b)
  | .int n => .ok (.integer (.ofInt n))
  | .word n => integerOfWord (.ofNat n)
  | .double x => .ok (.double x)
  | .text s => .ok (.string s)
  | .bytes _ bs => .ok (.bytes bs)
  | .seq items => .array <$> readValues format 0 items
  | .map entries => acceptEntries format entries
  | .illFormed => .error illFormed

@[simp]
theorem readText_text (format : Format) (s : String) : readText format (.text s) = .ok s := by
  cases format <;> rfl

@[simp]
theorem startsReserved_text (name : String) (s : Source) (rest : List (Source × Source)) :
    startsReserved ((.text name, s) :: rest) = Marker.isReserved name := rfl

private theorem ofName?_literalMap : Marker.ofName? Marker.literalMap = none := by decide

private theorem readValue_leaf (m : Marker) (content : Source) :
    readValue .stored (.leaf m content) =
      acceptEntries .stored [(.text m.name, content)] := by
  simp only [readValue, acceptEntries, Format.keys, readText_text, ok_bind, Marker.ofName?_name]
  cases Format.stored.locate m.name (readLeaf .stored m content) <;> rfl

/-- A map that starts with a reserved name is shown inside an entry, and is taken out of it. -/
private theorem readValue_map_reserved {k : String} (hk : Marker.isReserved k = true)
    (s : Source) (rest : List (Source × Source)) :
    readValue .stored (.map ((.text k, s) :: rest)) =
      acceptEntries .stored [(.text Marker.literalMap, .map ((.text k, s) :: rest))] := by
  simp only [readValue, acceptEntries, Format.keys, readText_text, ok_bind, ofName?_literalMap,
    startsReserved_text, hk, readLiteral, Format.locate, if_true, and_self]
  cases readEntries .stored ((.text k, s) :: rest) <;> rfl

private theorem readValue_map_plain {k : String} (hk : Marker.isReserved k = false)
    (s : Source) (rest : List (Source × Source)) :
    readValue .stored (.map ((.text k, s) :: rest)) =
      acceptEntries .stored ((.text k, s) :: rest) := by
  obtain ⟨hnone, hliteral⟩ := Marker.isReserved_eq_false.mp hk
  simp [readValue, acceptEntries, hk, hnone, hliteral]

/-- Reading a stored value is taking what is shown of it. -/
theorem readValue_eq_acceptValue (v : Value) :
    readValue .stored (ofValue v) = acceptValue .stored ((ofValue v).shown .stored) := by
  cases v with
  | timestamp t => exact readValue_leaf _ _
  | reference name => exact readValue_leaf _ _
  | geoPoint p => exact readValue_leaf _ _
  | transform t => cases t <;> exact readValue_leaf _ _
  | integer n => simp [ofValue, readValue, buffer, scalarValue, shown, acceptValue]
  | array elements => rfl
  | map fields =>
      cases fields with
      | nil => rfl
      | cons field rest =>
          obtain ⟨k, v⟩ := field
          rw [ofValue, ofFields]
          cases hk : Marker.isReserved k with
          | true => simpa [shown, hk, acceptValue] using readValue_map_reserved hk _ _
          | false => simpa [shown, hk, acceptValue] using readValue_map_plain hk _ _
  | _ => rfl

/-! ## The whole value -/

theorem ofValues_eq_map (elements : List Value) : ofValues elements = elements.map ofValue := by
  induction elements with
  | nil => rfl
  | cons v rest ih => rw [ofValues, ih, List.map_cons]

theorem ofFields_eq_map (fields : List (String × Value)) :
    ofFields fields = fields.map fun field => (.text field.1, ofValue field.2) := by
  induction fields with
  | nil => rfl
  | cons field rest ih => rw [ofFields, ih, List.map_cons]

theorem ofValue_transform (t : Transform Value) :
    ofValue (.transform t) = ofTransform t.tag (ofValues t.operands) := by
  cases t <;> rfl

/-- Elements that read as their normal forms one by one do so together. -/
private theorem readValues_ofValues {elements : List Value}
    (h : ∀ v ∈ elements, readValue .stored (ofValue v) = .ok v.normalize) (index : Nat) :
    readValues .stored index (ofValues elements) = .ok (elements.map Value.normalize) := by
  induction elements generalizing index with
  | nil => rfl
  | cons v rest ih =>
      rw [List.forall_mem_cons] at h
      simp [ofValues, readValues, h.1, ih h.2]

private theorem readEntries_ofFields {fields : List (String × Value)}
    (h : ∀ field ∈ fields, readValue .stored (ofValue field.2) = .ok field.2.normalize) :
    readEntries .stored (ofFields fields) =
      .ok (fields.map fun field => (field.1, field.2.normalize)) := by
  induction fields with
  | nil => rfl
  | cons field rest ih =>
      rw [List.forall_mem_cons] at h
      simp [ofFields, readEntries, h.1, ih h.2]

/-- Fields that read as their normal forms make the normal form of their map. -/
private theorem readEntries_map {fields : List (String × Value)} (hsorted : Fields.Sorted fields)
    (h : ∀ field ∈ fields, readValue .stored (ofValue field.2) = .ok field.2.normalize) :
    (do
      let read ← readEntries .stored (ofFields fields)
      return Value.map (Fields.ofList read)) = .ok (Value.map fields).normalize := by
  rw [readEntries_ofFields h, ok_bind, pure_eq_ok, Fields.ofList_eq_self (sorted_normalize hsorted),
    normalize_map]

private theorem acceptEntries_ofFields {fields : List (String × Value)}
    (hsorted : Fields.Sorted fields)
    (h : ∀ field ∈ fields, readValue .stored (ofValue field.2) = .ok field.2.normalize) :
    acceptValue .stored ((ofValue (.map fields)).shown .stored) =
      .ok (Value.map fields).normalize := by
  have hread := readEntries_map hsorted h
  cases fields with
  | nil => rfl
  | cons field rest =>
      obtain ⟨k, v⟩ := field
      cases hk : Marker.isReserved k with
      | true =>
          -- shown inside an entry of its own, whose content is read as fields at once
          have hnone := ofName?_literalMap
          simp_all [ofValue, ofFields, shown, acceptValue, acceptEntries, readLiteral]
      | false =>
          obtain ⟨hnone, hliteral⟩ := Marker.isReserved_eq_false.mp hk
          simp_all [ofValue, ofFields, shown, acceptValue, acceptEntries]

/-! ## Leaves -/

theorem timestampContent_parts (t : Timestamp) :
    timestampContent .stored (.seq [.int t.seconds, .int t.nanos.toInt64]) = .ok t.normalize := by
  simp [timestampContent, readPair, readTwo, readSeconds, readNanos, readInt, answer, storedAnswer,
    acceptInt, IntType.holds_i64, IntType.holds_i32, Timestamp.normalize]

theorem geoPointContent_parts (p : GeoPoint) :
    geoPointContent .stored (.seq [.double p.latitude, .double p.longitude]) = .ok p := by
  simp [geoPointContent, readPair, readTwo, readDouble, answer, storedAnswer,
    GeoPoint.make_coordinates]

/-- A transform whose operands read as their normal forms reads as its own. -/
private theorem readLeaf_transform {t : Transform Value}
    (h : ∀ v ∈ t.operands, readValue .stored (ofValue v) = .ok v.normalize) :
    readLeaf .stored .transform (.seq [.text t.tag, .seq (ofValues t.operands)]) =
      .ok (Value.transform t).normalize := by
  simp [readLeaf, readValues_ofValues h, makeTransform, Transform.ofParts?_tag_map,
    normalize_transform]

/-- **A stored value, read as any value, is its own normal form.** -/
theorem readValue_ofValue {v : Value} (h : v.Ordered) :
    readValue .stored (ofValue v) = .ok v.normalize := by
  induction v with
  | array elements ih =>
      rw [ordered_array] at h
      rw [readValue_eq_acceptValue]
      simp [ofValue, shown, acceptValue, readValues_ofValues fun v hv => ih v hv (h v hv),
        normalize_array]
  | map fields ih =>
      obtain ⟨hsorted, hfields⟩ := ordered_map.mp h
      rw [readValue_eq_acceptValue]
      exact acceptEntries_ofFields hsorted fun field hfield =>
        ih field hfield (hfields field hfield)
  | transform t ih =>
      rw [ordered_transform] at h
      rw [readValue_eq_acceptValue, ofValue_transform]
      simp [ofTransform, shown, acceptValue, acceptEntries, Marker.ofName?_name,
        readLeaf_transform fun v hv => ih v hv (h v hv)]
  -- a leaf shows itself under its reserved name, so reading it goes through the entries
  | timestamp t =>
      rw [readValue_eq_acceptValue]
      simp [ofValue, ofTimestamp, shown, acceptValue, acceptEntries, Marker.ofName?_name, readLeaf,
        readPlainLeaf, timestampContent_parts, Value.normalize]
  | geoPoint p =>
      rw [readValue_eq_acceptValue]
      simp [ofValue, shown, acceptValue, acceptEntries, Marker.ofName?_name, readLeaf,
        readPlainLeaf, geoPointContent_parts, Value.normalize]
  | reference name =>
      rw [readValue_eq_acceptValue]
      simp [ofValue, shown, acceptValue, acceptEntries, Marker.ofName?_name, readLeaf,
        readPlainLeaf, Value.normalize]
  | _ =>
      rw [readValue_eq_acceptValue]
      simp [ofValue, shown, acceptValue, Value.normalize]

/-- Elements of a value are read like the items of any sequence. -/
theorem readValues_eq_readEach (format : Format) (index : Nat) (items : List Source) :
    readValues format index items = readEach readValue format index items := by
  induction items generalizing index with
  | nil => rw [readValues, readEach]
  | cons s rest ih => rw [readValues, readEach, ih]

/-- A stored transform, read as a transform, has the normal forms of its operands. -/
theorem readTransform_ofValue {t : Transform Value} (h : (Value.transform t).Ordered) :
    readTransform .stored (ofValue (.transform t)) = .ok (t.map Value.normalize) := by
  have hoperands : readEach readValue .stored 0 (ofValues t.operands) =
      .ok (t.operands.map Value.normalize) := by
    rw [← readValues_eq_readEach]
    exact readValues_ofValues (fun v hv => readValue_ofValue (ordered_transform.mp h v hv)) 0
  rw [ofValue_transform]
  simp [readTransform, ofTransform, readPair, readTwo, readList, answer, storedAnswer, hoperands,
    makeTransform, Transform.ofParts?_tag_map]

end Firestore.Source

namespace Firestore.Shape

/-- **Decoding a stored value as a value changes nothing but moments that are not
normal**, whatever names its maps have and wherever they stand, in operands too. -/
theorem decode_value {v : Value} (h : v.Ordered) :
    Shape.value.decode v = .ok (.value v.normalize) ∧
      (v.TimesAre Timestamp.IsNormal → Shape.value.decode v = .ok (.value v)) := by
  have hread : Shape.value.decode v = .ok (.value v.normalize) := by
    simp [decode, reader, Source.readValue_ofValue h]
  refine ⟨hread, fun htimes => ?_⟩
  rw [hread, Value.normalize_eq_self htimes]

/-- Reserved names outside and inside an operand; a moment before its second, and one inside. -/
theorem decode_value_reserved :
    let v (t : Timestamp) : Value :=
      .map [
        ("$__firestore_map",
          .transform (.arrayUnion [.map [("$__firestore_bytes", .timestamp t)]])),
        ("$__firestore_timestamp", .array [.map [("$__firestore_map", .null)]])]
    (v ⟨1, -1⟩).Ordered ∧ Shape.value.decode (v ⟨1, -1⟩) = .ok (.value (v ⟨0, 999999999⟩)) ∧
      (v ⟨1, 5⟩).TimesAre Timestamp.IsNormal ∧
      Shape.value.decode (v ⟨1, 5⟩) = .ok (.value (v ⟨1, 5⟩)) := by
  intro v
  have hbefore : (v ⟨1, -1⟩).Ordered := by decide
  have hinside : (v ⟨1, 5⟩).Ordered := by decide
  have htimes : (v ⟨1, 5⟩).TimesAre Timestamp.IsNormal := by decide
  exact ⟨hbefore, (decode_value hbefore).1, htimes, (decode_value hinside).2 htimes⟩

end Firestore.Shape
