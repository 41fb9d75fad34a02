import Firestore.Proofs.Shape.Failures
import Firestore.Proofs.Value.Reading
import Firestore.Shape.Part
import Firestore.Snapshot

/-!
# The trail of an error

Reading a value as a part of a shape fails where it stands, or one step further down, or
for want of a field (`Part.Fails`).  An error from further down has one more segment in
its trail, the name or the position of that step, so by induction on the trail the
value and the part at its end are the ones to blame (`Shape.decode_error`).
-/

namespace Firestore

open Value

/-! ## One step down -/

theorem Value.Ordered.of_child {v w : Value} {segment : String} (h : v.Ordered)
    (hchild : v.Child segment w) : w.Ordered := by
  cases hchild with
  | field hget => exact (ordered_map.mp h).2 _ (Fields.mem_of_get? hget)
  | element hget => exact ordered_array.mp h _ (List.mem_of_getElem? hget)

theorem Shape.exists_getElem?_of_readers {shapes : List Shape} {index : Nat} {read : Reader}
    (h : (readers shapes)[index]? = some read) :
    ∃ shape, shapes[index]? = some shape ∧ read = shape.reader := by
  rw [readers_eq_map, List.getElem?_map] at h
  obtain ⟨shape, hshape, rfl⟩ := Option.map_eq_some_iff.mp h
  exact ⟨shape, hshape, rfl⟩

namespace Part

/-- How reading a value as a part can fail. -/
inductive Fails (part : Part) (v : Value) : Error → Prop
  | here {e : Error} (h : e.IsHere) : Fails part v e
  | child {next : Part} {w : Value} {segment : String} {e : Error} (hpart : part.Child segment next)
      (hvalue : v.Child segment w) (h : next.decode w = .error e) : Fails part v (e.within segment)
  | missing {fields : Fields Value} {name : String} (hvalue : v = .map fields)
      (h : fields.get? name = none) : Fails part v (.missingField name)

theorem IsDirect.of_child {part next : Part} {segment : String} (h : part.IsDirect)
    (hchild : part.Child segment next) : next.IsDirect := by
  induction hchild with
  | option _ ih =>
      cases h with
      -- a shape without parts has no parts to step to
      | simple h => contradiction
      | option h => exact ih h
  | wrapper _ ih =>
      cases h with
      | simple h => contradiction
      | wrapper _ h => exact ih h
  | list _ _ =>
      cases h with
      | simple h => contradiction
      | list h => exact h
  | array _ _ =>
      cases h with
      | simple h => contradiction
      | array _ h => exact h
  | tuple hitem =>
      cases h with
      | simple h => contradiction
      | tuple h => exact h _ (List.mem_of_getElem? hitem)
  | tupleStruct hitem =>
      cases h with
      | simple h => contradiction
      | tupleStruct _ h => exact h _ (List.mem_of_getElem? hitem)
  | itemsOf hitem =>
      cases h with
      | itemsOf _ _ h => exact h _ (List.mem_of_getElem? hitem)
  | map _ _ _ =>
      cases h with
      | simple h => contradiction
      | map _ h => exact h
  | record hfield =>
      cases h with
      | simple h => contradiction
      | record _ _ h => exact h _ hfield
  | fieldsOf hfield =>
      cases h with
      | fieldsOf _ _ h => exact h _ hfield
  | enum hvariant hpart =>
      cases h with
      | simple h => contradiction
      | enum h => exact h _ _ _ hvariant hpart

/-! ## How a part fails -/

section Fails

variable {part : Part} {v : Value} {e : Error}

/-- An error from inside is one of a child. -/
theorem Fails.of_comes {inner : String → Error → Prop} (he : e.Comes inner)
    (hinner : ∀ segment e, inner segment e →
      ∃ next w, part.Child segment next ∧ v.Child segment w ∧ next.decode w = .error e) :
    part.Fails v e := by
  rcases he with hhere | ⟨segment, e', hfrom, rfl⟩
  · exact .here hhere
  · obtain ⟨next, w, hpart, hvalue, hdecode⟩ := hinner segment e' hfrom
    exact .child hpart hvalue hdecode

/-- An error of a sequence whose items have shapes of their own. -/
theorem Fails.of_items {readAt : Nat → Option Reader}
    (hpart : ∀ i read, readAt i = some read →
      ∃ item : Shape, read = item.reader ∧ part.Child (toString i) (.shape item))
    (he : e.IsHere ∨ ∃ elements, v = .array elements ∧
      e.Comes (Reader.ItemFails readAt elements 0)) : part.Fails v e := by
  rcases he with hhere | ⟨elements, rfl, hcomes⟩
  · exact .here hhere
  · refine .of_comes hcomes ?_
    rintro segment e ⟨i, read, w, rfl, hread, hw, he⟩
    rw [Nat.zero_add]
    obtain ⟨item, rfl, hchild⟩ := hpart i read hread
    exact ⟨.shape item, w, hchild, .element hw, he⟩

theorem tuple_fails {shapes : List Shape} (hpart : ∀ {i : Nat} {item : Shape},
      shapes[i]? = some item → part.Child (toString i) (.shape item))
    (expected lengthText : String) :
    FailsWith (part.Fails v)
      (Reader.tuple expected lengthText (Shape.readers shapes) .stored (.ofValue v)) := by
  refine (Reader.tuple_fails expected lengthText (Shape.readers shapes) v).imp fun _ =>
    .of_items fun i read hread => ?_
  obtain ⟨item, hitem, rfl⟩ := Shape.exists_getElem?_of_readers hread
  exact ⟨item, rfl, hpart hitem⟩

theorem record_fails {fields : List (Field Shape)} (hordered : v.Ordered)
    (hpart : ∀ {field : Field Shape},
      field ∈ fields → part.Child field.name (.shape field.shape))
    (title : String) (strict : Bool) :
    FailsWith (part.Fails v) ((Source.ofValue v).answer .stored .map >>=
      Reader.recordOf title (Shape.fieldReaders fields) strict .stored) := by
  refine (Reader.recordOf_answer_fails title (Shape.fieldReaders fields) strict v).imp
    fun e he => ?_
  rcases he with hhere | ⟨stored, rfl, hcomes | ⟨name, hget, rfl⟩⟩
  · exact .here hhere
  · refine .of_comes hcomes ?_
    rintro segment e ⟨read, hread, rfl, w, hw, he⟩
    rw [Shape.fieldReaders_eq_map] at hread
    obtain ⟨field, hfield, rfl⟩ := List.mem_map.mp hread
    have hget := (ordered_map.mp hordered).1.get?_eq_some_iff.mpr hw
    exact ⟨.shape field.shape, w, hpart hfield, .field hget, he⟩
  · exact .missing rfl hget

/-- What stands under an option or a wrapper fails as it does alone. -/
theorem Fails.of_inner {inner : Part} (hpart : ∀ segment next, inner.Child segment next →
    part.Child segment next) (he : inner.Fails v e) : part.Fails v e := by
  cases he with
  | here h => exact .here h
  | child hchild hvalue h => exact .child (hpart _ _ hchild) hvalue h
  | missing hvalue h => exact .missing hvalue h

end Fails

/-- What a variant carries is read as its part, inside the name of the variant. -/
theorem payload_eq {enumName name : String} {p : Payload Shape} {part : Part}
    (h : p.part? enumName name = some part) :
    ∃ expected, ∀ carried, Reader.payload enumName name (Shape.payloadReader p) .stored carried =
      (Reader.payloadOf .stored expected carried >>= fun s =>
        Datum.variant name <$> Format.stored.locate name (part.reader .stored s)) := by
  cases p with
  | unit => contradiction
  | one shape =>
      cases h
      exact ⟨_, fun _ => rfl⟩
  | tuple shapes =>
      cases h
      exact ⟨_, fun _ => rfl⟩
  | record fields =>
      cases h
      exact ⟨_, fun _ => rfl⟩

theorem payload_fails (enumName name : String) (p : Payload Shape) (carried : Option Source) :
    FailsWith (Error.Comes fun segment e => segment = name ∧
      ∃ part s, p.part? enumName name = some part ∧ carried = some s ∧
        part.reader .stored s = .error e)
      (Reader.payload enumName name (Shape.payloadReader p) .stored carried) := by
  cases hpart : p.part? enumName name with
  | none =>
      cases p with
      | unit => exact (Reader.payloadUnit_fails carried).comes.bind fun _ => .ok _
      | _ => contradiction
  | some part =>
      obtain ⟨expected, heq⟩ := payload_eq hpart
      rw [heq]
      cases carried with
      | none => exact FailsWith.comes (.typeMismatch _ _)
      | some s =>
          have hread : FailsWith (Error.Comes fun segment e => segment = name ∧
              ∃ part' s', some part = some part' ∧ some s = some s' ∧
                part'.reader .stored s' = .error e)
              (Format.stored.locate name (part.reader .stored s)) :=
            .located fun e he => ⟨rfl, part, s, rfl, rfl, he⟩
          exact hread.map _

/-- A variant fails here, or in what it carries. -/
theorem decode_fails_enum (enumName : String) (variants : List (String × Payload Shape))
    (v : Value) :
    FailsWith (Fails (.shape (.enum enumName variants)) v)
      ((Shape.enum enumName variants).decode v) := by
  -- the readers were made from the variants, so what a reader reads is a payload of the enum
  have hpayload : ∀ name read, (name, read) ∈ Shape.variantReaders variants →
      ∃ p, (name, p) ∈ variants ∧ read = Shape.payloadReader p := fun name read hread => by
    rw [Shape.variantReaders_eq_map] at hread
    obtain ⟨⟨name', p⟩, hp, heq⟩ := List.mem_map.mp hread
    cases heq
    exact ⟨p, hp, rfl⟩
  rcases Reader.variantOf_cases enumName v with
    ⟨name, rfl, hvariant⟩ | ⟨name, w, rfl, hvariant⟩ | ⟨e, he, hvariant⟩
  · -- a name alone carries nothing that could fail further down
    refine Reader.enum_fails (fun _ => .here) hvariant fun read hread => ?_
    obtain ⟨p, _, rfl⟩ := hpayload name read hread
    refine (payload_fails enumName name p none).imp fun e he => .of_comes he ?_
    rintro segment e ⟨_, part, s, _, hs, _⟩
    contradiction
  · -- a map with one entry: the step down is to its value, under the name of the variant
    refine Reader.enum_fails (fun _ => .here) hvariant fun read hread => ?_
    obtain ⟨p, hp, rfl⟩ := hpayload name read hread
    refine (payload_fails enumName name p _).imp fun e he => .of_comes he ?_
    rintro segment e ⟨rfl, part, s, hpart, hs, he⟩
    cases hs
    exact ⟨part, w, .enum hp hpart, .field (by simp [Fields.get?]), he⟩
  · show FailsWith _ (Reader.enum enumName (Shape.variantReaders variants) .stored (.ofValue v))
    rw [Reader.enum, hvariant, error_bind]
    exact .error (.here he)

theorem momentReader_fails (v : Value) :
    FailsWith Error.IsHere (Shape.momentReader .stored (.ofValue v)) := by
  refine (Source.readTimestamp_fails v).bind fun t => ?_
  split
  · exact .ok _
  · exact .invalidArgument _

theorem decode_fails_simple {s : Shape} (h : s.isSimple = true) {v : Value} (hv : v.Ordered) :
    FailsWith Error.IsHere (s.decode v) := by
  cases s with
  | bool => exact (Source.readBool_fails _).map _
  | int t => exact (Source.readInt_fails t _).map _
  | single => exact (Source.readSingle_fails _).map _
  | double => exact (Source.readDouble_fails _).map _
  | char => exact (Source.readChar_fails _).map _
  | text => exact (Source.readText_fails _).map _
  | unit => exact (Source.readUnit_fails _ _).map _
  | unitStruct name => exact (Source.readUnit_fails _ _).map _
  | rawBytes => exact (Source.readRawBytes_fails _).map _
  | timestamp => exact (Source.readTimestamp_fails v).map _
  | geoPoint => exact (Source.readGeoPoint_fails v).map _
  | bytes => exact (Source.readBytes_fails v).map _
  | transform => exact (Source.readTransform_fails hv).map _
  | reference => exact (Source.readReference_fails v).map _
  | value =>
      have hread : FailsWith Error.IsHere (Source.readValue .stored (.ofValue v)) := by
        rw [Source.readValue_ofValue hv]
        exact .ok _
      exact hread.map _
  | moment => exact momentReader_fails v
  | optionalMoment => exact Reader.option_fails (momentReader_fails v)
  | empty => exact .invalidArgument _
  | _ => contradiction

/-- **One step.**  Reading a value as a part fails here, in a child, or for want of a field. -/
theorem decode_fails {part : Part} (hpart : part.IsDirect) {v : Value} (hv : v.Ordered) :
    FailsWith (part.Fails v) (part.decode v) := by
  -- the induction is for options and wrappers, which read their content in the same place
  induction hpart with
  | simple h => exact (decode_fails_simple h hv).imp fun _ => .here
  | option _ ih => exact Reader.option_fails (ih.imp fun _ => .of_inner fun _ _ => .option)
  | wrapper hfree _ ih =>
      exact Reader.wrapper_fails hfree (ih.imp fun _ => .of_inner fun _ _ => .wrapper)
  | @list item _ _ =>
      refine (Reader.list_fails item.reader v).imp fun _ => .of_items fun i read hread => ?_
      cases hread
      exact ⟨item, rfl, .list item i⟩
  | @array length item _ _ =>
      refine (Reader.tuple_fails _ _ (List.replicate length item.reader) v).imp fun _ =>
        .of_items fun i read hread => ?_
      rw [List.getElem?_replicate] at hread
      obtain ⟨hi, heq⟩ := Option.ite_none_right_eq_some.mp hread
      exact ⟨item, (Option.some.inj heq).symm, .array item hi⟩
  | tuple _ _ => exact tuple_fails .tuple _ _
  | tupleStruct name _ _ => exact tuple_fails .tupleStruct _ _
  | itemsOf enumName name _ _ => exact tuple_fails .itemsOf _ _
  | @map keys content _ _ =>
      refine (Reader.map_fails keys content.reader v).imp fun e he => ?_
      rcases he with hhere | ⟨fields, rfl, hcomes⟩
      · exact .here hhere
      · refine .of_comes hcomes ?_
        rintro name e ⟨w, hw, he⟩
        have hget := (ordered_map.mp hv).1.get?_eq_some_iff.mpr hw
        exact ⟨.shape content, w, .map keys content name, .field hget, he⟩
  | record name strict _ _ => exact record_fails hv .record _ strict
  | fieldsOf enumName name _ _ => exact record_fails hv .fieldsOf _ false
  | enum _ _ => exact decode_fails_enum _ _ v

/-! ## The whole way down -/

variable {part : Part} {v : Value} {e : Error}

/-- At the end of the trail stand the part and the value that the error is about. -/
theorem exists_reaches (hpart : part.IsDirect) (hv : v.Ordered) (h : part.decode v = .error e)
    (hcode : e.code ≠ .missingField) :
    ∃ last node, part.Reaches v e.trail last node ∧
      last.decode node = .error ⟨e.code, e.message, []⟩ := by
  -- on the trail; the error in a child has the rest of it
  induction htrail : e.trail generalizing part v e with
  | nil =>
      refine ⟨part, v, .here part v, ?_⟩
      rw [h, ← htrail]
  | cons segment rest ih =>
      cases decode_fails hpart hv e h with
      | here hhere => simp [hhere.1] at htrail
      | @child next w segment' e hchild hvalue he =>
          obtain ⟨rfl, rfl⟩ := List.cons.inj htrail
          obtain ⟨last, node, hreaches, hdecode⟩ :=
            ih (hpart.of_child hchild) (hv.of_child hvalue) he hcode rfl
          exact ⟨last, node, .step hchild hvalue hreaches, hdecode⟩
      | missing _ _ => exact absurd rfl hcode

/-- Before the end of the trail of a missing field stands the map that lacks it. -/
theorem exists_reaches_map (hpart : part.IsDirect) (hv : v.Ordered) (h : part.decode v = .error e)
    (hcode : e.code = .missingField) :
    ∃ place name last fields, e.trail = place ++ [name] ∧
      part.Reaches v place last (.map fields) ∧ Fields.get? fields name = none := by
  induction htrail : e.trail generalizing part v e with
  | nil =>
      cases decode_fails hpart hv e h with
      | here hhere => exact absurd hcode hhere.2
      | child _ _ _ => contradiction
      -- an error about a missing field names it last, so its trail has a segment
      | missing _ _ => contradiction
  | cons segment rest ih =>
      cases decode_fails hpart hv e h with
      | here hhere => exact absurd hcode hhere.2
      | @child next w segment' e hchild hvalue he =>
          obtain ⟨rfl, rfl⟩ := List.cons.inj htrail
          obtain ⟨place, name, last, fields, htrail, hreaches, hget⟩ :=
            ih (hpart.of_child hchild) (hv.of_child hvalue) he hcode rfl
          exact ⟨segment' :: place, name, last, fields, by rw [htrail]; rfl,
            .step hchild hvalue hreaches, hget⟩
      | @missing fields name hvalue hget =>
          obtain ⟨rfl, rfl⟩ := List.cons.inj htrail
          exact ⟨[], name, part, fields, rfl, hvalue ▸ .here part v, hget⟩

end Part

/-! ## Fields of documents -/

theorem DocumentSnapshot.insideAll_ok {α : Type} (segments : List String) (a : α) :
    insideAll segments (.ok a) = .ok a := by
  induction segments with
  | nil => rfl
  | cons segment rest ih =>
      show inside segment (insideAll rest (.ok a)) = _
      rw [ih, inside_ok]

theorem DocumentSnapshot.insideAll_error {α : Type} (segments : List String) (e : Error) :
    insideAll (α := α) segments (.error e) = .error ⟨e.code, e.message, segments ++ e.trail⟩ := by
  induction segments with
  | nil => rfl
  | cons segment rest ih =>
      show inside segment (insideAll rest (.error e)) = _
      rw [ih, inside_error]
      rfl

/-- Reading a field fails as reading its value does, seen from the document. -/
theorem DocumentSnapshot.readField_eq_error {s : DocumentSnapshot} {path : FieldPath} {v : Value}
    (hget : s.get? path = some v) (shape : Shape) (e : Error) :
    s.readField path shape = .error e ↔
      ∃ e', shape.decode v = .error e' ∧ e = ⟨e'.code, e'.message, path.segments ++ e'.trail⟩ := by
  rw [readField, hget, Option.mapM_some]
  cases hdecode : shape.decode v with
  | ok d => simp [insideAll_ok]
  | error e' => simp [insideAll_error, eq_comm]

/-- **Errors point at the culprit.**  When reading a value as a shape fails, walking down the value
along the trail leads to the value that the error is about, and reading that one as the part of the
shape that sits there fails with the same error and no trail.  If a field is missing, the trail
without its last segment leads to a map that has no field of that name.  Reading a field of a
document fails just if reading its value does, and the trail starts with the path of the field. -/
theorem Shape.decode_error (shape : Shape) (v : Value) :
    ((Part.shape shape).IsDirect → v.Ordered → ∀ e, shape.decode v = .error e →
      (e.code ≠ .missingField → ∃ part node, (Part.shape shape).Reaches v e.trail part node ∧
        part.decode node = .error ⟨e.code, e.message, []⟩) ∧
      (e.code = .missingField → ∃ place name part fields, e.trail = place ++ [name] ∧
        (Part.shape shape).Reaches v place part (.map fields) ∧ Fields.get? fields name = none)) ∧
    ∀ (s : DocumentSnapshot) (path : FieldPath), s.get? path = some v →
      ∀ e, s.readField path shape = .error e ↔
        ∃ e', shape.decode v = .error e' ∧
          e = ⟨e'.code, e'.message, path.segments ++ e'.trail⟩ := by
  refine ⟨fun hshape hv e he => ⟨?_, ?_⟩, fun s path hget => ?_⟩
  · exact Part.exists_reaches hshape hv he
  · exact Part.exists_reaches_map hshape hv he
  · exact DocumentSnapshot.readField_eq_error hget shape

/-- In the second of two visits a day is a text, or else the city is missing. -/
theorem Shape.decode_error_visits :
    let city : Shape := .wrapper "City" .text
    let visit : Payload Shape := .record [⟨"day", .option (.int .u8), none⟩, ⟨"city", city, none⟩]
    let visits : Shape := .list (.enum "Visit" [("At", visit)])
    let shape : Shape := .record "Person" [⟨"visits", visits, none⟩] true
    let v (second : Fields Value) : Value := .map [("visits", .array
      [.map [("At", .map [("city", .string "Rome"), ("day", .null)])], .map [("At", .map second)]])]
    let noDay := v [("city", .string "Oslo"), ("day", .string "first")]
    let noCity := v [("day", .integer 3)]
    (Part.shape shape).IsDirect ∧ noDay.Ordered ∧ noCity.Ordered ∧
      shape.decode noDay = .error
        ⟨.typeMismatch, "Expected an integer, found string", ["visits", "1", "At", "day"]⟩ ∧
      (∃ part node, (Part.shape shape).Reaches noDay ["visits", "1", "At", "day"] part node ∧
        part.decode node = .error ⟨.typeMismatch, "Expected an integer, found string", []⟩) ∧
      ∃ place name part fields, ["visits", "1", "At", "city"] = place ++ [name] ∧
        (Part.shape shape).Reaches noCity place part (.map fields) ∧
          Fields.get? fields name = none := by
  intro city visit visits shape v noDay noCity
  have hcityName : (Part.shape city).IsDirect := .wrapper (by decide) (.simple rfl)
  have hshape : (Part.shape shape).IsDirect := by
    refine .record _ _ (List.forall_mem_singleton.mpr (.list (.enum ?_)))
    intro name p part hp hpart
    cases List.mem_singleton.mp hp
    cases hpart
    exact .fieldsOf _ _ (List.forall_mem_cons.mpr
      ⟨.option (.simple rfl), List.forall_mem_singleton.mpr hcityName⟩)
  have hday : noDay.Ordered := by decide
  have hcity : noCity.Ordered := by decide
  have hmismatch : shape.decode noDay = .error
      ⟨.typeMismatch, "Expected an integer, found string", ["visits", "1", "At", "day"]⟩ := rfl
  have hmissing : shape.decode noCity = .error ⟨.missingField, "Missing required field 'city'",
      ["visits", "1", "At", "city"]⟩ := rfl
  refine ⟨hshape, hday, hcity, hmismatch, ?_, ?_⟩
  · exact ((decode_error shape noDay).1 hshape hday _ hmismatch).1 (by decide)
  · exact ((decode_error shape noCity).1 hshape hcity _ hmissing).2 rfl

/-- A wrapper of a reserved name is not direct: it reads what is inside a leaf, and an error there
has a trail along which no value can be walked. -/
example : (Shape.wrapper Marker.timestamp.name (.tuple [.int .i64, .int .u8])).decode
    (.timestamp ⟨5, 300⟩) =
      .error ⟨.typeMismatch, "Expected u8, found integer \x60300\x60", ["1"]⟩ := rfl

end Firestore
