import Firestore.Proofs.Shape.Readers

/-!
# How readers of stored values fail

An error is either about the whole of what is read (`Error.IsHere`), or it comes from
inside, with one more segment in its trail (`Error.Comes`), or it tells that a field is
missing.  For each kind of composed reader it is said here from where an error can come.
-/

namespace Firestore

/-- An error about the whole of what is read, where nothing is missing. -/
def Error.IsHere (e : Error) : Prop := e.trail = [] ∧ e.code ≠ .missingField

/-- An error about the whole of what is read, or one from inside. -/
def Error.Comes (inner : String → Error → Prop) (e : Error) : Prop :=
  e.IsHere ∨ ∃ segment e', inner segment e' ∧ e = e'.within segment

theorem Error.isHere_typeMismatch (expected found : String) :
    (Error.typeMismatch expected found).IsHere :=
  ⟨rfl, by simp [typeMismatch]⟩

theorem Error.isHere_invalidArgument (message : String) : (Error.invalidArgument message).IsHere :=
  ⟨rfl, by simp [invalidArgument]⟩

theorem Error.Comes.imp {inner inner' : String → Error → Prop}
    (h : ∀ segment e, inner segment e → inner' segment e) {e : Error} (he : e.Comes inner) :
    e.Comes inner' :=
  he.imp_right fun ⟨segment, e', hinner, heq⟩ => ⟨segment, e', h segment e' hinner, heq⟩

namespace FailsWith

variable {α : Type}

theorem typeMismatch (expected found : String) :
    FailsWith Error.IsHere (.error (.typeMismatch expected found) : Except Error α) :=
  .error (Error.isHere_typeMismatch expected found)

theorem mismatch (shown : Shown) (expected : String) :
    FailsWith Error.IsHere (.error (shown.mismatch expected) : Except Error α) :=
  .typeMismatch expected shown.description

theorem invalidArgument (message : String) :
    FailsWith Error.IsHere (.error (.invalidArgument message) : Except Error α) :=
  .error (Error.isHere_invalidArgument message)

/-- What fails here fails here or inside. -/
theorem comes {inner : String → Error → Prop} {x : Except Error α} (h : FailsWith Error.IsHere x) :
    FailsWith (Error.Comes inner) x :=
  h.imp fun _ => .inl

/-- What fails in a place fails inside. -/
theorem located {inner : String → Error → Prop} {segment : String} {x : Except Error α}
    (h : FailsWith (inner segment) x) :
    FailsWith (Error.Comes inner) (Format.stored.locate segment x) := by
  cases x with
  | ok a => exact .ok a
  | error e => exact .error (.inr ⟨segment, e, h e rfl, rfl⟩)

end FailsWith

namespace Source

/-! ## Simple readers -/

theorem storedAnswer_fails (question : Question) (s : Source) :
    FailsWith Error.IsHere (storedAnswer question s) := by
  unfold storedAnswer
  simp only
  split
  all_goals first
    | exact .ok _
    | exact .typeMismatch _ _
    | (split; exacts [.ok _, .typeMismatch _ _])

theorem acceptInt_fails (t : IntType) (shown : Shown) :
    FailsWith Error.IsHere (acceptInt t shown) := by
  unfold acceptInt
  simp only
  split
  · split
    · exact .ok _
    · exact .mismatch _ _
  · split
    · exact .ok _
    · exact .mismatch _ _
  · exact .mismatch _ _

theorem acceptNumber_fails {f : BinaryFormat} (name : String) (shown : Shown) :
    FailsWith Error.IsHere (acceptNumber name shown : Except Error (Floating f)) := by
  unfold acceptNumber
  split
  all_goals first
    | exact .ok _
    | exact .mismatch _ _

theorem acceptText_fails (shown : Shown) : FailsWith Error.IsHere (acceptText shown) := by
  unfold acceptText
  split
  · exact .ok _
  · split
    · exact .ok _
    · exact .mismatch _ _
  · exact .mismatch _ _

theorem asPlain_fails {α : Type} (r : Except Error α) : FailsWith Error.IsHere (asPlain r) := by
  cases r with
  | ok a => exact .ok a
  | error e => exact .invalidArgument _

theorem readUnit_fails (expected : String) (s : Source) :
    FailsWith Error.IsHere (readUnit expected .stored s) := by
  refine (storedAnswer_fails .unit s).bind fun shown => ?_
  split
  · exact .ok _
  · exact .mismatch _ _

theorem readBool_fails (s : Source) : FailsWith Error.IsHere (readBool .stored s) := by
  refine (storedAnswer_fails .bool s).bind fun shown => ?_
  split
  · exact .ok _
  · exact .mismatch _ _

theorem readInt_fails (t : IntType) (s : Source) : FailsWith Error.IsHere (readInt t .stored s) :=
  (storedAnswer_fails (.integer t) s).bind (acceptInt_fails t)

theorem readSingle_fails (s : Source) : FailsWith Error.IsHere (readSingle .stored s) :=
  (storedAnswer_fails .number s).bind (acceptNumber_fails "f32")

theorem readDouble_fails (s : Source) : FailsWith Error.IsHere (readDouble .stored s) := by
  refine (storedAnswer_fails .number s).bind fun shown => ?_
  split
  · exact .ok _
  · exact acceptNumber_fails "f64" _

/-- What a reader of characters makes of a text, be it a value or a name. -/
private theorem acceptChar_fails (shown : Shown) :
    FailsWith Error.IsHere (match shown with
      | .text t =>
          match t.toList with
          | [c] => .ok c
          | _ => .error ((Shown.text t).mismatch "a character")
      | shown => .error (shown.mismatch "a character") : Except Error Char) := by
  split
  · split
    · exact .ok _
    · exact .mismatch _ _
  · exact .mismatch _ _

theorem readChar_fails (s : Source) : FailsWith Error.IsHere (readChar .stored s) :=
  (storedAnswer_fails .text s).bind acceptChar_fails

theorem readText_fails (s : Source) : FailsWith Error.IsHere (readText .stored s) :=
  (storedAnswer_fails .text s).bind acceptText_fails

theorem readRawBytes_fails (s : Source) : FailsWith Error.IsHere (readRawBytes .stored s) := by
  refine (storedAnswer_fails .bytes s).bind fun shown => ?_
  split
  · exact .ok _
  · exact .mismatch _ _

/-! ## Leaves -/

theorem readTimestamp_fails (v : Value) :
    FailsWith Error.IsHere (readTimestamp .stored (ofValue v)) := by
  cases v with
  | timestamp t =>
      show FailsWith _ (timestampContent .stored (.seq [.int t.seconds, .int t.nanos.toInt64]))
      rw [timestampContent_parts]
      exact .ok _
  | transform t => cases t <;> exact .typeMismatch _ _
  | _ => exact .typeMismatch _ _

theorem readGeoPoint_fails (v : Value) :
    FailsWith Error.IsHere (readGeoPoint .stored (ofValue v)) := by
  cases v with
  | geoPoint p =>
      show FailsWith _ (geoPointContent .stored (.seq [.double p.latitude, .double p.longitude]))
      rw [geoPointContent_parts]
      exact .ok _
  | transform t => cases t <;> exact .typeMismatch _ _
  | _ => exact .typeMismatch _ _

theorem readBytes_fails (v : Value) : FailsWith Error.IsHere (readBytes .stored (ofValue v)) := by
  cases v with
  | bytes bs => exact .ok bs
  | transform t => cases t <;> exact .typeMismatch _ _
  | _ => exact .typeMismatch _ _

theorem readTransform_fails {v : Value} (h : v.Ordered) :
    FailsWith Error.IsHere (readTransform .stored (ofValue v)) := by
  cases v with
  | transform t =>
      rw [readTransform_ofValue h]
      exact .ok _
  | _ => exact .typeMismatch _ _

theorem readReference_fails (v : Value) :
    FailsWith Error.IsHere (readReference .stored (ofValue v)) := by
  have hname : FailsWith Error.IsHere (readReferenceName .stored (ofValue v)) := by
    cases v with
    | reference name => exact .ok name
    | string name => exact .ok name
    | transform t => cases t <;> exact .typeMismatch _ _
    | _ => exact .typeMismatch _ _
  exact hname.bind fun name => asPlain_fails _

end Source

namespace Reader

/-! ## Options and wrappers -/

section Whole

variable {p : Error → Prop} {read : Reader} {v : Value}

/-- What is present fails as it does alone. -/
theorem option_fails (h : FailsWith p (read .stored (.ofValue v))) :
    FailsWith p (option read .stored (.ofValue v)) := by
  cases v with
  | null => exact .ok _
  | transform t => cases t <;> exact h.map Datum.present
  | _ => exact h.map Datum.present

theorem wrapper_fails {name : String} (hfree : Marker.ofName? name = none)
    (h : FailsWith p (read .stored (.ofValue v))) :
    FailsWith p (wrapper name read .stored (.ofValue v)) := by
  rw [wrapper_ofValue hfree]
  exact h

end Whole

/-! ## Sequences -/

/-- An error of an item of an array, each position having a reader of its own; positions count from
`index`. -/
def ItemFails (readAt : Nat → Option Reader) (elements : List Value) (index : Nat)
    (segment : String) (e : Error) : Prop :=
  ∃ i read v, segment = toString (index + i) ∧ readAt i = some read ∧ elements[i]? = some v ∧
    read .stored (.ofValue v) = .error e

section Sequences

variable (readAt : Nat → Option Reader) {v : Value} {elements : List Value} {index : Nat}

private theorem first_fails {read : Reader} (h : readAt 0 = some read) :
    FailsWith (Error.Comes (ItemFails readAt (v :: elements) index))
      (Format.stored.locate (toString index) (read .stored (.ofValue v))) :=
  .located fun _ he => ⟨0, read, v, rfl, h, rfl, he⟩

private theorem rest_fails {e : Error}
    (h : e.Comes (ItemFails (fun i => readAt (i + 1)) elements (index + 1))) :
    e.Comes (ItemFails readAt (v :: elements) index) := by
  refine h.imp ?_
  rintro segment e ⟨i, read, w, rfl, hread, hw, he⟩
  exact ⟨i + 1, read, w, congrArg toString (Nat.succ_add_eq_add_succ index i), hread, hw, he⟩

theorem readEach_fails (read : Reader) (elements : List Value) (index : Nat) :
    FailsWith (Error.Comes (ItemFails (fun _ => some read) elements index))
      (Source.readEach read .stored index (Source.ofValues elements)) := by
  induction elements generalizing index with
  | nil => exact .ok _
  | cons v rest ih =>
      rw [Source.ofValues, Source.readEach]
      -- the first item, and then the rest, whose positions count from the next one
      refine (first_fails (fun _ => some read) rfl).bind fun d => ?_
      exact ((ih (index + 1)).imp fun _ => rest_fails fun _ => some read).bind fun _ => .ok _

theorem list_fails (read : Reader) (v : Value) :
    FailsWith (fun e => e.IsHere ∨ ∃ elements, v = .array elements ∧
      e.Comes (ItemFails (fun _ => some read) elements 0)) (list read .stored (.ofValue v)) := by
  cases v with
  | array elements =>
      have h := (readEach_fails read elements 0).map Datum.seq
      exact h.imp fun e he => .inr ⟨elements, rfl, he⟩
  | transform t => cases t <;> exact (FailsWith.typeMismatch _ _).imp fun _ => .inl
  | _ => exact (FailsWith.typeMismatch _ _).imp fun _ => .inl

theorem items_fails (expected : String) (reads : List Reader) (elements : List Value)
    (index : Nat) :
    FailsWith (Error.Comes (ItemFails (fun i => reads[i]?) elements index))
      (items expected .stored index reads (Source.ofValues elements)) := by
  induction reads generalizing elements index with
  | nil => exact .ok _
  | cons read reads ih =>
      cases elements with
      | nil => exact FailsWith.comes (.invalidArgument _)
      | cons v rest =>
          rw [Source.ofValues, items]
          refine (first_fails (fun i => (read :: reads)[i]?) rfl).bind fun d => ?_
          refine ((ih rest (index + 1)).imp fun _ => ?_).bind fun _ => .ok _
          exact rest_fails fun i => (read :: reads)[i]?

theorem tuple_fails (expected lengthText : String) (reads : List Reader) (v : Value) :
    FailsWith (fun e => e.IsHere ∨ ∃ elements, v = .array elements ∧
      e.Comes (ItemFails (fun i => reads[i]?) elements 0))
      (tuple expected lengthText reads .stored (.ofValue v)) := by
  cases v with
  | array elements =>
      have h : FailsWith (Error.Comes (ItemFails (fun i => reads[i]?) elements 0))
          (itemsOf lengthText reads .stored (Source.ofValues elements)) :=
        (items_fails lengthText reads elements 0).bind fun _ => .ok _
      exact h.imp fun e he => .inr ⟨elements, rfl, he⟩
  | transform t => cases t <;> exact (FailsWith.typeMismatch _ _).imp fun _ => .inl
  | _ => exact (FailsWith.typeMismatch _ _).imp fun _ => .inl

end Sequences

/-! ## Names -/

/-- A name is looked up as it is. -/
theorem place_name (expected : String) (names : List String) (name : String) :
    place expected names .storedName (.text name) =
      .ok (match names.findIdx? (· == name) with
        | some index => .known index
        | none => .unknown name) := rfl

theorem getElem?_of_findIdx? {names : List String} {name : String} {index : Nat}
    (h : names.findIdx? (· == name) = some index) : names[index]? = some name := by
  obtain ⟨hindex, hname, _⟩ := List.findIdx?_eq_some_iff_getElem.mp h
  rw [List.getElem?_eq_getElem hindex, beq_iff_eq.mp hname]

/-- A variant is known by its name, or the name is refused. -/
theorem variantName_cases (names : List String) (name : String) :
    variantName names .storedName (.text name) = .ok name ∨
      ∃ e, e.IsHere ∧ variantName names .storedName (.text name) = .error e := by
  rw [variantName, place_name, ok_bind]
  cases hfind : names.findIdx? (· == name) with
  | some index =>
      left
      show Except.ok (names.getD index "") = _
      rw [List.getD_eq_getElem?_getD, getElem?_of_findIdx? hfind, Option.getD_some]
  | none => exact .inr ⟨_, Error.isHere_invalidArgument _, rfl⟩

theorem variantName_fails (names : List String) (name : String) :
    FailsWith Error.IsHere (variantName names .storedName (.text name)) := by
  rcases variantName_cases names name with hok | ⟨e, he, herror⟩
  · rw [hok]
    exact .ok _
  · rw [herror]
    exact .error he

/-! ## Maps -/

theorem key_fails (keys : KeyShape) (name : String) :
    FailsWith Error.IsHere (key keys .storedName (.text name)) := by
  cases keys with
  | text => exact .ok _
  | char => exact (Source.acceptChar_fails (.text name)).map Key.char
  | int t => exact (FailsWith.mismatch (.text name) t.name).map Key.int
  | symbol enumName names => exact (variantName_fails names name).bind fun _ => .ok _

private theorem readChar_eq_ok {name : String} {c : Char}
    (h : Source.readChar .storedName (.text name) = .ok c) : name = c.toString := by
  change (match name.toList with
    | [c] => .ok c
    | _ => .error ((Shown.text name).mismatch "a character") : Except Error Char) = _ at h
  split at h
  · rename_i hchars
    cases h
    exact String.toList_inj.mp (by simp [hchars, Char.toString])
  · contradiction

/-- A key is written as the name that it was read from. -/
theorem written_key {keys : KeyShape} {name : String} {k : Key}
    (h : key keys .storedName (.text name) = .ok k) : k.written = name := by
  cases keys with
  | text =>
      cases h
      rfl
  | char =>
      obtain ⟨c, hc, rfl⟩ := map_eq_ok.mp h
      exact (readChar_eq_ok hc).symm
  | int t =>
      obtain ⟨n, hn, rfl⟩ := map_eq_ok.mp h
      contradiction
  | symbol enumName names =>
      obtain ⟨_, hvariant, h⟩ := bind_eq_ok.mp h
      cases hvariant
      obtain ⟨chosen, hchosen, h⟩ := bind_eq_ok.mp h
      cases h
      -- the name of a variant is looked up and given back as it was found
      rcases variantName_cases names name with hok | ⟨e, _, herror⟩
      · rw [hok] at hchosen
        cases hchosen
        rfl
      · rw [herror] at hchosen
        contradiction

/-- An error of what a map holds under a name. -/
def EntryFails (read : Reader) (fields : Fields Value) (name : String) (e : Error) : Prop :=
  ∃ v, (name, v) ∈ fields ∧ read .stored (.ofValue v) = .error e

theorem entries_fails (keys : KeyShape) (read : Reader) (fields : Fields Value) :
    FailsWith (Error.Comes (EntryFails read fields))
      (entries (key keys) read .stored (Source.ofFields fields)) := by
  induction fields with
  | nil => exact .ok _
  | cons field rest ih =>
      obtain ⟨name, v⟩ := field
      rw [Source.ofFields, entries]
      refine (key_fails keys name).comes.bind_of_ok fun k hk => ?_
      rw [written_key hk]
      have hfirst : FailsWith (Error.Comes (EntryFails read ((name, v) :: rest)))
          (Format.stored.locate name (read .stored (.ofValue v))) :=
        .located fun e he => ⟨v, List.mem_cons_self, he⟩
      refine hfirst.bind fun d => ?_
      refine (ih.imp fun e he => he.imp ?_).bind fun _ => .ok _
      rintro other e ⟨w, hw, hread⟩
      exact ⟨w, List.mem_cons_of_mem _ hw, hread⟩

theorem map_fails (keys : KeyShape) (read : Reader) (v : Value) :
    FailsWith (fun e => e.IsHere ∨ ∃ fields, v = .map fields ∧ e.Comes (EntryFails read fields))
      (map keys read .stored (.ofValue v)) := by
  cases v with
  | map fields =>
      have h := (entries_fails keys read fields).map Datum.ofEntries
      exact h.imp fun e he => .inr ⟨fields, rfl, he⟩
  | transform t => cases t <;> exact (FailsWith.typeMismatch _ _).imp fun _ => .inl
  | _ => exact (FailsWith.typeMismatch _ _).imp fun _ => .inl

/-! ## Records -/

/-- A record knows a name and its field, or the name is passed over or refused. -/
theorem fieldAt_cases (fields : List FieldReader) (strict : Bool) (name : String) :
    (∃ field ∈ fields, field.name = name ∧
        fieldAt fields strict .storedName (.text name) = .ok (some field)) ∨
      ((∀ field ∈ fields, field.name ≠ name) ∧
        (fieldAt fields strict .storedName (.text name) = .ok none ∨
          ∃ e, e.IsHere ∧ fieldAt fields strict .storedName (.text name) = .error e)) := by
  rw [fieldAt, place_name, ok_bind]
  cases hfind : (fields.map FieldReader.name).findIdx? (· == name) with
  | some index =>
      left
      have hname := getElem?_of_findIdx? hfind
      rw [List.getElem?_map] at hname
      obtain ⟨field, hfield, hname⟩ := Option.map_eq_some_iff.mp hname
      exact ⟨field, List.mem_of_getElem? hfield, hname, congrArg Except.ok hfield⟩
  | none =>
      refine .inr ⟨fun field hfield heq => ?_, ?_⟩
      · have hnone := List.findIdx?_eq_none_iff.mp hfind _ (List.mem_map_of_mem hfield)
        simp [heq] at hnone
      · cases strict with
        | false => exact .inl rfl
        | true => exact .inr ⟨_, Error.isHere_invalidArgument _, rfl⟩

/-- An error of a field that a record knows. -/
def FieldFails (fields : List FieldReader) (stored : Fields Value) (name : String) (e : Error) :
    Prop :=
  ∃ field ∈ fields, field.name = name ∧ EntryFails field.read stored name e

theorem newField_fails (field : FieldReader) (seen : List (String × Datum)) (v : Value) :
    FailsWith (Error.Comes fun segment e => segment = field.name ∧
      field.read .stored (.ofValue v) = .error e) (newField field seen .stored (.ofValue v)) := by
  unfold newField
  split
  · exact FailsWith.comes (.invalidArgument _)
  · have hread : FailsWith (Error.Comes fun segment e => segment = field.name ∧
        field.read .stored (.ofValue v) = .error e)
        (Format.stored.locate field.name (field.read .stored (.ofValue v))) :=
      .located fun e he => ⟨rfl, he⟩
    exact hread.bind fun _ => .ok _

theorem fieldEntries_fails (fields : List FieldReader) (strict : Bool) (stored : Fields Value)
    (seen : List (String × Datum)) :
    FailsWith (Error.Comes (FieldFails fields stored))
      (fieldEntries fields strict .stored seen (Source.ofFields stored)) := by
  induction stored generalizing seen with
  | nil => exact .ok _
  | cons entry rest ih =>
      obtain ⟨name, v⟩ := entry
      -- an error about a later field is one about a field of the whole map
      have hrest : ∀ seen, FailsWith (Error.Comes (FieldFails fields ((name, v) :: rest)))
          (fieldEntries fields strict .stored seen (Source.ofFields rest)) := fun seen => by
        refine (ih seen).imp fun e he => he.imp ?_
        rintro other e ⟨field, hfield, hname, w, hw, hread⟩
        exact ⟨field, hfield, hname, w, List.mem_cons_of_mem _ hw, hread⟩
      rw [Source.ofFields, fieldEntries]
      show FailsWith _ (fieldAt fields strict .storedName (.text name) >>= _)
      rcases fieldAt_cases fields strict name with
        ⟨field, hfield, hname, hat⟩ | ⟨_, hat | ⟨e, he, hat⟩⟩
      · rw [hat, ok_bind]
        refine ((newField_fails field seen v).imp fun e he => he.imp ?_).bind hrest
        rintro segment e ⟨rfl, hread⟩
        exact ⟨field, hfield, rfl, v, hname ▸ List.mem_cons_self, hread⟩
      · rw [hat, ok_bind]
        exact hrest seen
      · rw [hat, error_bind]
        exact .error (.inl he)

theorem newField_eq_ok {field : FieldReader} {seen all : List (String × Datum)} {format : Format}
    {s : Source} (h : newField field seen format s = .ok all) :
    ∃ d, all = (field.name, d) :: seen := by
  unfold newField at h
  split at h
  · contradiction
  · obtain ⟨d, _, h⟩ := bind_eq_ok.mp h
    cases h
    exact ⟨d, rfl⟩

/-- What was read before stays, and what stands under a name that the record knows is read. -/
theorem isSome_lookup_of_fieldEntries {fields : List FieldReader} {strict : Bool}
    {stored : Fields Value} {seen all : List (String × Datum)}
    (h : fieldEntries fields strict .stored seen (Source.ofFields stored) = .ok all)
    {field : FieldReader} (hfield : field ∈ fields)
    (hread : field.name ∈ stored.names ∨ (seen.lookup field.name).isSome = true) :
    (all.lookup field.name).isSome = true := by
  -- on the stored fields: what the record knows is seen from then on, the rest changes nothing
  induction stored generalizing seen with
  | nil =>
      cases h
      simpa [Fields.names] using hread
  | cons entry rest ih =>
      obtain ⟨name, v⟩ := entry
      have hnames : Fields.names ((name, v) :: rest) = name :: Fields.names rest := rfl
      rw [hnames, List.mem_cons, or_assoc] at hread
      rw [Source.ofFields, fieldEntries] at h
      change (fieldAt fields strict .storedName (.text name) >>= _) = _ at h
      rcases fieldAt_cases fields strict name with
        ⟨known, _, hname, hat⟩ | ⟨hunknown, hat | ⟨e, _, hat⟩⟩
      · rw [hat, ok_bind] at h
        obtain ⟨next, hnext, h⟩ := bind_eq_ok.mp h
        obtain ⟨d, rfl⟩ := newField_eq_ok hnext
        refine ih h ?_
        rw [List.lookup_cons, hname]
        by_cases hsame : field.name = name
        · exact .inr (by simp [hsame])
        · rw [beq_false_of_ne hsame]
          exact hread.resolve_left hsame
      · rw [hat, ok_bind] at h
        exact ih h (hread.resolve_left (hunknown field hfield))
      · rw [hat, error_bind] at h
        contradiction

theorem collect_fails (seen : List (String × Datum)) (fields : List FieldReader) :
    FailsWith (fun e => ∃ field ∈ fields, seen.lookup field.name = none ∧
      e = .missingField field.name) (collect seen fields) := by
  induction fields with
  | nil => exact .ok _
  | cons field rest ih =>
      rw [collect]
      cases hlookup : seen.lookup field.name <|> field.whenMissing with
      | some d =>
          refine (ih.imp fun e he => ?_).bind fun _ => .ok _
          obtain ⟨other, hother, he⟩ := he
          exact ⟨other, List.mem_cons_of_mem _ hother, he⟩
      | none =>
          have hnone : seen.lookup field.name = none := by
            cases h : seen.lookup field.name with
            | none => rfl
            | some d => simp [h] at hlookup
          exact .error ⟨field, List.mem_cons_self, hnone, rfl⟩

/-- An error of a record is one of its own, or one of a field, or a field is missing. -/
def RecordFails (fields : List FieldReader) (stored : Fields Value) (e : Error) : Prop :=
  e.Comes (FieldFails fields stored) ∨ ∃ name, stored.get? name = none ∧ e = .missingField name

theorem recordOf_fails (title : String) (fields : List FieldReader) (strict : Bool)
    (stored : Fields Value) :
    FailsWith (RecordFails fields stored)
      (recordOf title fields strict .stored (.map (Source.ofFields stored))) := by
  have hentries := (fieldEntries_fails fields strict stored []).imp fun e he =>
    (.inl he : RecordFails fields stored e)
  refine hentries.bind_of_ok fun all hall => ?_
  refine ((collect_fails all fields).imp fun e he => .inr ?_).map Datum.record
  obtain ⟨field, hfield, hlookup, rfl⟩ := he
  refine ⟨field.name, ?_, rfl⟩
  -- had the document the field, it would have been read
  cases hget : stored.get? field.name with
  | none => rfl
  | some v =>
      have hname : field.name ∈ stored.names := List.mem_map_of_mem (Fields.mem_of_get? hget)
      have hread := isSome_lookup_of_fieldEntries hall hfield (.inl hname)
      simp [hlookup] at hread

/-- What a reader of records makes of a value. -/
theorem recordOf_answer_fails (title : String) (fields : List FieldReader) (strict : Bool)
    (v : Value) :
    FailsWith (fun e => e.IsHere ∨ ∃ stored, v = .map stored ∧ RecordFails fields stored e)
      ((Source.ofValue v).answer .stored .map >>= recordOf title fields strict .stored) := by
  cases v with
  | map stored =>
      exact (recordOf_fails title fields strict stored).imp fun e he => .inr ⟨stored, rfl, he⟩
  | transform t => cases t <;> exact (FailsWith.typeMismatch _ _).imp fun _ => .inl
  | _ => exact (FailsWith.typeMismatch _ _).imp fun _ => .inl

/-! ## Variants -/

/-- A value is the name of a variant, or a map of a name and a payload, or refused. -/
theorem variantOf_cases (enumName : String) (v : Value) :
    (∃ name, v = .string name ∧
        variantOf enumName .stored (.ofValue v) = .ok (.text name, none)) ∨
      (∃ name w, v = .map [(name, w)] ∧
        variantOf enumName .stored (.ofValue v) = .ok (.text name, some (.ofValue w))) ∨
      ∃ e, e.IsHere ∧ variantOf enumName .stored (.ofValue v) = .error e := by
  cases v with
  | string name => exact .inl ⟨name, rfl, rfl⟩
  | map fields =>
      match fields with
      | [(name, w)] => exact .inr (.inl ⟨name, w, rfl, rfl⟩)
      | [] => exact .inr (.inr ⟨_, Error.isHere_typeMismatch _ _, rfl⟩)
      | _ :: _ :: _ => exact .inr (.inr ⟨_, Error.isHere_typeMismatch _ _, rfl⟩)
  | transform t => cases t <;> exact .inr (.inr ⟨_, Error.isHere_typeMismatch _ _, rfl⟩)
  | _ => exact .inr (.inr ⟨_, Error.isHere_typeMismatch _ _, rfl⟩)

theorem payloadUnit_fails (payload : Option Source) :
    FailsWith Error.IsHere (payloadUnit .stored payload) := by
  unfold payloadUnit
  split
  · exact .ok _
  · simp only [if_true]
    split
    · exact .ok _
    · exact .typeMismatch _ _

/-- Once its name is known, a variant fails as what it carries does. -/
theorem enum_fails {p : Error → Prop} {enumName name : String}
    {variants : List (String × PayloadReader)} {s : Source} {carried : Option Source}
    (hhere : ∀ e, e.IsHere → p e)
    (hvariant : variantOf enumName .stored s = .ok (.text name, carried))
    (h : ∀ read, (name, read) ∈ variants →
      FailsWith p (payload enumName name read .stored carried)) :
    FailsWith p (enum enumName variants .stored s) := by
  unfold enum
  rw [hvariant, ok_bind]
  simp only [Format.keys]
  rcases variantName_cases (variants.map Prod.fst) name with hok | ⟨e, he, herror⟩
  · rw [hok, ok_bind]
    cases hlookup : variants.lookup name with
    | none => exact .error (hhere _ ⟨rfl, by simp [Error.internal]⟩)
    | some read => exact h read (Fields.mem_of_get? (lookup_eq_get? variants name ▸ hlookup))
  · rw [herror, error_bind]
    exact .error (hhere e he)

end Reader

end Firestore
