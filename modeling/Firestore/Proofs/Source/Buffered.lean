import Firestore.Proofs.Source.AnyValue

/-!
# Data that is kept before it is read

A record that gathers the fields it does not know keeps what they hold, and reads it
when all fields have been seen.  Kept data has no leaves of its own.  A leaf is kept
as a map of one entry under its reserved name, and found again by that name alone, at
whatever depth it stands.  Hence the value that is read after all is the normal form of
the one that was stored (`keptAs_normalize`).

Maps that start with a reserved name are left aside.  Such a map stands inside an entry
of its own, and as what stands there is kept in the same way, it would do so without
end; `buffer` goes into it once.
-/

namespace Firestore

namespace Value

/-- A map whose first name is not reserved; other values have no names of their own. -/
def StartsFree : Value → Prop
  | .map ((name, _) :: _) => Marker.isReserved name = false
  | _ => True

instance : DecidablePred StartsFree
  | .map ((name, _) :: _) => inferInstanceAs (Decidable (Marker.isReserved name = false))
  | .map [] => .isTrue trivial
  | .null | .boolean _ | .integer _ | .double _ | .timestamp _ | .string _ | .bytes _
  | .reference _ | .geoPoint _ | .array _ | .transform _ => .isTrue trivial

instance (v : Value) : Decidable (v.Everywhere StartsFree) := decideEverywhere StartsFree v

end Value

namespace Source

open Value

/-- Stored data is kept in a form that is read as the value later on. -/
def KeptAs (s : Source) (v : Value) : Prop :=
  ∃ kept, s.buffer .stored = .ok kept ∧ kept.readValue .buffered = .ok v

/-! ## What is read of kept data -/

theorem readValue_kept_map (entries : List (Source × Source)) :
    readValue .buffered (.map entries) = acceptEntries .buffered entries := by
  cases entries with
  | nil => rfl
  | cons entry rest =>
      rw [readValue, acceptEntries]
      rfl

/-- A map that starts with a name that is not reserved is read field by field. -/
theorem acceptEntries_free {k : String} (hk : Marker.isReserved k = false) (format : Format)
    (s : Source) (rest : List (Source × Source)) :
    acceptEntries format ((.text k, s) :: rest) =
      (readEntries format ((.text k, s) :: rest) >>= fun fields =>
        .ok (.map (Fields.ofList fields))) := by
  obtain ⟨hnone, hliteral⟩ := Marker.isReserved_eq_false.mp hk
  simp [acceptEntries, hnone, hliteral]

/-- A leaf is found under its reserved name. -/
theorem acceptEntries_leaf (m : Marker) (content : Source) :
    acceptEntries .buffered [(.text m.name, content)] = readLeaf .buffered m content := by
  simp only [acceptEntries, readText_text, ok_bind, Marker.ofName?_name]
  show (readLeaf .buffered m content >>= fun v => .ok v) = _
  cases readLeaf .buffered m content <;> rfl

/-! ## The parts of a value -/

theorem KeptAs.leaf {m : Marker} {content : Source} {v : Value} (kept : Source)
    (hkeep : content.buffer .stored = .ok kept) (hread : readLeaf .buffered m kept = .ok v) :
    KeptAs (.leaf m content) v := by
  refine ⟨.map [(.text m.name, kept)], ?_, ?_⟩
  · rw [buffer, hkeep]
    rfl
  · rw [readValue_kept_map, acceptEntries_leaf, hread]

/-- Elements that are kept one by one are kept together. -/
theorem exists_keptAll {elements : List Value}
    (h : ∀ v ∈ elements, KeptAs (ofValue v) v.normalize) :
    ∃ kept, bufferAll .stored (ofValues elements) = .ok kept ∧
      ∀ index, readValues .buffered index kept = .ok (elements.map Value.normalize) := by
  induction elements with
  | nil => exact ⟨[], rfl, fun _ => rfl⟩
  | cons v rest ih =>
      obtain ⟨⟨s, hs, hv⟩, hrest⟩ := List.forall_mem_cons.mp h
      obtain ⟨kept, hkept, hall⟩ := ih hrest
      refine ⟨s :: kept, ?_, fun index => ?_⟩
      · rw [ofValues, bufferAll, hs, hkept]
        rfl
      · rw [readValues, hv, hall]
        rfl

/-- Fields that are kept one by one are kept together, under their names. -/
theorem exists_keptEntries {fields : List (String × Value)}
    (h : ∀ field ∈ fields, KeptAs (ofValue field.2) field.2.normalize) :
    ∃ kept, bufferEntries .stored (ofFields fields) = .ok kept ∧
      kept.map Prod.fst = fields.map (fun field => .text field.1) ∧
      readEntries .buffered kept = .ok (fields.map fun field => (field.1, field.2.normalize)) := by
  induction fields with
  | nil => exact ⟨[], rfl, rfl, rfl⟩
  | cons field rest ih =>
      obtain ⟨⟨s, hs, hv⟩, hrest⟩ := List.forall_mem_cons.mp h
      obtain ⟨kept, hkept, hnames, hall⟩ := ih hrest
      refine ⟨(.text field.1, s) :: kept, ?_, ?_, ?_⟩
      · rw [ofFields, bufferEntries, hs, hkept]
        rfl
      · rw [List.map_cons, List.map_cons, hnames]
      · rw [readEntries, readText_text, ok_bind, hv, hall]
        rfl

theorem keptAs_array {elements : List Value}
    (h : ∀ v ∈ elements, KeptAs (ofValue v) v.normalize) :
    KeptAs (ofValue (.array elements)) (Value.array elements).normalize := by
  obtain ⟨kept, hkept, hall⟩ := exists_keptAll h
  refine ⟨.seq kept, ?_, ?_⟩
  · rw [ofValue, buffer, hkept, map_ok]
  · rw [readValue, hall, ok_bind, normalize_array, pure_eq_ok]

/-- A map is kept as it is unless it starts with a reserved name. -/
theorem keptAs_map {fields : List (String × Value)} (hsorted : Fields.Sorted fields)
    (hfree : (Value.map fields).StartsFree)
    (h : ∀ field ∈ fields, KeptAs (ofValue field.2) field.2.normalize) :
    KeptAs (ofValue (.map fields)) (Value.map fields).normalize := by
  obtain ⟨kept, hkept, hnames, hall⟩ := exists_keptEntries h
  have hplain : startsReserved (ofFields fields) = false := by
    cases fields with
    | nil => rfl
    | cons field rest => exact hfree
  -- the buffer has the same first name, so what was kept is read as a map as well
  have haccept : acceptEntries .buffered kept =
      (readEntries .buffered kept >>= fun fields => .ok (.map (Fields.ofList fields))) := by
    cases fields with
    | nil =>
        rw [List.map_eq_nil_iff.mp hnames]
        rfl
    | cons field rest =>
        obtain ⟨⟨k, s⟩, more, rfl, hk, -⟩ := List.map_eq_cons_iff.mp hnames
        subst hk
        exact acceptEntries_free hfree _ _ _
  refine ⟨.map kept, by simp [ofValue, buffer, hkept, hplain], ?_⟩
  calc readValue .buffered (.map kept)
      = acceptEntries .buffered kept := readValue_kept_map kept
    _ = .ok (.map (Fields.ofList (fields.map fun field => (field.1, field.2.normalize)))) := by
        rw [haccept, hall, ok_bind]
    _ = .ok (Value.map fields).normalize := by
        rw [Fields.ofList_eq_self (sorted_normalize hsorted), normalize_map]

/-- The tag and the operands of a transform are kept as two items. -/
theorem keptAs_transform {t : Transform Value}
    (h : ∀ v ∈ t.operands, KeptAs (ofValue v) v.normalize) :
    KeptAs (ofValue (.transform t)) (Value.transform t).normalize := by
  obtain ⟨kept, hkept, hall⟩ := exists_keptAll h
  rw [ofValue_transform]
  refine KeptAs.leaf (.seq [.text t.tag, .seq kept]) ?_ ?_
  · simp [buffer, bufferAll, hkept]
  · simp [readLeaf, Format.locate, Format.finish, hall, makeTransform,
      Transform.ofParts?_tag_map, normalize_transform]

/-! ## The whole value -/

/-- The parts of a moment are integers, whose range is looked up once more. -/
theorem timestampContent_kept (t : Timestamp) :
    timestampContent .buffered (.seq [.int t.seconds, .int t.nanos.toInt64]) = .ok t.normalize := by
  simp [timestampContent, readPair, readTwo, readSeconds, readNanos, readInt, answer, shown,
    acceptInt, IntType.holds_i64, IntType.holds_i32, Timestamp.normalize, Format.locate,
    Format.finish]

theorem geoPointContent_kept (p : GeoPoint) :
    geoPointContent .buffered (.seq [.double p.latitude, .double p.longitude]) = .ok p := by
  simp [geoPointContent, readPair, readTwo, readDouble, answer, shown, GeoPoint.make_coordinates,
    Format.locate, Format.finish]

/-- **A stored value that is kept first is read as its normal form**, if no map inside it
starts with a reserved name. -/
theorem keptAs_normalize {v : Value} (hordered : v.Ordered) (hfree : v.Everywhere StartsFree) :
    KeptAs (ofValue v) v.normalize := by
  induction v with
  | array elements ih =>
      rw [ordered_array] at hordered
      obtain ⟨-, hfree⟩ := everywhere_array.mp hfree
      exact keptAs_array fun v hv => ih v hv (hordered v hv) (hfree v hv)
  | map fields ih =>
      obtain ⟨hsorted, hordered⟩ := ordered_map.mp hordered
      obtain ⟨hstart, hfree⟩ := everywhere_map.mp hfree
      exact keptAs_map hsorted hstart fun field hfield =>
        ih field hfield (hordered field hfield) (hfree field hfield)
  | transform t ih =>
      rw [ordered_transform] at hordered
      obtain ⟨-, hfree⟩ := everywhere_transform.mp hfree
      exact keptAs_transform fun v hv => ih v hv (hordered v hv) (hfree v hv)
  -- a leaf is kept under its reserved name, with the parts of its payload
  | timestamp t =>
      refine KeptAs.leaf (.seq [.int t.seconds, .int t.nanos.toInt64]) rfl ?_
      show Value.timestamp <$> timestampContent .buffered _ = _
      rw [timestampContent_kept, map_ok, Value.normalize]
  | geoPoint p =>
      refine KeptAs.leaf (.seq [.double p.latitude, .double p.longitude]) rfl ?_
      show Value.geoPoint <$> geoPointContent .buffered _ = _
      rw [geoPointContent_kept]
      rfl
  | reference name =>
      refine KeptAs.leaf (.text name) rfl ?_
      show Value.reference <$> readText .buffered _ = _
      rw [readText_text]
      rfl
  | _ => exact ⟨_, rfl, rfl⟩

end Source

end Firestore
