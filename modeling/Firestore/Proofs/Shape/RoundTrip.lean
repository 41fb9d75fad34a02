import Firestore.Proofs.Native.Stored
import Firestore.Proofs.Path.Resource
import Firestore.Proofs.Shape.Readers
import Firestore.Proofs.Time.Moment
import Firestore.Shape.Typing
import Mathlib.Algebra.Group.Int.Defs

/-!
# Data of every type is read back

Writing data of a type and reading the stored value gives the data back, if every
datum inside can be stored (`roundTrips`).

The proof follows the data.  Each lemma takes one way to build a type: its parts are
written and read back, so it is.  Writing and reading are two separate programs, which
meet only in the stored value; hence `RoundTrips` says that there is such a value, and
the lemmas about sequences and fields collect the values of all parts.
-/

namespace Firestore

/-! ## Writing the parts -/

namespace Native

variable {β : Type} {write : β → Native} {Good : β → Value → Prop} {items : List β}

/-- Items that make good values one by one make them together. -/
theorem exists_encodeAll (h : ∀ b ∈ items, ∃ v, (write b).encode = .ok v ∧ Good b v)
    (index : Nat) :
    ∃ elements, encodeAll index (items.map write) = .ok elements ∧
      List.Forall₂ Good items elements := by
  induction items generalizing index with
  | nil => exact ⟨[], rfl, List.Forall₂.nil⟩
  | cons b rest ih =>
      obtain ⟨⟨v, hv, hgood⟩, hrest⟩ := List.forall_mem_cons.mp h
      obtain ⟨elements, helements, hall⟩ := ih hrest (index + 1)
      refine ⟨v :: elements, ?_, List.Forall₂.cons hgood hall⟩
      rw [List.map_cons, encodeAll, hv]
      show (encodeAll (index + 1) (rest.map write) >>= fun elements => .ok (v :: elements)) = _
      rw [helements, ok_bind]

/-- Entries that make good values one by one make them together, under the keys that they
write. -/
theorem exists_encodeEntries {writeKey : β → Native} {name : β → String}
    (hkey : ∀ b, (writeKey b).key = .ok (name b))
    (h : ∀ b ∈ items, ∃ v, (write b).encode = .ok v ∧ Good b v) :
    ∃ pairs, encodeEntries (items.map fun b => (writeKey b, write b)) = .ok pairs ∧
      List.Forall₂ (fun b pair => pair.1 = name b ∧ Good b pair.2) items pairs := by
  induction items with
  | nil => exact ⟨[], rfl, List.Forall₂.nil⟩
  | cons b rest ih =>
      obtain ⟨⟨v, hv, hgood⟩, hrest⟩ := List.forall_mem_cons.mp h
      obtain ⟨pairs, hpairs, hall⟩ := ih hrest
      refine ⟨(name b, v) :: pairs, ?_, List.Forall₂.cons ⟨rfl, hgood⟩ hall⟩
      rw [List.map_cons, encodeEntries, hkey, ok_bind, hv]
      show (encodeEntries (rest.map fun b => (writeKey b, write b)) >>= fun pairs =>
        .ok ((name b, v) :: pairs)) = _
      rw [hpairs, ok_bind]

end Native

/-- A key writes itself. -/
theorem Key.key_native (k : Key) : k.native.key = .ok k.written := by
  cases k <;> rfl

namespace Shape

/-- Data is written, and what is written is read back as that data. -/
def RoundTrips (shape : Shape) (d : Datum) : Prop :=
  ∃ v, shape.encode d = .ok v ∧ shape.decode v = .ok d

/-! ## Shapes side by side with data -/

theorem natives_eq_map (shapes : List Shape) (data : List Datum) :
    natives shapes data = (shapes.zip data).map fun pair => pair.1.native pair.2 := by
  induction shapes generalizing data with
  | nil => rfl
  | cons shape shapes ih =>
      cases data with
      | nil => rfl
      | cons d data => rw [natives, ih, List.zip_cons_cons, List.map_cons]

theorem nativeFields_eq_map (fields : List (Field Shape)) (data : List (String × Datum)) :
    nativeFields fields data =
      (fields.zip data).map fun pair => (pair.1.name, pair.1.shape.native pair.2.2) := by
  induction fields generalizing data with
  | nil => rfl
  | cons field fields ih =>
      cases data with
      | nil => rfl
      | cons entry data => rw [nativeFields, ih, List.zip_cons_cons, List.map_cons]

/-- Among variants of different names, the one with the name is written. -/
theorem nativeVariant_of_mem {variants : List (String × Payload Shape)} {chosen : String}
    {payload : Payload Shape} (hnodup : (variants.map Prod.fst).Nodup)
    (hmem : (chosen, payload) ∈ variants) (d : Datum) :
    nativeVariant variants chosen d = .variant chosen (nativePayload payload d) := by
  induction variants with
  | nil => cases hmem
  | cons variant rest ih =>
      obtain ⟨hout, hrest⟩ := List.nodup_cons.mp hnodup
      rcases List.mem_cons.mp hmem with heq | hlater
      · rw [← heq, nativeVariant, if_pos rfl]
      · have hne : chosen ≠ variant.1 := fun heq => hout (heq ▸ List.mem_map_of_mem hlater)
        rw [nativeVariant, if_neg hne, ih hrest hlater]

/-- Fields and entries that have the same names have them place by place. -/
private theorem name_of_mem_zip {fields : List (Field Shape)} {data : List (String × Datum)}
    (hnames : fields.map Field.name = data.map Prod.fst) {pair : Field Shape × String × Datum}
    (hpair : pair ∈ fields.zip data) : pair.1.name = pair.2.1 := by
  induction fields generalizing data with
  | nil => cases hpair
  | cons field fields ih =>
      cases data with
      | nil => cases hpair
      | cons entry data =>
          obtain ⟨hname, hrest⟩ := List.cons.inj hnames
          rcases List.mem_cons.mp hpair with rfl | hlater
          · exact hname
          · exact ih hrest hlater

/-! ## Sequences -/

theorem RoundTrips.list {item : Shape} {data : List Datum} (h : ∀ d ∈ data, item.RoundTrips d) :
    (Shape.list item).RoundTrips (.seq data) := by
  obtain ⟨elements, hwrite, hread⟩ :=
    @Native.exists_encodeAll _ item.native (fun d v => item.reader.Takes v d) data h 0
  refine ⟨.array elements, ?_, Reader.list_takes hread⟩
  show (Native.encodeAll 0 (data.map item.native) >>= fun elements =>
    .ok (Value.array elements)) = _
  rw [hwrite, ok_bind]

private theorem forall₂_readers {shapes : List Shape} {data : List Datum} {elements : List Value}
    (h : List.Forall₂ (fun pair v => pair.1.reader.Takes v pair.2) (shapes.zip data) elements) :
    List.Forall₂ (fun pair v => pair.1.Takes v pair.2) ((readers shapes).zip data) elements := by
  rw [readers_eq_map, List.zip_map_left, List.forall₂_map_left_iff]
  exact h

/-- Items of their own shapes are written as an array that is read item by item. -/
theorem exists_array {shapes : List Shape} {data : List Datum}
    (hlength : shapes.length = data.length)
    (h : ∀ pair ∈ shapes.zip data, pair.1.RoundTrips pair.2) :
    ∃ elements, (Native.seq (natives shapes data)).encode = .ok (.array elements) ∧
      ∀ expected lengthText,
        (Reader.tuple expected lengthText (readers shapes)).Takes
          (.array elements) (.seq data) := by
  obtain ⟨elements, hwrite, hread⟩ :=
    @Native.exists_encodeAll (Shape × Datum) (fun pair => pair.1.native pair.2)
      (fun pair v => pair.1.reader.Takes v pair.2) (shapes.zip data) h 0
  have hreaders : (readers shapes).length = data.length := by
    rw [readers_eq_map, List.length_map, hlength]
  refine ⟨elements, ?_, Reader.tuple_takes hreaders (forall₂_readers hread)⟩
  rw [natives_eq_map, Native.encode, hwrite, ok_bind]
  rfl

theorem RoundTrips.tuple {shapes : List Shape} {data : List Datum}
    (hlength : shapes.length = data.length)
    (h : ∀ pair ∈ shapes.zip data, pair.1.RoundTrips pair.2) :
    (Shape.tuple shapes).RoundTrips (.seq data) := by
  obtain ⟨elements, hwrite, hread⟩ := exists_array hlength h
  exact ⟨.array elements, hwrite, hread _ _⟩

theorem RoundTrips.tupleStruct {name : String} {shapes : List Shape} {data : List Datum}
    (hlength : shapes.length = data.length)
    (h : ∀ pair ∈ shapes.zip data, pair.1.RoundTrips pair.2) :
    (Shape.tupleStruct name shapes).RoundTrips (.seq data) := by
  obtain ⟨elements, hwrite, hread⟩ := exists_array hlength h
  exact ⟨.array elements, hwrite, hread _ _⟩

/-- An array is a tuple all of whose items have one shape. -/
theorem RoundTrips.array {item : Shape} {data : List Datum} (h : ∀ d ∈ data, item.RoundTrips d) :
    (Shape.array data.length item).RoundTrips (.seq data) := by
  have hzip : (List.replicate data.length item).zip data = data.map fun d => (item, d) := by
    clear h
    induction data with
    | nil => rfl
    | cons d rest ih =>
        rw [List.length_cons, List.replicate_succ, List.zip_cons_cons, ih, List.map_cons]
  have hall : ∀ pair ∈ (List.replicate data.length item).zip data, pair.1.RoundTrips pair.2 := by
    rw [hzip]
    intro pair hpair
    obtain ⟨d, hd, rfl⟩ := List.mem_map.mp hpair
    exact h d hd
  -- both ways go through the tuple of as many items
  have hnatives : natives (List.replicate data.length item) data = data.map item.native := by
    rw [natives_eq_map, hzip, List.map_map]
    rfl
  have hreaders : readers (List.replicate data.length item) =
      List.replicate data.length item.reader := by
    rw [readers_eq_map, List.map_replicate]
  obtain ⟨elements, hwrite, hread⟩ := exists_array (by simp) hall
  rw [hnatives] at hwrite
  rw [hreaders] at hread
  exact ⟨.array elements, hwrite, hread _ _⟩

/-! ## Options and wrappers -/

theorem RoundTrips.present {inner : Shape} {d : Datum} (h : inner.RoundTrips d)
    (hnull : inner.encode d ≠ .ok .null) : (Shape.option inner).RoundTrips (.present d) := by
  obtain ⟨v, hwrite, hread⟩ := h
  refine ⟨v, hwrite, Reader.option_takes hread ?_⟩
  -- a null would be read as absent
  rintro rfl
  exact hnull hwrite

/-- A wrapper of a name that is not reserved is not seen in the stored value. -/
theorem RoundTrips.wrapper {name : String} {inner : Shape} {d : Datum}
    (hfree : Marker.ofName? name = none) (h : inner.RoundTrips d) :
    (Shape.wrapper name inner).RoundTrips d := by
  obtain ⟨v, hwrite, hread⟩ := h
  refine ⟨v, ?_, Reader.wrapper_takes hfree hread⟩
  have hinner : (inner.native d).encode = .ok v := hwrite
  rw [encode, native, Native.encode, hinner, ok_bind, hfree]
  rfl

/-! ## Maps and records -/

private theorem names_of_forall₂ {β : Type} {name : β → String}
    {Good : β → String × Value → Prop} {items : List β} {pairs : List (String × Value)}
    (h : List.Forall₂ (fun b pair => pair.1 = name b ∧ Good b pair) items pairs) :
    pairs.map Prod.fst = items.map name := by
  induction h with
  | nil => rfl
  | cons hpair _ ih => rw [List.map_cons, List.map_cons, hpair.1, ih]

section Maps

variable {keys : KeyShape} {content : Shape} {entries : List (Key × Datum)}

/-- Entries that are written under different names have fields of their own, which stand in the
order of the names. -/
theorem exists_map (hnodup : (entries.map fun entry => entry.1.written).Nodup)
    (h : ∀ entry ∈ entries, content.RoundTrips entry.2) :
    ∃ fields back, (Shape.map keys content).encode (.map entries) = .ok (.map fields) ∧
      back.Perm entries ∧ (back.Pairwise fun a b => a.1.written < b.1.written) ∧
      List.Forall₂ (fun entry field => field.1 = entry.1.written ∧
        content.reader.Takes field.2 entry.2) back fields := by
  obtain ⟨pairs, hwrite, hread⟩ :=
    @Native.exists_encodeEntries (Key × Datum) (fun entry => content.native entry.2)
      (fun entry v => content.reader.Takes v entry.2) entries (fun entry => entry.1.native)
      (fun entry => entry.1.written) (fun entry => entry.1.key_native) h
  have hpairs : pairs.map Prod.fst = entries.map fun entry => entry.1.written :=
    @names_of_forall₂ (Key × Datum) (fun entry => entry.1.written) _ _ _ hread
  -- the fields stand in the order of their names, and the entries can be moved along
  obtain ⟨back, hback, hperm⟩ :=
    List.perm_comp_forall₂ (Fields.perm_ofList (hpairs ▸ hnodup)) hread.flip
  have hnames : (Fields.ofList pairs).map Prod.fst = back.map fun entry => entry.1.written :=
    @names_of_forall₂ (Key × Datum) (fun entry => entry.1.written) _ _ _ hback.flip
  have hordered : ((Fields.ofList pairs).map Prod.fst).Pairwise (· < ·) :=
    List.pairwise_map.mpr (Fields.sorted_ofList pairs)
  refine ⟨Fields.ofList pairs, back, ?_, hperm, List.pairwise_map.mp (hnames ▸ hordered),
    hback.flip⟩
  show (Native.encodeEntries (entries.map fun entry => (entry.1.native, content.native entry.2)) >>=
    fun fields => .ok (Value.map (Fields.ofList fields))) = _
  rw [hwrite, ok_bind]

/-- Entries in order are read back if their keys are. -/
theorem decode_map {fields : Fields Value}
    (hkeys : ∀ entry ∈ entries, Reader.key keys .storedName (.text entry.1.written) = .ok entry.1)
    (hordered : entries.Pairwise fun a b => a.1.written < b.1.written)
    (hread : List.Forall₂ (fun entry field => field.1 = entry.1.written ∧
      content.reader.Takes field.2 entry.2) entries fields) :
    (Shape.map keys content).decode (.map fields) = .ok (.map entries) := by
  refine Reader.map_takes hordered ?_
  refine ((List.forall₂_and_left entries fields).mpr ⟨hkeys, hread⟩).imp ?_
  rintro entry field ⟨hkey, hname, htakes⟩
  rw [hname]
  exact ⟨hkey, htakes⟩

end Maps

theorem RoundTrips.map {content : Shape} {fields : Fields Datum} (hsorted : Fields.Sorted fields)
    (h : ∀ field ∈ fields, content.RoundTrips field.2) :
    (Shape.map .text content).RoundTrips
      (.map (fields.map fun field => (.text field.1, field.2))) := by
  have hnames : ((fields.map fun field => (Key.text field.1, field.2)).map
      fun entry => entry.1.written).Nodup := by
    rw [List.map_map]
    exact hsorted.nodup_names
  obtain ⟨stored, back, hwrite, hperm, hordered, hread⟩ :=
    @exists_map .text content _ hnames (List.forall_mem_map.mpr h)
  have hback : back = fields.map fun field => (.text field.1, field.2) :=
    hperm.eq_of_pairwise (fun a b _ _ hab hba => absurd hba (lt_asymm hab)) hordered
      (List.pairwise_map.mpr hsorted)
  subst hback
  refine ⟨.map stored, hwrite, decode_map ?_ hordered hread⟩
  intro entry hentry
  obtain ⟨field, _, rfl⟩ := List.mem_map.mp hentry
  rfl

/-- The fields of a record are written as a map that is read field by field, in the
order of its names. -/
theorem exists_record {fields : List (Field Shape)} {data : List (String × Datum)}
    (hnodup : (fields.map Field.name).Nodup)
    (hnames : fields.map Field.name = data.map Prod.fst)
    (h : ∀ pair ∈ fields.zip data, pair.1.shape.RoundTrips pair.2.2) :
    ∃ stored, (Native.record (nativeFields fields data)).encode = .ok (.map stored) ∧
      ∀ title strict, Reader.recordOf title (fieldReaders fields) strict .stored
        (.map (Source.ofFields stored)) = .ok (.record data) := by
  obtain ⟨pairs, hwrite, hread⟩ :=
    @Native.exists_encodeEntries (Field Shape × String × Datum)
      (fun pair => pair.1.shape.native pair.2.2)
      (fun pair v => pair.1.shape.reader.Takes v pair.2.2) (fields.zip data)
      (fun pair => .text pair.1.name) (fun pair => pair.1.name) (fun _ => rfl) h
  have hdata : (data.map Prod.fst).Nodup := hnames ▸ hnodup
  have hpairs : pairs.map Prod.fst = data.map Prod.fst := by
    have hlength : fields.length = data.length := by simpa using congrArg List.length hnames
    calc pairs.map Prod.fst
        = (fields.zip data).map fun pair => pair.1.name :=
          @names_of_forall₂ (Field Shape × String × Datum) (fun pair => pair.1.name) _ _ _ hread
      _ = ((fields.zip data).map Prod.fst).map Field.name := by rw [List.map_map]; rfl
      _ = data.map Prod.fst := by rw [List.map_fst_zip hlength.le, hnames]
  -- the stored map has the fields in the order of their names, not in that of the record
  have hperm : (Fields.ofList pairs).Perm pairs := Fields.perm_ofList (hpairs ▸ hdata)
  refine ⟨Fields.ofList pairs, ?_, ?_⟩
  · rw [nativeFields_eq_map, Native.record, List.map_map, Native.encode]
    show (Native.encodeEntries ((fields.zip data).map fun pair =>
      (.text pair.1.name, pair.1.shape.native pair.2.2)) >>= fun fields =>
        .ok (Value.map (Fields.ofList fields))) = _
    rw [hwrite, ok_bind]
  · refine Reader.record_takes ?_ ?_ (hpairs ▸ hperm.map Prod.fst) ?_
    · rwa [fieldReaders_names]
    · rwa [fieldReaders_names]
    · intro pair hpair
      obtain ⟨⟨field, entry⟩, hmem, hname, htakes⟩ :=
        exists_of_mem_forall₂ hread (hperm.mem_iff.mp hpair)
      obtain ⟨hfield, hentry⟩ := List.of_mem_zip hmem
      have hsame : field.name = entry.1 := name_of_mem_zip hnames hmem
      refine ⟨fieldReader field, ?_, hname.symm, entry.2, ?_, htakes⟩
      · rw [fieldReaders_eq_map]
        exact List.mem_map_of_mem hfield
      · rw [hname, hsame, Reader.lookup_eq_get?]
        exact Fields.get?_of_mem hdata hentry

theorem RoundTrips.record {name : String} {fields : List (Field Shape)} {strict : Bool}
    {data : List (String × Datum)} (hnodup : (fields.map Field.name).Nodup)
    (hnames : fields.map Field.name = data.map Prod.fst)
    (h : ∀ pair ∈ fields.zip data, pair.1.shape.RoundTrips pair.2.2) :
    (Shape.record name fields strict).RoundTrips (.record data) := by
  obtain ⟨stored, hwrite, hread⟩ := exists_record hnodup hnames h
  exact ⟨.map stored, hwrite, hread s!"struct {name}" strict⟩

/-! ## Variants -/

section Variants

variable {name chosen : String} {variants : List (String × Payload Shape)}

private theorem mem_variantReaders {payload : Payload Shape} (hmem : (chosen, payload) ∈ variants) :
    (chosen, payloadReader payload) ∈ variantReaders variants := by
  rw [variantReaders_eq_map]
  exact List.mem_map.mpr ⟨(chosen, payload), hmem, rfl⟩

theorem RoundTrips.symbol (hnodup : (variants.map Prod.fst).Nodup)
    (hmem : (chosen, .unit) ∈ variants) :
    (Shape.enum name variants).RoundTrips (.symbol chosen) := by
  have hreaders : ((variantReaders variants).map Prod.fst).Nodup := by
    rwa [variantReaders_names]
  exact ⟨.string chosen, rfl, Reader.enum_symbol hreaders (mem_variantReaders hmem)⟩

/-- A variant is read back if its payload is, as a payload of its kind. -/
private theorem roundTrips_variant {payload : Payload Shape} {v : Value} {d : Datum}
    (hnodup : (variants.map Prod.fst).Nodup) (hmem : (chosen, payload) ∈ variants)
    (hwrite : (nativePayload payload d).encode = .ok v)
    (hread : Reader.payload name chosen (payloadReader payload) .stored (some (.ofValue v)) =
      .ok (.variant chosen d)) :
    (Shape.enum name variants).RoundTrips (.variant chosen d) := by
  have hreaders : ((variantReaders variants).map Prod.fst).Nodup := by
    rwa [variantReaders_names]
  refine ⟨.map [(chosen, v)], ?_, Reader.enum_variant hreaders (mem_variantReaders hmem) hread⟩
  rw [encode, native, nativeVariant_of_mem hnodup hmem, Native.encode, hwrite]
  rfl

theorem RoundTrips.variant {content : Shape} {d : Datum}
    (hnodup : (variants.map Prod.fst).Nodup) (hmem : (chosen, .one content) ∈ variants)
    (h : content.RoundTrips d) : (Shape.enum name variants).RoundTrips (.variant chosen d) := by
  obtain ⟨v, hwrite, hread⟩ := h
  exact roundTrips_variant hnodup hmem hwrite (Reader.payload_one hread)

theorem RoundTrips.tupleVariant {shapes : List Shape} {data : List Datum}
    (hnodup : (variants.map Prod.fst).Nodup) (hmem : (chosen, .tuple shapes) ∈ variants)
    (hlength : shapes.length = data.length)
    (h : ∀ pair ∈ shapes.zip data, pair.1.RoundTrips pair.2) :
    (Shape.enum name variants).RoundTrips (.variant chosen (.seq data)) := by
  obtain ⟨elements, hwrite, hread⟩ := exists_array hlength h
  exact roundTrips_variant hnodup hmem hwrite (Reader.payload_tuple hread)

theorem RoundTrips.recordVariant {fields : List (Field Shape)} {data : List (String × Datum)}
    (hnodup : (variants.map Prod.fst).Nodup) (hmem : (chosen, .record fields) ∈ variants)
    (hnodupFields : (fields.map Field.name).Nodup)
    (hnames : fields.map Field.name = data.map Prod.fst)
    (h : ∀ pair ∈ fields.zip data, pair.1.shape.RoundTrips pair.2.2) :
    (Shape.enum name variants).RoundTrips (.variant chosen (.record data)) := by
  obtain ⟨stored, hwrite, hread⟩ := exists_record hnodupFields hnames h
  exact roundTrips_variant hnodup hmem hwrite (Reader.payload_record fun title => hread title _)

end Variants

/-! ## Scalars and leaves -/

theorem RoundTrips.int {t : IntType} {n : Int} (holds : t.holds n = true)
    (hfits : -2 ^ 63 ≤ n ∧ n < 2 ^ 63) : (Shape.int t).RoundTrips (.int n) := by
  have hword : (Int64.ofInt n).toInt = n :=
    Int64.toInt_ofInt_of_le hfits.1 (by omega)
  have hwrite : (Native.int n).encode = .ok (.integer (.ofInt n)) := by
    rw [Native.encode, int64?_eq_some hfits.1 hfits.2]
  refine ⟨.integer (.ofInt n), hwrite, ?_⟩
  have haccept : Source.acceptInt t (.int n) = .ok n := by
    simp [Source.acceptInt, holds]
  show Datum.int <$> Source.acceptInt t (.int (Int64.ofInt n).toInt) = _
  rw [hword, haccept, map_ok]

theorem RoundTrips.char (c : Char) : Shape.char.RoundTrips (.char c) := by
  refine ⟨.string c.toString, rfl, ?_⟩
  have hchars : c.toString.toList = [c] := String.toList_singleton c
  have hanswer : (Source.text c.toString).answer .stored .text = .ok (.text c.toString) := rfl
  have hread : Source.readChar .stored (.text c.toString) = .ok c := by
    rw [Source.readChar, hanswer, ok_bind]
    simp only [hchars, pure_eq_ok]
  show Datum.char <$> Source.readChar .stored (.text c.toString) = _
  rw [hread]
  rfl

/-- A normal timestamp is stored as itself, and is read from its seconds and nanoseconds. -/
private theorem readTimestamp_stored {t : Timestamp} (h : t.IsNormal) :
    Source.readTimestamp .stored (.ofValue (.timestamp t)) = .ok t := by
  have hparts := Source.timestampContent_parts t
  rw [Timestamp.normalize, Timestamp.normalized_of_isNormal h] at hparts
  exact hparts

private theorem encode_timestamp {t : Timestamp} (h : t.IsNormal) :
    (Native.ofTimestamp t).encode = .ok (.timestamp t) := by
  rw [Native.encode_ofTimestamp, Timestamp.normalize, Timestamp.normalized_of_isNormal h]

theorem RoundTrips.timestamp {t : Timestamp} (h : t.IsNormal) :
    Shape.timestamp.RoundTrips (.value (.timestamp t)) := by
  refine ⟨.timestamp t, encode_timestamp h, ?_⟩
  show (fun t => Datum.value (.timestamp t)) <$>
    Source.readTimestamp .stored (.ofValue (.timestamp t)) = _
  rw [readTimestamp_stored h, map_ok]

theorem RoundTrips.geoPoint (p : GeoPoint) : Shape.geoPoint.RoundTrips (.value (.geoPoint p)) := by
  refine ⟨.geoPoint p, Native.encode_ofGeoPoint p, ?_⟩
  show (fun p => Datum.value (.geoPoint p)) <$>
    Source.geoPointContent .stored (.seq [.double p.latitude, .double p.longitude]) = _
  rw [Source.geoPointContent_parts, map_ok]

/-- The operands of a transform come back, and the tag tells which transform it was. -/
theorem RoundTrips.transform {t : Transform Value} (hordered : (Value.transform t).Ordered)
    (htimes : (Value.transform t).TimesAre Timestamp.IsNormal) :
    Shape.transform.RoundTrips (.value (.transform t)) := by
  have hself : (Value.transform t).normalize = .transform t := Value.normalize_eq_self htimes
  refine ⟨.transform t, ?_, ?_⟩
  · show (Native.ofValue (.transform t)).encode = _
    rw [Native.encode_ofValue hordered, hself]
  · show (fun t => Datum.value (.transform t)) <$>
      Source.readTransform .stored (.ofValue (.transform t)) = _
    rw [Source.readTransform_ofValue hordered, map_ok, ← Value.normalize_transform, hself]

theorem RoundTrips.value {v : Value} (hordered : v.Ordered)
    (htimes : v.TimesAre Timestamp.IsNormal) : Shape.value.RoundTrips (.value v) := by
  have hself : v.normalize = v := Value.normalize_eq_self htimes
  refine ⟨v, ?_, ?_⟩
  · show (Native.ofValue v).encode = _
    rw [Native.encode_ofValue hordered, hself]
  · show Datum.value <$> Source.readValue .stored (.ofValue v) = _
    rw [Source.readValue_ofValue hordered, hself, map_ok]

theorem RoundTrips.reference {d : DocumentReference} (hproject : IsSegment d.database.project)
    (hdatabase : IsSegment d.database.database)
    (hpath : ∀ segment ∈ d.path.segments, IsSegment segment) :
    Shape.reference.RoundTrips (.reference d) := by
  refine ⟨.reference d.name, Native.encode_ofReference d.name, ?_⟩
  show Datum.reference <$> Source.asPlain (DocumentReference.ofName d.name) = _
  rw [DocumentReference.ofName_name hproject hdatabase hpath, Source.asPlain_ok, map_ok]

private theorem momentReader_takes {d : DateTime}
    (hcalendar : DateTime.make? d.seconds d.nanos = some d) (hwhole : d.nanos = 0) :
    Reader.Takes momentReader (.timestamp (.ofDateTimeSeconds d)) (.moment d) := by
  have hnormal : (Timestamp.ofDateTimeSeconds d).IsNormal := Timestamp.isNormal_normalized _ _
  rw [Reader.Takes, momentReader, readTimestamp_stored hnormal, ok_bind,
    Timestamp.toDateTime?_ofDateTimeSeconds hcalendar hwhole]
  rfl

theorem RoundTrips.moment {d : DateTime}
    (hcalendar : DateTime.make? d.seconds d.nanos = some d) (hwhole : d.nanos = 0) :
    Shape.moment.RoundTrips (.moment d) :=
  ⟨.timestamp (.ofDateTimeSeconds d), encode_timestamp (Timestamp.isNormal_normalized _ _),
    momentReader_takes hcalendar hwhole⟩

theorem RoundTrips.someMoment {d : DateTime}
    (hcalendar : DateTime.make? d.seconds d.nanos = some d) (hwhole : d.nanos = 0) :
    Shape.optionalMoment.RoundTrips (.present (.moment d)) := by
  refine ⟨.timestamp (.ofDateTimeSeconds d), ?_, ?_⟩
  · exact encode_timestamp (Timestamp.isNormal_normalized _ _)
  · exact Reader.option_takes (momentReader_takes hcalendar hwhole) (by intro h; cases h)

/-! ## Every type -/

/-- **Data that can be stored is written, and read back as itself.** -/
theorem roundTrips {shape : Shape} {d : Datum} (h : shape.Has CanStore d) :
    ∃ v, shape.encode d = .ok v ∧ shape.decode v = .ok d := by
  show shape.RoundTrips d
  -- on the proof that the data has the type: each way of having one has its lemma above
  induction h with
  | bool b => exact ⟨.boolean b, rfl, rfl⟩
  | int t n holds here => exact .int holds here
  | double x => exact ⟨.double x, rfl, rfl⟩
  | char c => exact .char c
  | text s => exact ⟨.string s, rfl, rfl⟩
  | unit => exact ⟨.null, rfl, rfl⟩
  | unitStruct name => exact ⟨.null, rfl, rfl⟩
  | absent inner => exact ⟨.null, rfl, Reader.option_null _⟩
  | present _ here ih => exact .present ih here
  | list _ _ ih => exact .list ih
  | array _ _ ih => exact .array ih
  | tuple length _ _ ih => exact .tuple length ih
  | tupleStruct length _ _ ih => exact .tupleStruct length ih
  | wrapper free _ _ ih => exact .wrapper free ih
  | map sorted _ _ ih => exact .map sorted ih
  | record nodup names _ _ ih => exact .record nodup names ih
  | symbol nodup mem => exact .symbol nodup mem
  | variant nodup mem _ _ ih => exact .variant nodup mem ih
  | tupleVariant nodup mem length _ _ ih => exact .tupleVariant nodup mem length ih
  | recordVariant nodup mem nodupFields names _ _ ih =>
      exact .recordVariant nodup mem nodupFields names ih
  | timestamp t here => exact .timestamp (Value.timesAre_timestamp.mp here)
  | geoPoint p => exact .geoPoint p
  | bytes bs => exact ⟨.bytes bs, Native.encode_ofBytes bs, rfl⟩
  | transform t ordered here => exact .transform ordered here
  | value v ordered here => exact .value ordered here
  | reference d path here => exact .reference here.1 here.2 path
  | moment d calendar here => exact .moment calendar here
  | noMoment => exact ⟨.null, rfl, rfl⟩
  | someMoment d calendar here => exact .someMoment calendar here

/-- A visit: who came, in which mood, when, and some notes under their names. -/
theorem roundTrips_visit :
    let level : Field Shape := { name := "level", shape := .option (.int .u128) }
    let mood : Shape := .enum "Mood"
      [("calm", .unit), ("both", .tuple [.char, .wrapper "Degree" .double]),
        ("loud", .record [level])]
    let visit : Shape := .record "Visit"
      [{ name := "guest", shape := .reference }, { name := "mood", shape := .list mood },
        { name := "at", shape := .moment }, { name := "notes", shape := .map .text .value }] true
    let guest : DocumentReference := ⟨⟨"p", "(default)"⟩, ⟨⟨["guests", "ann"]⟩, by decide⟩⟩
    let moods : List Datum :=
      [.symbol "calm", .variant "loud" (.record [("level", .present (.int 7))])]
    let data : Datum := .record
      [("guest", .reference guest), ("mood", .seq moods), ("at", .moment ⟨1700000000, 0⟩),
        ("notes", .map [(.text "$__firestore_map", .value (.transform .serverTimestamp))])]
    visit.Has CanStore data ∧ ∃ v, visit.encode data = .ok v ∧ visit.decode v = .ok data := by
  intro level mood visit guest moods data
  have hnodup : ["calm", "both", "loud"].Nodup := by decide
  have hlevel : level.shape.Has CanStore (.present (.int 7)) :=
    .present (.int .u128 7 (by decide) (And.intro (by decide) (by decide))) (by intro h; cases h)
  have hcalm : mood.Has CanStore (.symbol "calm") :=
    .symbol hnodup (by simp) trivial
  have hloud : mood.Has CanStore (.variant "loud" (.record [("level", .present (.int 7))])) :=
    .recordVariant hnodup (List.mem_cons_of_mem _ (List.mem_cons_of_mem _ List.mem_cons_self))
      (by simp) rfl (by simpa using hlevel) trivial
  have hguest : Shape.reference.Has CanStore (.reference guest) :=
    .reference guest (by decide) (And.intro (by decide) (by decide))
  have hmoods : (Shape.list mood).Has CanStore (.seq moods) :=
    .list (by simpa [moods] using ⟨hcalm, hloud⟩) trivial
  have hat : Shape.moment.Has CanStore (.moment ⟨1700000000, 0⟩) :=
    .moment _ (by decide) rfl
  have htimes : (Value.transform .serverTimestamp).TimesAre Timestamp.IsNormal := by decide
  have hnote : Shape.value.Has CanStore (.value (.transform .serverTimestamp)) :=
    .value _ (by decide) htimes
  have hnotes : (Shape.map .text .value).Has CanStore
      (.map [(.text "$__firestore_map", .value (.transform .serverTimestamp))]) :=
    @Has.map CanStore .value [("$__firestore_map", .value (.transform .serverTimestamp))]
      (List.pairwise_singleton _ _) (by simpa using hnote) trivial
  have hvisit : visit.Has CanStore data :=
    .record (by simp) rfl (by simpa using ⟨hguest, hmoods, hat, hnotes⟩) trivial
  exact ⟨hvisit, roundTrips hvisit⟩

end Shape

end Firestore
