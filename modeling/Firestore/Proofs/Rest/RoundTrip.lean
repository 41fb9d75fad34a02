import Firestore.Proofs.Base64
import Firestore.Proofs.Fields
import Firestore.Proofs.Number.Decimal
import Firestore.Proofs.Time.Reading
import Firestore.Proofs.Value.Transforms
import Firestore.Rest.Value

/-!
# Values are read back from the REST notation

A REST notation has one member, so its kind is the kind that was written, whatever
the names inside are (`of?_tagged`).  The leaves that are written as texts are read
back by the round trips of their own notations; arrays and maps are read back part by
part, the fields of a map being in order already.

The moments that the notation can hold are the normal ones with a year of four digits;
the text of any other moment of the calendar is not read (`parseTimestamp_restTimestamp_iff`).
-/

namespace Firestore

/-- A moment that RFC 3339 has a text for: its year has four digits, and its
nanoseconds lie in one second. -/
def Timestamp.HasText (t : Timestamp) : Prop :=
  t.IsNormal ∧ -62167219200 ≤ t.seconds.toInt ∧ t.seconds.toInt ≤ 253402300799

instance (t : Timestamp) : Decidable t.HasText :=
  inferInstanceAs (Decidable (_ ∧ _))

namespace TypeName

theorem of?_tagged (t : TypeName) (content : Json) : of? [(t.name, content)] = some t := by
  cases t <;> rfl

end TypeName

/-! ## Leaves -/

/-- The notation of a leaf is read by the reader of its kind. -/
theorem restDecode_tagged {t : TypeName} (harray : t ≠ .array) (hmap : t ≠ .map) (content : Json) :
    restDecode (t.tagged content) = decodeLeaf t content := by
  rw [TypeName.tagged, restDecode, TypeName.of?_tagged]
  have hcontent : (Fields.get? [(t.name, content)] t.name).getD .null = content := by
    rw [Fields.get?_cons, if_pos rfl, Option.getD_some]
  cases t with
  | array => exact absurd rfl harray
  | map => exact absurd rfl hmap
  | _ => exact congrArg (decodeLeaf _) hcontent

theorem decodeDouble_restDouble (x : Double) : decodeDouble (restDouble x) = .ok x := by
  cases x with
  | nan => rfl
  | signed negative rank =>
      by_cases hinfinite : rank.val = BinaryFormat.double.infinity
      · have hrank : Floating.infinite negative = .signed negative rank := by
          unfold Floating.infinite Floating.ofRank
          congr 1
          exact Fin.ext (by rw [hinfinite]; exact Nat.min_self _)
        rw [restDouble, if_pos hinfinite, ← hrank]
        cases negative <;> rfl
      · rw [restDouble, if_neg hinfinite]
        rfl

/-- The moment of a timestamp of a year of four digits. -/
theorem toDateTime?_of_hasText {t : Timestamp} (h : t.HasText) :
    t.toDateTime? = some ⟨t.seconds.toInt, t.nanos.toInt.toNat⟩ := by
  obtain ⟨⟨hlow, hhigh⟩, hfirst, hlast⟩ := h
  unfold Timestamp.nanosPerSecond at hhigh
  rw [Timestamp.toDateTime?, DateTime.make?, DateTime.firstSecond_eq, DateTime.lastSecond_eq,
    if_pos (by omega)]

theorem parseTimestamp_eq_ok {text : String} {t : Timestamp} :
    parseTimestamp text = .ok t ↔ ∃ d, Rfc3339.read text = .ok d ∧ Timestamp.ofDateTime d = t := by
  unfold parseTimestamp
  cases Rfc3339.read text <;> simp

theorem restTimestamp_eq_ok {t : Timestamp} {text : String} :
    restTimestamp t = .ok text ↔ ∃ d, t.toDateTime? = some d ∧ Rfc3339.write d = text := by
  unfold restTimestamp
  cases t.toDateTime? <;> simp

/-- A moment of the calendar is read back from its text just if its year has four digits. -/
theorem parseTimestamp_restTimestamp_iff {t : Timestamp} (hnormal : t.IsNormal) {text : String}
    (h : restTimestamp t = .ok text) (u : Timestamp) :
    parseTimestamp text = .ok u ↔ u = t ∧ t.HasText := by
  obtain ⟨d, hmoment, rfl⟩ := restTimestamp_eq_ok.mp h
  obtain ⟨hseconds, hcalendar⟩ := Timestamp.moment_of_toDateTime? hnormal hmoment
  have hself : Timestamp.ofDateTime d = t := Timestamp.ofDateTime_toDateTime? hnormal hmoment
  rw [parseTimestamp_eq_ok, Timestamp.HasText, and_iff_right hnormal, ← hseconds]
  constructor
  · rintro ⟨e, hread, rfl⟩
    obtain ⟨rfl, hyears⟩ := (Rfc3339.read_write_iff hcalendar e).mp hread
    exact ⟨hself, hyears⟩
  · rintro ⟨rfl, hyears⟩
    exact ⟨d, (Rfc3339.read_write_iff hcalendar d).mpr ⟨rfl, hyears⟩, hself⟩

/-- **A timestamp of a year of four digits is read from its text.** -/
theorem parseTimestamp_restTimestamp {t : Timestamp} (h : t.HasText) :
    ∃ text, restTimestamp t = .ok text ∧ parseTimestamp text = .ok t := by
  have hwrite := restTimestamp_eq_ok.mpr ⟨_, toDateTime?_of_hasText h, rfl⟩
  exact ⟨_, hwrite, (parseTimestamp_restTimestamp_iff h.1 hwrite t).mpr ⟨rfl, h⟩⟩

theorem restDecode_integer (n : Int64) :
    restDecode (TypeName.integer.tagged (.string (toString n.toInt))) = .ok (.integer n) := by
  rw [restDecode_tagged (by decide) (by decide), decodeLeaf, decodeInteger,
    Numeral.readInt64_toString]
  rfl

theorem restDecode_double (x : Double) :
    restDecode (TypeName.double.tagged (restDouble x)) = .ok (.double x) := by
  rw [restDecode_tagged (by decide) (by decide), decodeLeaf, decodeDouble_restDouble, map_ok]

theorem restDecode_bytes (bs : List UInt8) :
    restDecode (TypeName.bytes.tagged (.string (Base64.encode bs))) = .ok (.bytes bs) := by
  have htext : textOf .bytes (.string (Base64.encode bs)) = .ok (Base64.encode bs) := rfl
  rw [restDecode_tagged (by decide) (by decide), decodeLeaf, htext, ok_bind,
    Base64.decodeText_encode]
  rfl

theorem restDecode_geoPoint (p : GeoPoint) :
    restDecode (TypeName.geoPoint.tagged (.object [("latitude", .number (.double p.latitude)),
      ("longitude", .number (.double p.longitude))])) = .ok (.geoPoint p) := by
  rw [restDecode_tagged (by decide) (by decide)]
  show Value.geoPoint <$> GeoPoint.make p.latitude p.longitude = _
  rw [GeoPoint.make_coordinates, map_ok]

/-! ## Arrays and maps -/

/-- A notation of a value, which is read back as the value. -/
def RestRoundTrips (v : Value) : Prop :=
  ∃ j, restEncode v = .ok j ∧ restDecode j = .ok v

private theorem exists_restEncodeAll {elements : List Value}
    (h : ∀ v ∈ elements, RestRoundTrips v) (index : Nat) :
    ∃ js, restEncodeAll index elements = .ok js ∧
      ∀ start, restDecodeAll start js = .ok elements := by
  induction elements generalizing index with
  | nil => exact ⟨[], rfl, fun _ => rfl⟩
  | cons v rest ih =>
      obtain ⟨⟨j, hwrite, hread⟩, hrest⟩ := List.forall_mem_cons.mp h
      obtain ⟨js, hwriteRest, hreadRest⟩ := ih hrest (index + 1)
      refine ⟨j :: js, ?_, ?_⟩
      · rw [restEncodeAll, hwrite]
        show (restEncodeAll (index + 1) rest >>= fun js => .ok (j :: js)) = _
        rw [hwriteRest, ok_bind]
      · intro start
        rw [restDecodeAll, hread]
        show (restDecodeAll (start + 1) js >>= fun elements => .ok (v :: elements)) = _
        rw [hreadRest, ok_bind]

private theorem exists_restEncodeFields {fields : List (String × Value)}
    (h : ∀ field ∈ fields, RestRoundTrips field.2) :
    ∃ members, restEncodeFields fields = .ok members ∧
      restDecodeMembers members = .ok fields := by
  induction fields with
  | nil => exact ⟨[], rfl, rfl⟩
  | cons field rest ih =>
      obtain ⟨⟨j, hwrite, hread⟩, hrest⟩ := List.forall_mem_cons.mp h
      obtain ⟨members, hwriteRest, hreadRest⟩ := ih hrest
      obtain ⟨key, v⟩ := field
      refine ⟨(key, j) :: members, ?_, ?_⟩
      · rw [restEncodeFields, hwrite]
        show (restEncodeFields rest >>= fun members => .ok ((key, j) :: members)) = _
        rw [hwriteRest, ok_bind]
      · rw [restDecodeMembers, hread]
        show (restDecodeMembers members >>= fun fields => .ok ((key, v) :: fields)) = _
        rw [hreadRest, ok_bind]

theorem RestRoundTrips.array {elements : List Value} (h : ∀ v ∈ elements, RestRoundTrips v) :
    RestRoundTrips (.array elements) := by
  obtain ⟨js, hwrite, hread⟩ := exists_restEncodeAll h 0
  refine ⟨TypeName.array.tagged (.object [("values", .array js)]), ?_, ?_⟩
  · rw [restEncode, hwrite]
    rfl
  · rw [TypeName.tagged, restDecode, TypeName.of?_tagged]
    show (restDecodeAll 0 js >>= fun elements => .ok (Value.array elements)) = _
    rw [hread, ok_bind]

/-- The names of a map are members of their own object, so none of them is taken for
the name of a kind. -/
theorem RestRoundTrips.map {fields : List (String × Value)} (hsorted : Fields.Sorted fields)
    (h : ∀ field ∈ fields, RestRoundTrips field.2) : RestRoundTrips (.map fields) := by
  obtain ⟨members, hwrite, hread⟩ := exists_restEncodeFields h
  refine ⟨TypeName.map.tagged (.object [("fields", .object members)]), ?_, ?_⟩
  · rw [restEncode, hwrite]
    rfl
  · have hfields : restDecodeFields [("fields", .object members)] = .ok fields := by
      rw [restDecodeFields, if_pos rfl]
      show (restDecodeMembers members >>= fun fields => .ok (Fields.ofList fields)) = _
      rw [hread, ok_bind, Fields.ofList_eq_self hsorted]
    rw [TypeName.tagged, restDecode, TypeName.of?_tagged]
    show (restDecodeFields [("fields", .object members)] >>= fun fields =>
      .ok (Value.map fields)) = _
    rw [hfields, ok_bind]

/-! ## Every value -/

/-- **A value without transforms is read back from its REST notation**, if its moments
have years of four digits. -/
theorem restDecode_restEncode {v : Value} (hordered : v.Ordered)
    (htransform : v.hasTransform = false) (htimes : v.TimesAre Timestamp.HasText) :
    ∃ j, restEncode v = .ok j ∧ restDecode j = .ok v := by
  show RestRoundTrips v
  -- the three conditions go down to the parts of a value, so the induction is on the value
  induction v with
  | null => exact ⟨_, rfl, rfl⟩
  | boolean b => exact ⟨_, rfl, rfl⟩
  | integer n => exact ⟨_, rfl, restDecode_integer n⟩
  | double x => exact ⟨_, rfl, restDecode_double x⟩
  | timestamp t =>
      obtain ⟨text, hwrite, hread⟩ :=
        parseTimestamp_restTimestamp (Value.timesAre_timestamp.mp htimes)
      refine ⟨TypeName.timestamp.tagged (.string text), ?_, ?_⟩
      · rw [restEncode, hwrite]
        rfl
      · rw [restDecode_tagged (by decide) (by decide)]
        show (parseTimestamp text >>= fun t => .ok (Value.timestamp t)) = _
        rw [hread, ok_bind]
  | string s => exact ⟨_, rfl, restDecode_tagged (by decide) (by decide) _⟩
  | bytes bs => exact ⟨_, rfl, restDecode_bytes bs⟩
  | reference name => exact ⟨_, rfl, restDecode_tagged (by decide) (by decide) _⟩
  | geoPoint p => exact ⟨_, rfl, restDecode_geoPoint p⟩
  | array elements ih =>
      apply RestRoundTrips.array
      intro v hv
      exact ih v hv (Value.ordered_array.mp hordered v hv)
        (Value.hasTransform_array.mp htransform v hv) (Value.timesAre_array.mp htimes v hv)
  | map fields ih =>
      obtain ⟨hsorted, hfields⟩ := Value.ordered_map.mp hordered
      apply RestRoundTrips.map hsorted
      intro field hfield
      exact ih field hfield (hfields field hfield)
        (Value.hasTransform_map.mp htransform field hfield)
        (Value.timesAre_map.mp htimes field hfield)
  | transform t => cases htransform

/-- Names of kinds as names of fields, the ends of the range of moments, and the doubles
that JSON has no numeral for. -/
theorem restDecode_restEncode_names :
    let doubles : List Value :=
      [.double .nan, .double (.infinite true), .double (.ofRank true 0)]
    let moments : List Value :=
      [.timestamp ⟨-62167219200, 0⟩, .timestamp ⟨253402300799, 999999999⟩]
    let v : Value := .map
      [("arrayValue", .array doubles), ("mapValue", .map [("fields", .bytes [0, 255])]),
        ("timestampValue", .array moments)]
    v.Ordered ∧ v.hasTransform = false ∧ v.TimesAre Timestamp.HasText ∧
      ∃ j, restEncode v = .ok j ∧ restDecode j = .ok v := by
  intro doubles moments v
  have hordered : v.Ordered := by decide
  have htransform : v.hasTransform = false := by decide
  have htimes : v.TimesAre Timestamp.HasText := by decide
  exact ⟨hordered, htransform, htimes, restDecode_restEncode hordered htransform htimes⟩

end Firestore
