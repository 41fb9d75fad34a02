import Firestore.Proofs.Rest.Reading

/-!
# Sending back what was read

A notation that was written stands for the value it was written for and for no other
one; whether it can be read is a matter of the moments in it alone (`StandsFor`).
Whatever has been read can be written again, but an offset or a leap second may have
moved a moment past the years that have texts (`restDecode_sentBack`).
-/

namespace Firestore

open Value

/-- A notation is read as one value, just if there are texts for the moments in that value. -/
def StandsFor (j : Json) (v : Value) : Prop :=
  ∀ w, restDecode j = .ok w ↔ w = v ∧ v.TimesAre Timestamp.HasText

/-! ## Leaves -/

/-- A notation that is read as a value whose moments have texts. -/
theorem standsFor_of_restDecode {j : Json} {v : Value} (h : restDecode j = .ok v)
    (htimes : v.TimesAre Timestamp.HasText) : StandsFor j v := by
  intro w
  rw [h, Except.ok.injEq, and_iff_left htimes]
  exact eq_comm

theorem restDecode_timestamp (text : String) :
    restDecode (TypeName.timestamp.tagged (.string text)) =
      Value.timestamp <$> parseTimestamp text := by
  rw [restDecode_tagged (by decide) (by decide)]
  rfl

/-! ## Arrays and maps -/

theorem restEncodeAll_eq_ok {index : Nat} {elements : List Value} {js : List Json} :
    restEncodeAll index elements = .ok js ↔
      List.Forall₂ (fun v j => restEncode v = .ok j) elements js :=
  indexed_eq_ok restEncodeAll restEncode (fun _ => rfl) fun _ _ _ => rfl

theorem restEncodeFields_eq_ok {fields : List (String × Value)} {members : List (String × Json)} :
    restEncodeFields fields = .ok members ↔
      List.Forall₂ (fun field member => member.1 = field.1 ∧ restEncode field.2 = .ok member.2)
        fields members :=
  named_eq_ok restEncodeFields restEncode rfl fun _ _ => rfl

/-- What was sent part by part is read back part by part, if each part can be. -/
private theorem forall₂_sentBack {α β : Type} {Sent : α → β → Prop} {Read : β → α → Prop}
    {good : α → Prop} {parts : List α} {sent : List β} (h : List.Forall₂ Sent parts sent)
    (hback : ∀ a ∈ parts, ∀ b, Sent a b → ∀ c, Read b c ↔ c = a ∧ good a) (read : List α) :
    List.Forall₂ Read sent read ↔ read = parts ∧ ∀ a ∈ parts, good a := by
  induction h generalizing read with
  | nil => simp
  | @cons a b parts sent hab _ ih =>
      obtain ⟨ha, hparts⟩ := List.forall_mem_cons.mp hback
      rw [List.forall₂_cons_left_iff, List.forall_mem_cons]
      constructor
      · rintro ⟨c, others, hc, hothers, rfl⟩
        obtain ⟨rfl, hgood⟩ := (ha b hab c).mp hc
        obtain ⟨rfl, hall⟩ := (ih hparts others).mp hothers
        exact ⟨rfl, hgood, hall⟩
      · rintro ⟨rfl, hgood, hall⟩
        exact ⟨a, parts, (ha b hab a).mpr ⟨rfl, hgood⟩, (ih hparts parts).mpr ⟨rfl, hall⟩, rfl⟩

theorem restDecode_array (inner : List (String × Json)) :
    restDecode (TypeName.array.tagged (.object inner)) =
      Value.array <$> restDecodeValues inner := by
  rw [TypeName.tagged, restDecode, TypeName.of?_tagged]
  rfl

theorem restDecode_map (inner : List (String × Json)) :
    restDecode (TypeName.map.tagged (.object inner)) = Value.map <$> restDecodeFields inner := by
  rw [TypeName.tagged, restDecode, TypeName.of?_tagged]
  rfl

theorem standsFor_array {elements : List Value} {js : List Json}
    (h : List.Forall₂ (fun v j => restEncode v = .ok j) elements js)
    (hback : ∀ v ∈ elements, ∀ j, restEncode v = .ok j → StandsFor j v) :
    StandsFor (TypeName.array.tagged (.object [("values", .array js)])) (.array elements) := by
  intro w
  have hvalues : restDecodeValues [("values", .array js)] = restDecodeAll 0 js := rfl
  rw [restDecode_array, timesAre_array, hvalues]
  refine map_eq_ok_of_known (fun read => ?_) Value.array w
  rw [restDecodeAll_eq_ok]
  exact forall₂_sentBack h hback read

/-- Fields that were sent are read back where they are found by their name. -/
theorem restDecodeFields_sent {fields : Fields Value} {members outer : List (String × Json)}
    (hsorted : Fields.Sorted fields) (h : restEncodeFields fields = .ok members)
    (hback : ∀ field ∈ fields, ∀ j, restEncode field.2 = .ok j → StandsFor j field.2)
    (houter : Fields.get? outer "fields" = some (.object members)) (read : Fields Value) :
    restDecodeFields outer = .ok read ↔
      read = fields ∧ ∀ field ∈ fields, field.2.TimesAre Timestamp.HasText := by
  have hsame : ∀ field ∈ fields, ∀ member : String × Json,
      (member.1 = field.1 ∧ restEncode field.2 = .ok member.2) → ∀ back : String × Value,
      (back.1 = member.1 ∧ restDecode member.2 = .ok back.2) ↔
        back = field ∧ field.2.TimesAre Timestamp.HasText := by
    rintro field hfield member ⟨hname, hsent⟩ back
    rw [hback field hfield member.2 hsent back.2, hname, ← and_assoc, ← Prod.ext_iff]
  have hmembers : ∀ list, restDecodeMembers members = .ok list ↔
      list = fields ∧ ∀ field ∈ fields, field.2.TimesAre Timestamp.HasText := by
    intro list
    rw [restDecodeMembers_eq_ok]
    exact forall₂_sentBack (restEncodeFields_eq_ok.mp h) hsame list
  have hread : restDecodeFields outer = Fields.ofList <$> restDecodeMembers members := by
    rw [restDecodeFields_eq, houter]
  rw [hread, map_eq_ok_of_known hmembers, Fields.ofList_eq_self hsorted]

theorem standsFor_map {fields : Fields Value} {members : List (String × Json)}
    (hsorted : Fields.Sorted fields) (h : restEncodeFields fields = .ok members)
    (hback : ∀ field ∈ fields, ∀ j, restEncode field.2 = .ok j → StandsFor j field.2) :
    StandsFor (TypeName.map.tagged (.object [("fields", .object members)])) (.map fields) := by
  intro w
  rw [restDecode_map, timesAre_map]
  exact map_eq_ok_of_known (restDecodeFields_sent hsorted h hback rfl) Value.map w

/-! ## Every value -/

/-- **A notation that was written stands for the value it was written for.** -/
theorem standsFor_of_restEncode {v : Value} (hordered : v.Ordered)
    (htimes : v.TimesAre Timestamp.IsNormal) {j : Json} (h : restEncode v = .ok j) :
    StandsFor j v := by
  -- leaves other than moments stand for themselves whatever the moments around them are; a moment
  -- is read back just if it has a text, and arrays and maps just if all of their parts are
  induction v generalizing j with
  | null =>
      cases h
      exact standsFor_of_restDecode rfl trivial
  | boolean b =>
      cases h
      exact standsFor_of_restDecode rfl trivial
  | integer n =>
      cases h
      exact standsFor_of_restDecode (restDecode_integer n) trivial
  | double x =>
      cases h
      exact standsFor_of_restDecode (restDecode_double x) trivial
  | timestamp t =>
      obtain ⟨text, hwrite, h⟩ := bind_eq_ok.mp h
      cases h
      intro w
      have hback := parseTimestamp_restTimestamp_iff (timesAre_timestamp.mp htimes) hwrite
      rw [restDecode_timestamp, timesAre_timestamp]
      exact map_eq_ok_of_known hback Value.timestamp w
  | string s =>
      cases h
      exact standsFor_of_restDecode (restDecode_tagged (by decide) (by decide) _) trivial
  | bytes bs =>
      cases h
      exact standsFor_of_restDecode (restDecode_bytes bs) trivial
  | reference name =>
      cases h
      exact standsFor_of_restDecode (restDecode_tagged (by decide) (by decide) _) trivial
  | geoPoint p =>
      cases h
      exact standsFor_of_restDecode (restDecode_geoPoint p) trivial
  | array elements ih =>
      obtain ⟨js, hjs, h⟩ := bind_eq_ok.mp h
      cases h
      refine standsFor_array (restEncodeAll_eq_ok.mp hjs) fun v hv j hj => ?_
      exact ih v hv (ordered_array.mp hordered v hv) (timesAre_array.mp htimes v hv) hj
  | map fields ih =>
      obtain ⟨members, hmembers, h⟩ := bind_eq_ok.mp h
      cases h
      obtain ⟨hsorted, hfields⟩ := ordered_map.mp hordered
      refine standsFor_map hsorted hmembers fun field hfield j hj => ?_
      exact ih field hfield (hfields field hfield) (timesAre_map.mp htimes field hfield) hj
  | transform t => cases h

/-- **Whatever was read can be sent, and no other value is read from what is sent.**  The value
itself is, unless an offset or a leap second moved one of its moments past the years of four
digits. -/
theorem restDecode_sentBack {j : Json} {v : Value} (h : restDecode j = .ok v) :
    ∃ sent, restEncode v = .ok sent ∧
      ∀ w, restDecode sent = .ok w ↔ w = v ∧ v.TimesAre Timestamp.HasText := by
  obtain ⟨hordered, hplain, htimes⟩ := isReadable_of_restDecode h
  have hcalendar : v.TimesAre Timestamp.InCalendar := htimes.imp fun _ => And.right
  have hnormal : v.TimesAre Timestamp.IsNormal := htimes.imp fun _ => And.left
  obtain ⟨sent, hsent⟩ := exists_restEncode_iff.mpr ⟨hplain, hcalendar⟩
  exact ⟨sent, hsent, standsFor_of_restEncode hordered hnormal hsent⟩

/-- Half past midnight on the first day of the year 0, an hour east of universal time. -/
theorem restDecode_sentBack_offset :
    let moment : Json := TypeName.timestamp.tagged (.string "0000-01-01T00:30:00+01:00")
    let j : Json := TypeName.map.tagged (.object [("fields", .object [("at", moment)])])
    let v : Value := .map [("at", .timestamp ⟨-62167221000, 0⟩)]
    restDecode j = .ok v ∧ ¬ v.TimesAre Timestamp.HasText ∧
      ∃ sent, restEncode v = .ok sent ∧
        ∀ w, restDecode sent = .ok w ↔ w = v ∧ v.TimesAre Timestamp.HasText := by
  intro moment j v
  have htime : parseTimestamp "0000-01-01T00:30:00+01:00" = .ok ⟨-62167221000, 0⟩ :=
    toOption_eq_some.mp (by decide +kernel)
  have hmoment : restDecode moment = .ok (.timestamp ⟨-62167221000, 0⟩) := by
    rw [restDecode_timestamp, htime, map_ok]
  have hmembers : restDecodeMembers [("at", moment)] =
      .ok [("at", .timestamp ⟨-62167221000, 0⟩)] :=
    restDecodeMembers_eq_ok.mpr (.cons ⟨rfl, hmoment⟩ .nil)
  have hfields : restDecodeFields [("fields", .object [("at", moment)])] =
      Fields.ofList <$> restDecodeMembers [("at", moment)] := restDecodeFields_eq _
  have hread : restDecode j = .ok v := by
    rw [restDecode_map, hfields, hmembers]
    rfl
  exact ⟨hread, by decide, restDecode_sentBack hread⟩

/-- The leap second at the end of the year 9999 is sent as the start of the year 10000, which is
not read. -/
theorem restDecode_leapSecond :
    let v : Value := .timestamp ⟨253402300800, 0⟩
    let sent : Json := TypeName.timestamp.tagged (.string "+10000-01-01T00:00:00.000000000Z")
    restDecode (TypeName.timestamp.tagged (.string "9999-12-31T23:59:60Z")) = .ok v ∧
      restEncode v = .ok sent ∧ ∀ w, restDecode sent ≠ .ok w := by
  intro v sent
  have htime : parseTimestamp "9999-12-31T23:59:60Z" = .ok ⟨253402300800, 0⟩ :=
    toOption_eq_some.mp (by decide +kernel)
  have htext : restTimestamp ⟨253402300800, 0⟩ = .ok "+10000-01-01T00:00:00.000000000Z" :=
    toOption_eq_some.mp (by decide +kernel)
  have hread : restDecode (TypeName.timestamp.tagged (.string "9999-12-31T23:59:60Z")) = .ok v := by
    rw [restDecode_timestamp, htime, map_ok]
  have hsent : restEncode v = .ok sent := by
    rw [restEncode, htext]
    rfl
  refine ⟨hread, hsent, fun w hw => ?_⟩
  have hstands : StandsFor sent v := standsFor_of_restEncode (by decide) (by decide) hsent
  have hno : ¬ v.TimesAre Timestamp.HasText := by decide
  exact hno ((hstands w).mp hw).2

end Firestore
