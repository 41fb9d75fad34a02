import Firestore.Proofs.Base64.Strict
import Firestore.Proofs.Number.Literal
import Firestore.Proofs.Number.Rank
import Firestore.Proofs.Rest.Reading
import Firestore.Proofs.Time.Grammar

/-!
# Which JSON values are notations

The grammar of the REST notation, apart from the way in which it is read: an object whose
first kind has a payload that suits it (`Json.IsNotation`).  The payloads of leaves are
given by the grammars of their texts.

The reader takes more than that.  It sees nothing in the payload of a point or an array
that is no object, or in a list of values that is none, and reads the point at the origin
or the empty array (`restDecode_overlooked`), although it refuses such a payload of a map.
With these payloads allowed at any depth, the grammar says exactly what is read
(`restDecode_accepts`).
-/

namespace Firestore

/-! ## The grammar -/

namespace TypeName

/-- The kind is the first one that some members name, with a payload. -/
def Leads (t : TypeName) (payload : Json) (members : List (String × Json)) : Prop :=
  Fields.get? members t.name = some payload ∧
    ∃ before after, all = before ++ t :: after ∧
      ∀ earlier ∈ before, Fields.get? members earlier.name = none

/-- A coordinate that is left out, or a number of at most so many degrees. -/
def IsCoordinate (bound : Nat) : Option Json → Prop
  | none => True
  | some (.number n) => n.toDouble.AtMost bound
  | some _ => False

/-- The payloads of the kinds without values inside. -/
def IsPayload : TypeName → Json → Prop
  | .null, _ => True
  | .boolean, .bool _ => True
  | .integer, .number n => ∃ k : Int64, n = .ofInt k.toInt
  | .integer, .string s => ∃ k : Int64, Numeral.IsDecimal s k.toInt
  | .double, .number _ => True
  | .double, .string s => Numeral.IsLiteral s
  | .timestamp, .string s => ∃ d, Rfc3339.IsMoment d s.toList
  | .string, .string _ => True
  | .bytes, .string s => ∃ bytes, s = Base64.encode bytes
  | .reference, .string _ => True
  | .geoPoint, .object members =>
      IsCoordinate 90 (Fields.get? members "latitude") ∧
        IsCoordinate 180 (Fields.get? members "longitude")
  | _, _ => False

/-- The payloads in which the reader sees nothing: no object, or no list of values. -/
inductive IsOverlooked : TypeName → Json → Prop
  | geoPoint {payload : Json} (h : ∀ members, payload ≠ .object members) :
      IsOverlooked .geoPoint payload
  | array {payload : Json} (h : ∀ members, payload ≠ .object members) : IsOverlooked .array payload
  | values {members : List (String × Json)} {values : Json}
      (hvalues : Fields.get? members "values" = some values) (hnull : values ≠ .null)
      (hlist : ∀ elements, values ≠ .array elements) : IsOverlooked .array (.object members)

end TypeName

/-- JSON values that are notations, if some payloads of some kinds count besides. -/
inductive Json.IsNotation (besides : TypeName → Json → Prop) : Json → Prop
  | besides {members : List (String × Json)} {t : TypeName} {payload : Json}
      (hkind : t.Leads payload members) (h : besides t payload) :
      IsNotation besides (.object members)
  | leaf {members : List (String × Json)} {t : TypeName} {payload : Json}
      (hkind : t.Leads payload members) (h : t.IsPayload payload) :
      IsNotation besides (.object members)
  | emptyArray {members inner : List (String × Json)}
      (hkind : TypeName.array.Leads (.object inner) members)
      (hvalues : ∀ values, Fields.get? inner "values" = some values → values = .null) :
      IsNotation besides (.object members)
  | array {members inner : List (String × Json)} {elements : List Json}
      (hkind : TypeName.array.Leads (.object inner) members)
      (hvalues : Fields.get? inner "values" = some (.array elements))
      (helements : ∀ j ∈ elements, IsNotation besides j) : IsNotation besides (.object members)
  | emptyMap {members inner : List (String × Json)}
      (hkind : TypeName.map.Leads (.object inner) members)
      (hfields : Fields.get? inner "fields" = none) : IsNotation besides (.object members)
  | map {members inner fields : List (String × Json)}
      (hkind : TypeName.map.Leads (.object inner) members)
      (hfields : Fields.get? inner "fields" = some (.object fields))
      (hmembers : ∀ field ∈ fields, IsNotation besides field.2) :
      IsNotation besides (.object members)

/-- A notation as the format has it. -/
def Json.IsWellFormed (j : Json) : Prop := j.IsNotation fun _ _ => False

/-! ## Kinds -/

namespace TypeName

variable {members : List (String × Json)} {t : TypeName} {payload : Json}

theorem Leads.of? (h : t.Leads payload members) : TypeName.of? members = some t := by
  obtain ⟨hpayload, before, after, hall, habsent⟩ := h
  rw [TypeName.of?, List.find?_eq_some_iff_append]
  refine ⟨by rw [hpayload]; rfl, before, after, hall, fun earlier hearlier => ?_⟩
  rw [habsent earlier hearlier]
  rfl

theorem exists_leads_of_of? (h : TypeName.of? members = some t) :
    ∃ payload, t.Leads payload members := by
  obtain ⟨hsome, before, after, hall, habsent⟩ := List.find?_eq_some_iff_append.mp h
  obtain ⟨payload, hpayload⟩ := Option.isSome_iff_exists.mp hsome
  refine ⟨payload, hpayload, before, after, hall, fun earlier hearlier => ?_⟩
  simpa using habsent earlier hearlier

theorem Leads.eq {u : TypeName} {other : Json} (h : t.Leads payload members)
    (hother : u.Leads other members) : u = t ∧ other = payload := by
  obtain rfl := Option.some.inj (hother.of?.symm.trans h.of?)
  exact ⟨rfl, Option.some.inj (hother.1.symm.trans h.1)⟩

theorem leads_tagged (t : TypeName) (payload : Json) : t.Leads payload [(t.name, payload)] := by
  obtain ⟨found, hleads⟩ := exists_leads_of_of? (of?_tagged t payload)
  have hfound := hleads.1
  rw [Fields.get?_cons, if_pos rfl] at hfound
  obtain rfl := Option.some.inj hfound
  exact hleads

end TypeName

/-! ## Leaves -/

/-- The number of a 64-bit integer, and no other, is one. -/
theorem JsonNumber.toInt64?_eq_some {n : JsonNumber} {k : Int64} :
    n.toInt64? = some k ↔ n = .ofInt k.toInt := by
  have hlow := k.minValue_le_toInt
  have hhigh := k.toInt_lt
  rw [Int64.toInt_minValue] at hlow
  cases n with
  | double x => exact ⟨nofun, nofun⟩
  | integer negative magnitude =>
      rw [JsonNumber.ofInt, JsonNumber.integer.injEq]
      -- the bound on the magnitude is one more below zero than above, hence the two branches
      cases negative with
      | false =>
          rw [JsonNumber.toInt64?, if_neg (by decide), Nat.pow_eq]
          constructor
          · intro h
            split at h
            · rename_i hsize
              have hvalue : k.toInt = magnitude := by
                rw [← Option.some.inj h]
                exact Int64.toInt_ofInt_of_le (by omega) (by omega)
              exact ⟨by simp [hvalue], by omega⟩
            · contradiction
          · rintro ⟨hsign, rfl⟩
            have hpos := of_decide_eq_false hsign.symm
            have hvalue : (k.toInt.natAbs : Int) = k.toInt := by omega
            have hrange : k.toInt.natAbs < 2 ^ 63 := by omega
            rw [if_pos hrange, hvalue, Int64.ofInt_toInt]
      | true =>
          rw [JsonNumber.toInt64?, if_pos rfl, Nat.pow_eq]
          constructor
          · intro h
            split at h
            · rename_i hsize
              have hvalue : k.toInt = -magnitude := by
                rw [← Option.some.inj h]
                exact Int64.toInt_ofInt_of_le (by omega) (by omega)
              exact ⟨by simp [hvalue]; omega, by omega⟩
            · contradiction
          · rintro ⟨hsign, rfl⟩
            have hneg := of_decide_eq_true hsign.symm
            have hvalue : -(k.toInt.natAbs : Int) = k.toInt := by omega
            have hrange : 0 < k.toInt.natAbs ∧ k.toInt.natAbs ≤ 2 ^ 63 := ⟨by omega, by omega⟩
            rw [if_pos hrange, hvalue, Int64.ofInt_toInt]

theorem exists_decodeInteger_iff {payload : Json} :
    (∃ k, decodeInteger payload = .ok k) ↔ TypeName.integer.IsPayload payload := by
  cases payload with
  | string s =>
      simp only [decodeInteger, TypeName.IsPayload, ← Numeral.readInt64_eq_ok]
      cases Numeral.readInt64 s <;> simp
  | number n =>
      simp only [decodeInteger, TypeName.IsPayload, ← JsonNumber.toInt64?_eq_some]
      cases n.toInt64? <;> simp
  | _ => simp [decodeInteger, TypeName.IsPayload]

theorem exists_decodeDouble_iff {payload : Json} :
    (∃ x, decodeDouble payload = .ok x) ↔ TypeName.double.IsPayload payload := by
  cases payload with
  | string s =>
      simp only [decodeDouble, TypeName.IsPayload, ← Numeral.exists_readDouble_iff]
      cases Numeral.readDouble s <;> simp
  | _ => simp [decodeDouble, TypeName.IsPayload]

theorem exists_parseTimestamp_iff {s : String} :
    (∃ t, parseTimestamp s = .ok t) ↔ ∃ d, Rfc3339.IsMoment d s.toList := by
  simp only [parseTimestamp, ← Rfc3339.read_eq_ok]
  cases Rfc3339.read s <;> simp

theorem exists_coordinateOf_iff {name : String} {payload : Json} {rank bound : Nat}
    (hbound : ∀ x : Double, x.within rank = true ↔ x.AtMost bound)
    (hzero : Floating.within rank (.zero : Double) = true) :
    (∃ x, coordinateOf name payload = .ok x ∧ x.within rank = true) ↔
      TypeName.IsCoordinate bound (payload.get? name) := by
  rw [coordinateOf]
  cases payload.get? name with
  | none => exact ⟨fun _ => trivial, fun _ => ⟨.zero, rfl, hzero⟩⟩
  | some content =>
      cases content with
      | number n => simp [TypeName.IsCoordinate, hbound]
      | _ => simp [TypeName.IsCoordinate]

theorem exists_make_iff {x y : Double} :
    (∃ p, GeoPoint.make x y = .ok p) ↔
      x.within rightAngle = true ∧ y.within straightAngle = true := by
  rw [GeoPoint.make]
  split
  · split <;> simp [*]
  · simp [*]

theorem exists_geoPoint_iff {payload : Json} :
    (∃ v, decodeLeaf .geoPoint payload = .ok v) ↔
      TypeName.IsCoordinate 90 (payload.get? "latitude") ∧
        TypeName.IsCoordinate 180 (payload.get? "longitude") := by
  rw [← exists_coordinateOf_iff within_rightAngle_iff (by decide),
    ← exists_coordinateOf_iff within_straightAngle_iff (by decide), decodeLeaf]
  cases coordinateOf "latitude" payload with
  | error e => simp
  | ok x =>
      cases coordinateOf "longitude" payload with
      | error e => simp
      | ok y => simp [exists_map_ok, exists_make_iff]

theorem not_isOverlooked {t : TypeName} (hpoint : t ≠ .geoPoint) (harray : t ≠ .array)
    (payload : Json) : ¬t.IsOverlooked payload := by
  intro h
  cases h with
  | geoPoint => exact hpoint rfl
  | array => exact harray rfl
  | values => exact harray rfl

/-- A leaf is read from its payloads, and a point from what is no object. -/
theorem exists_decodeLeaf_iff {t : TypeName} (harray : t ≠ .array) (hmap : t ≠ .map)
    {payload : Json} :
    (∃ v, decodeLeaf t payload = .ok v) ↔ t.IsPayload payload ∨ t.IsOverlooked payload := by
  by_cases hpoint : t = .geoPoint
  · subst hpoint
    rw [exists_geoPoint_iff]
    cases payload with
    | object members =>
        refine (or_iff_left ?_).symm
        intro h
        cases h with
        | geoPoint h => exact h members rfl
    -- no member is found in what is no object, and both coordinates default to zero
    | _ => exact ⟨fun _ => .inr (.geoPoint nofun), fun _ => ⟨trivial, trivial⟩⟩
  · rw [or_iff_left (not_isOverlooked hpoint harray payload)]
    cases t with
    | null => exact ⟨fun _ => trivial, fun _ => ⟨.null, rfl⟩⟩
    | boolean => cases payload <;> simp [decodeLeaf, TypeName.IsPayload]
    | integer => exact exists_map_ok.trans exists_decodeInteger_iff
    | double => exact exists_map_ok.trans exists_decodeDouble_iff
    | timestamp =>
        cases payload with
        | string s => exact exists_bind_ok.trans exists_parseTimestamp_iff
        | _ => simp [decodeLeaf, textOf, TypeName.IsPayload]
    | string | reference => cases payload <;> simp [decodeLeaf, textOf, TypeName.IsPayload]
    | bytes =>
        cases payload with
        | string s =>
            simp only [TypeName.IsPayload, ← Base64.decodeText_eq_ok]
            rw [decodeLeaf, textOf, ok_bind]
            cases Base64.decodeText s <;> simp
        | _ => simp [decodeLeaf, textOf, TypeName.IsPayload]
    | geoPoint => exact absurd rfl hpoint
    | array => exact absurd rfl harray
    | map => exact absurd rfl hmap

/-! ## Readings -/

section Kinds

variable {members : List (String × Json)} {payload : Json}

theorem restDecode_leads {t : TypeName} (h : t.Leads payload members) (harray : t ≠ .array)
    (hmap : t ≠ .map) : restDecode (.object members) = decodeLeaf t payload := by
  rw [restDecode, h.of?]
  cases t with
  | array => exact absurd rfl harray
  | map => exact absurd rfl hmap
  | _ => simp only [h.1, Option.getD_some]

theorem restDecode_leads_array (h : TypeName.array.Leads payload members) :
    restDecode (.object members) =
      match payload with
      | .object inner => .array <$> restDecodeValues inner
      | _ => .ok (.array []) := by
  have hpayload := h.1
  rw [restDecode, h.of?]
  simp only [restDecodeArray_eq, hpayload]
  cases payload <;> rfl

theorem restDecode_leads_map (h : TypeName.map.Leads payload members) :
    restDecode (.object members) =
      match payload with
      | .object inner => .map <$> restDecodeFields inner
      | _ => .error RestFault.mapNotObject.error := by
  have hpayload := h.1
  rw [restDecode, h.of?]
  simp only [restDecodeMap_eq, hpayload]
  cases payload <;> rfl

end Kinds

theorem exists_restDecodeAll_iff {index : Nat} {js : List Json} :
    (∃ values, restDecodeAll index js = .ok values) ↔ ∀ j ∈ js, ∃ v, restDecode j = .ok v := by
  simp only [restDecodeAll_eq_ok]
  exact exists_forall₂_iff

theorem exists_restDecodeMembers_iff {members : List (String × Json)} :
    (∃ fields, restDecodeMembers members = .ok fields) ↔
      ∀ member ∈ members, ∃ v, restDecode member.2 = .ok v := by
  simp only [restDecodeMembers_eq_ok]
  rw [exists_forall₂_iff]
  exact forall₂_congr fun member _ =>
    ⟨fun ⟨field, _, h⟩ => ⟨field.2, h⟩, fun ⟨v, h⟩ => ⟨(member.1, v), rfl, h⟩⟩

/-- An array is read if its elements are, and from whatever the reader sees nothing in. -/
theorem exists_restDecode_array_iff {members : List (String × Json)} {payload : Json}
    (h : TypeName.array.Leads payload members) :
    (∃ v, restDecode (.object members) = .ok v) ↔
      TypeName.array.IsOverlooked payload ∨ ∃ inner, payload = .object inner ∧
        ((∀ values, Fields.get? inner "values" = some values → values = .null) ∨
          ∃ elements, Fields.get? inner "values" = some (.array elements) ∧
            ∀ j ∈ elements, ∃ v, restDecode j = .ok v) := by
  rw [restDecode_leads_array h]
  cases payload with
  | object inner =>
      simp only [exists_map_ok, restDecodeValues_eq]
      cases hvalues : Fields.get? inner "values" with
      | none => simp [hvalues]
      | some values =>
          cases values with
          | array elements =>
              have hseen : ¬TypeName.array.IsOverlooked (.object inner) := by
                intro hoverlooked
                cases hoverlooked with
                | array hobject => exact hobject inner rfl
                | values hfound _ hlist =>
                    exact hlist elements (Option.some.inj (hfound.symm.trans hvalues))
              simp [hvalues, hseen, exists_restDecodeAll_iff]
          | null => simp [hvalues]
          | _ => exact ⟨fun _ => .inl (.values hvalues nofun nofun), fun _ => ⟨_, rfl⟩⟩
  | _ => exact ⟨fun _ => .inl (.array nofun), fun _ => ⟨_, rfl⟩⟩

/-- A map is read if its fields are. -/
theorem exists_restDecode_map_iff {members : List (String × Json)} {payload : Json}
    (h : TypeName.map.Leads payload members) :
    (∃ v, restDecode (.object members) = .ok v) ↔ ∃ inner, payload = .object inner ∧
        (Fields.get? inner "fields" = none ∨
          ∃ fields, Fields.get? inner "fields" = some (.object fields) ∧
            ∀ field ∈ fields, ∃ v, restDecode field.2 = .ok v) := by
  rw [restDecode_leads_map h]
  cases payload with
  | object inner =>
      simp only [exists_map_ok, restDecodeFields_eq]
      cases hfields : Fields.get? inner "fields" with
      | none => simp [hfields]
      | some content =>
          cases content with
          | object fields => simp [hfields, exists_map_ok, exists_restDecodeMembers_iff]
          | _ => simp [hfields]
  | _ => simp

/-- What is read is a notation, but for what the reader overlooks. -/
theorem isNotation_of_restDecode {j : Json} (h : ∃ v, restDecode j = .ok v) :
    j.IsNotation TypeName.IsOverlooked := by
  -- elements and fields lie a payload deeper than the members, so the induction is on the size
  induction hsize : sizeOf j using Nat.strong_induction_on generalizing j with
  | _ size ih =>
    subst hsize
    cases j with
    | object members =>
        cases hkind : TypeName.of? members with
        | none => simp [restDecode, hkind] at h
        | some t =>
            obtain ⟨payload, hleads⟩ := TypeName.exists_leads_of_of? hkind
            by_cases harray : t = .array
            · subst harray
              rcases (exists_restDecode_array_iff hleads).mp h with
                hoverlooked | ⟨inner, rfl, hempty | ⟨elements, hvalues, helements⟩⟩
              · exact .besides hleads hoverlooked
              · exact .emptyArray hleads hempty
              · refine .array hleads hvalues fun j hj => ih _ ?_ (helements j hj) rfl
                have hlist := sizeOf_lt_of_get? hvalues
                have hinner := sizeOf_lt_of_get? hleads.1
                have hj := List.sizeOf_lt_of_mem hj
                rw [Json.array.sizeOf_spec] at hlist
                omega
            by_cases hmap : t = .map
            · subst hmap
              obtain ⟨inner, rfl, hempty | ⟨fields, hfields, hmembers⟩⟩ :=
                (exists_restDecode_map_iff hleads).mp h
              · exact .emptyMap hleads hempty
              · refine .map hleads hfields fun field hfield => ih _ ?_ (hmembers field hfield) rfl
                exact (sizeOf_lt_of_mem hfield).trans
                  ((sizeOf_lt_of_get? hfields).trans (sizeOf_lt_of_get? hleads.1))
            rw [restDecode_leads hleads harray hmap, exists_decodeLeaf_iff harray hmap] at h
            exact h.elim (.leaf hleads) (.besides hleads)
    | _ => simp [restDecode] at h

/-- **The REST notations that are read.** -/
theorem exists_restDecode_iff {j : Json} :
    (∃ v, restDecode j = .ok v) ↔ j.IsNotation TypeName.IsOverlooked := by
  refine ⟨isNotation_of_restDecode, fun h => ?_⟩
  induction h with
  | besides hleads hoverlooked =>
      cases hoverlooked with
      | geoPoint h =>
          rw [restDecode_leads hleads (by decide) (by decide)]
          exact (exists_decodeLeaf_iff (by decide) (by decide)).mpr (.inr (.geoPoint h))
      | array h => exact (exists_restDecode_array_iff hleads).mpr (.inl (.array h))
      | values hvalues hnull hlist =>
          exact (exists_restDecode_array_iff hleads).mpr (.inl (.values hvalues hnull hlist))
  | @leaf members t payload hleads hpayload =>
      -- a payload of a container is no payload of a leaf
      have harray : t ≠ .array := by
        rintro rfl
        exact hpayload
      have hmap : t ≠ .map := by
        rintro rfl
        exact hpayload
      rw [restDecode_leads hleads harray hmap]
      exact (exists_decodeLeaf_iff harray hmap).mpr (.inl hpayload)
  | emptyArray hleads hvalues =>
      exact (exists_restDecode_array_iff hleads).mpr (.inr ⟨_, rfl, .inl hvalues⟩)
  | array hleads hvalues _ ih =>
      exact (exists_restDecode_array_iff hleads).mpr (.inr ⟨_, rfl, .inr ⟨_, hvalues, ih⟩⟩)
  | emptyMap hleads hfields =>
      exact (exists_restDecode_map_iff hleads).mpr ⟨_, rfl, .inl hfields⟩
  | map hleads hfields _ ih =>
      exact (exists_restDecode_map_iff hleads).mpr ⟨_, rfl, .inr ⟨_, hfields, ih⟩⟩

/-! ## What is overlooked -/

/-- The point where both coordinates are zero. -/
def GeoPoint.origin : GeoPoint := ⟨.zero, .zero, by decide, by decide⟩

/-- What the reader makes of a payload in which it sees nothing. -/
def TypeName.emptied : TypeName → Value
  | .geoPoint => .geoPoint .origin
  | _ => .array []

theorem restDecode_overlooked {members : List (String × Json)} {t : TypeName} {payload : Json}
    (hleads : t.Leads payload members) (h : t.IsOverlooked payload) :
    restDecode (.object members) = .ok t.emptied := by
  cases h with
  | geoPoint h =>
      -- a coordinate that is missing counts as zero
      have hcoordinate (name : String) : coordinateOf name payload = .ok .zero := by
        cases payload with
        | object inner => exact absurd rfl (h inner)
        | _ => rfl
      rw [restDecode_leads hleads (by decide) (by decide), decodeLeaf, hcoordinate, hcoordinate,
        ok_bind, ok_bind]
      show Value.geoPoint <$> GeoPoint.make GeoPoint.origin.latitude GeoPoint.origin.longitude = _
      rw [GeoPoint.make_coordinates]
      rfl
  | array h =>
      rw [restDecode_leads_array hleads]
      cases payload with
      | object inner => exact absurd rfl (h inner)
      | _ => rfl
  | @values inner values hvalues _ hlist =>
      rw [restDecode_leads_array hleads]
      simp only [restDecodeValues_eq, hvalues]
      cases values with
      | array elements => exact absurd rfl (hlist elements)
      | _ => rfl

theorem TypeName.IsOverlooked.not_isPayload {t : TypeName} {payload : Json}
    (h : t.IsOverlooked payload) : ¬t.IsPayload payload := by
  intro hpayload
  cases t with
  | geoPoint =>
      cases payload with
      | object members =>
          cases h with
          | geoPoint h => exact h members rfl
      | _ => exact hpayload
  | array => exact hpayload
  | _ => exact not_isOverlooked (by decide) (by decide) payload h

/-- Nothing that is overlooked suits the format. -/
theorem not_isWellFormed_of_overlooked {members : List (String × Json)} {t : TypeName}
    {payload : Json} (hleads : t.Leads payload members) (h : t.IsOverlooked payload) :
    ¬(Json.object members).IsWellFormed := by
  intro hformed
  -- one kind and one payload lead, so each way to be well-formed is about the payload overlooked
  cases hformed with
  | besides _ hnothing => exact hnothing
  | leaf hother hpayload =>
      obtain ⟨rfl, rfl⟩ := hleads.eq hother
      exact h.not_isPayload hpayload
  | emptyArray hother hempty =>
      obtain ⟨rfl, rfl⟩ := hleads.eq hother
      cases h with
      | array h => exact h _ rfl
      | values hvalues hnull _ => exact hnull (hempty _ hvalues)
  | array hother hfound _ =>
      obtain ⟨rfl, rfl⟩ := hleads.eq hother
      cases h with
      | array h => exact h _ rfl
      | values hvalues _ hlist => exact hlist _ (Option.some.inj (hvalues.symm.trans hfound))
  | emptyMap hother _ =>
      obtain ⟨rfl, rfl⟩ := hleads.eq hother
      cases h
  | map hother _ _ =>
      obtain ⟨rfl, rfl⟩ := hleads.eq hother
      cases h

/-- **What is read.**  A JSON value is read just if it is a notation, but for the payloads in which
the reader sees nothing: these do not suit the format, and it makes the origin or the empty array of
them. -/
theorem restDecode_accepts (j : Json) :
    ((∃ v, restDecode j = .ok v) ↔ j.IsNotation TypeName.IsOverlooked) ∧
      ∀ (t : TypeName) payload members, j = .object members → t.Leads payload members →
        t.IsOverlooked payload → restDecode j = .ok t.emptied ∧ ¬j.IsWellFormed := by
  refine ⟨exists_restDecode_iff, ?_⟩
  rintro t payload members rfl hleads hoverlooked
  exact ⟨restDecode_overlooked hleads hoverlooked,
    not_isWellFormed_of_overlooked hleads hoverlooked⟩

/-- A point given as a list, in an array with an integer that has a sign and zeros in front. -/
theorem restDecode_accepts_pointList :
    let point : Json := TypeName.geoPoint.tagged (.array [.int 10, .int 20])
    let number : Json := TypeName.integer.tagged (.string "+007")
    let j : Json := TypeName.array.tagged (.object [("values", .array [point, number])])
    (∃ v, restDecode j = .ok v) ∧ restDecode point = .ok (.geoPoint .origin) ∧
      ¬point.IsWellFormed := by
  intro point number j
  have hseven : Numeral.readInt64 "+007" = .ok 7 := rfl
  have hpoint : TypeName.geoPoint.IsOverlooked (.array [.int 10, .int 20]) := .geoPoint nofun
  have hnumber : number.IsNotation TypeName.IsOverlooked :=
    .leaf (TypeName.leads_tagged .integer _) ⟨7, Numeral.readInt64_eq_ok.mp hseven⟩
  have hj : j.IsNotation TypeName.IsOverlooked := by
    refine .array (TypeName.leads_tagged .array _) rfl ?_
    simpa using ⟨.besides (TypeName.leads_tagged .geoPoint _) hpoint, hnumber⟩
  exact ⟨(restDecode_accepts j).1.mpr hj, (restDecode_accepts point).2 .geoPoint _ _ rfl
    (TypeName.leads_tagged .geoPoint _) hpoint⟩

/-- A value in the place of the list of values is lost, though it does not suit the format. -/
theorem restDecode_valueForList :
    let j : Json := TypeName.array.tagged (.object
      [("values", TypeName.integer.tagged (.string "1"))])
    restDecode j = .ok (.array []) ∧ ¬j.IsWellFormed := by
  intro j
  have hlost : TypeName.array.IsOverlooked
      (.object [("values", TypeName.integer.tagged (.string "1"))]) := .values rfl nofun nofun
  exact ⟨rfl, not_isWellFormed_of_overlooked (TypeName.leads_tagged .array _) hlost⟩

end Firestore
