import Firestore.Proofs.Rest.Notation
import Firestore.Rest.Culprit
import Mathlib.Data.List.Nodup

/-!
# Errors lead to the culprit

A notation without parts is refused as a whole, with an empty trail.  One with parts is
refused with the error of the first part that is, under the segment of that part
(`failure?_restDecode`).  As the segments of the parts differ, one segment of a trail
leads back one step (`restDecode_eq_error_within`), and all of them, level by level, to
the notation that was refused (`restDecode_culprit`).
-/

namespace Firestore

/-! ## Values in order -/

namespace Json

variable {j : Json} {elements : List Json} {members : List (String × Json)}

theorem Ordered.of_mem_numbered (h : (Json.array elements).Ordered) :
    ∀ part ∈ numbered 0 elements, part.2.Ordered := by
  intro part hpart
  obtain ⟨⟨j, index⟩, hj, rfl⟩ := List.mem_map.mp hpart
  cases h with
  | array h => exact h j (List.fst_mem_of_mem_zipIdx hj)

theorem Ordered.of_mem_members (h : (Json.object members).Ordered) :
    ∀ member ∈ members, member.2.Ordered := by
  cases h with
  | object _ h => exact h

theorem Ordered.sorted (h : (Json.object members).Ordered) : Fields.Sorted members := by
  cases h with
  | object hsorted _ => exact hsorted

theorem Ordered.of_get? (h : (Json.object members).Ordered) {name : String}
    (hj : Fields.get? members name = some j) : j.Ordered :=
  h.of_mem_members (name, j) (Fields.mem_of_get? hj)

private theorem tidyAll_eq_map (elements : List Json) : tidyAll elements = elements.map tidy := by
  induction elements with
  | nil => rfl
  | cons j rest ih => rw [tidyAll, ih, List.map_cons]

private theorem tidyMembers_eq_map (members : List (String × Json)) :
    tidyMembers members = members.map fun member => (member.1, member.2.tidy) := by
  induction members with
  | nil => rfl
  | cons member rest ih => rw [tidyMembers, ih, List.map_cons]

/-- The tidy form of a value is in order. -/
theorem ordered_tidy (j : Json) : j.tidy.Ordered := by
  induction hsize : sizeOf j using Nat.strong_induction_on generalizing j with
  | _ size ih =>
    subst hsize
    cases j with
    | null => exact .null
    | bool b => exact .bool b
    | number n => exact .number n
    | string s => exact .string s
    | array elements =>
        rw [tidy, tidyAll_eq_map]
        refine .array (List.forall_mem_map.mpr ?_)
        intro j hj
        have hsmaller := List.sizeOf_lt_of_mem hj
        exact ih _ (by rw [Json.array.sizeOf_spec]; omega) j rfl
    | object members =>
        rw [tidy, tidyMembers_eq_map]
        refine .object (Fields.sorted_ofList _) ?_
        intro member hmember
        obtain ⟨⟨name, j⟩, hj, rfl⟩ := List.mem_map.mp (Fields.mem_of_mem_ofList hmember)
        exact ih _ (sizeOf_lt_of_mem hj) j rfl

end Json

/-! ## Parts -/

namespace Json

/-- What the reader of a part fails with, seen from outside. -/
def refusal? (part : String × Json) : Option Error :=
  failure? (inside part.1 (restDecode part.2))

theorem refusal?_eq_none {part : String × Json} :
    refusal? part = none ↔ ∃ v, restDecode part.2 = .ok v := by
  rw [refusal?, failure?_inside, Option.map_eq_none_iff, failure?_eq_none]

theorem refusal?_eq_within {part : String × Json} {segment : String} {e : Error} :
    refusal? part = some (e.within segment) ↔ part.1 = segment ∧ restDecode part.2 = .error e := by
  rw [refusal?, failure?_inside, Option.map_eq_some_iff]
  constructor
  · rintro ⟨inner, hinner, hwithin⟩
    obtain ⟨hsegment, rfl⟩ := Error.within_inj.mp hwithin
    exact ⟨hsegment, failure?_eq_some.mp hinner⟩
  · rintro ⟨rfl, h⟩
    exact ⟨e, failure?_eq_some.mpr h, rfl⟩

theorem numbered_cons (index : Nat) (j : Json) (rest : List Json) :
    numbered index (j :: rest) = (toString index, j) :: numbered (index + 1) rest := rfl

theorem nodup_numbered (index : Nat) (elements : List Json) :
    (Fields.names (numbered index elements)).Nodup := by
  have hnumbers : Fields.names (numbered index elements) =
      (List.range' index elements.length).map toString := by
    rw [← List.zipIdx_map_snd, Fields.names, numbered, List.map_map, List.map_map]
    rfl
  rw [hnumbers]
  refine List.Nodup.map ?_ List.nodup_range'
  intro m n h
  exact Int.ofNat_inj.mp (Numeral.toString_injective h)

section Kinds

variable {members : List (String × Json)} {payload : Json}

theorem parts_leads_array (h : TypeName.array.Leads payload members) :
    (object members).parts = numbered 0 (((payload.get? "values").bind elements?).getD []) := by
  rw [parts, h.of?]
  simp only [h.1, Option.bind_some]

theorem parts_leads_map (h : TypeName.map.Leads payload members) :
    (object members).parts = ((payload.get? "fields").bind members?).getD [] := by
  rw [parts, h.of?]
  simp only [h.1, Option.bind_some]

theorem parts_leads {t : TypeName} (h : t.Leads payload members) (harray : t ≠ .array)
    (hmap : t ≠ .map) : (object members).parts = [] := by
  rw [parts, h.of?]
  cases t with
  | array => exact absurd rfl harray
  | map => exact absurd rfl hmap
  | _ => rfl

end Kinds

end Json

theorem failure?_restDecodeAll (index : Nat) (elements : List Json) :
    failure? (restDecodeAll index elements) =
      (Json.numbered index elements).findSome? Json.refusal? := by
  induction elements generalizing index with
  | nil => rfl
  | cons j rest ih =>
      rw [restDecodeAll, Json.numbered_cons, findSome?_cons_eq_or, ← ih]
      exact failure?_bind_bind_ok _ _ List.cons

theorem failure?_restDecodeMembers (members : List (String × Json)) :
    failure? (restDecodeMembers members) = members.findSome? Json.refusal? := by
  induction members with
  | nil => rfl
  | cons member rest ih =>
      obtain ⟨name, j⟩ := member
      rw [restDecodeMembers, findSome?_cons_eq_or, ← ih]
      exact failure?_bind_bind_ok _ _ fun v fields => (name, v) :: fields

/-! ## Refusals of the whole -/

theorem RestFault.blamesWhole (fault : RestFault) : fault.error.BlamesWhole := ⟨rfl, rfl⟩

theorem decodeInteger_fails (content : Json) :
    FailsWith Error.BlamesWhole (decodeInteger content) := by
  unfold decodeInteger
  split
  · split
    · exact .ok _
    · exact .error (RestFault.blamesWhole _)
  · split
    · exact .ok _
    · exact .error (RestFault.blamesWhole _)
  · exact .error (RestFault.blamesWhole _)

theorem decodeDouble_fails (content : Json) :
    FailsWith Error.BlamesWhole (decodeDouble content) := by
  unfold decodeDouble
  split
  · exact .ok _
  · split
    · exact .ok _
    · exact .error (RestFault.blamesWhole _)
  · exact .error (RestFault.blamesWhole _)

theorem coordinateOf_fails (name : String) (content : Json) :
    FailsWith Error.BlamesWhole (coordinateOf name content) := by
  unfold coordinateOf
  split
  · exact .ok _
  · exact .ok _
  · exact .error (RestFault.blamesWhole _)

theorem make_fails (latitude longitude : Double) :
    FailsWith Error.BlamesWhole (GeoPoint.make latitude longitude) := by
  unfold GeoPoint.make
  split
  · split
    · exact .ok _
    · exact .error ⟨rfl, rfl⟩
  · exact .error ⟨rfl, rfl⟩

theorem decodeLeaf_fails (t : TypeName) (content : Json) :
    FailsWith Error.BlamesWhole (decodeLeaf t content) := by
  have htext : FailsWith Error.BlamesWhole (textOf t content) := by
    unfold textOf
    split
    · exact .ok _
    · exact .error (RestFault.blamesWhole _)
  cases t with
  | null | array | map => exact .ok _
  | boolean =>
      cases content with
      | bool b => exact .ok _
      | _ => exact .error (RestFault.blamesWhole _)
  | integer => exact (decodeInteger_fails content).map _
  | double => exact (decodeDouble_fails content).map _
  | timestamp =>
      refine htext.bind fun text => FailsWith.bind ?_ fun t => .ok _
      unfold parseTimestamp
      split
      · exact .ok _
      · exact .error (RestFault.blamesWhole _)
  | string | reference => exact htext.map _
  | bytes =>
      refine htext.bind fun text => ?_
      split
      · exact .ok _
      · exact .error (RestFault.blamesWhole _)
  | geoPoint =>
      refine FailsWith.bind (coordinateOf_fails _ _) fun latitude => ?_
      refine FailsWith.bind (coordinateOf_fails _ _) fun longitude => ?_
      exact FailsWith.map (make_fails _ _) _

/-- A notation has no parts and is refused as a whole, or its parts are elements or fields and it
is refused for them. -/
theorem Json.parts_cases (j : Json) :
    (j.parts = [] ∧ FailsWith Error.BlamesWhole (restDecode j)) ∨
      (∃ payload elements, j.get? TypeName.array.name = some payload ∧
        payload.get? "values" = some (.array elements) ∧ j.parts = numbered 0 elements ∧
        failure? (restDecode j) = failure? (restDecodeAll 0 elements)) ∨
      ∃ payload fields, j.get? TypeName.map.name = some payload ∧
        payload.get? "fields" = some (.object fields) ∧ j.parts = fields ∧
        failure? (restDecode j) = failure? (restDecodeMembers fields) := by
  cases j with
  | object members =>
      cases hkind : TypeName.of? members with
      | none =>
          refine .inl ⟨?_, ?_⟩
          · rw [parts, hkind]
          · rw [restDecode, hkind]
            exact .error (RestFault.blamesWhole _)
      | some t =>
          obtain ⟨payload, hleads⟩ := TypeName.exists_leads_of_of? hkind
          -- only the two containers have parts, each of them where its payload has the right form
          by_cases harray : t = .array
          · subst harray
            rw [parts_leads_array hleads, restDecode_leads_array hleads]
            cases payload with
            | object inner =>
                simp only [restDecodeValues_eq, Json.get?]
                cases hvalues : Fields.get? inner "values" with
                | none => exact .inl ⟨rfl, .ok _⟩
                | some values =>
                    cases values with
                    | array elements =>
                        exact .inr (.inl ⟨_, elements, hleads.1, hvalues, rfl, failure?_map _ _⟩)
                    -- whatever else stands under "values" is read as the empty array
                    | _ => exact .inl ⟨rfl, .ok _⟩
            | _ => exact .inl ⟨rfl, .ok _⟩
          by_cases hmap : t = .map
          · subst hmap
            rw [parts_leads_map hleads, restDecode_leads_map hleads]
            cases payload with
            | object inner =>
                simp only [restDecodeFields_eq, Json.get?]
                cases hfields : Fields.get? inner "fields" with
                | none => exact .inl ⟨rfl, .ok _⟩
                | some content =>
                    cases content with
                    | object fields =>
                        refine .inr (.inr ⟨_, fields, hleads.1, hfields, rfl, ?_⟩)
                        exact (failure?_map _ _).trans (failure?_map _ _)
                    | _ => exact .inl ⟨rfl, .error (RestFault.blamesWhole _)⟩
            | _ => exact .inl ⟨rfl, .error (RestFault.blamesWhole _)⟩
          rw [restDecode_leads hleads harray hmap, parts_leads hleads harray hmap]
          exact .inl ⟨rfl, decodeLeaf_fails t payload⟩
  | _ => exact .inl ⟨rfl, .error (RestFault.blamesWhole _)⟩

/-- A notation is refused as a whole, or with the error of the first part that is refused. -/
theorem failure?_restDecode (j : Json) :
    j.parts = [] ∧ FailsWith Error.BlamesWhole (restDecode j) ∨
      failure? (restDecode j) = j.parts.findSome? Json.refusal? := by
  rcases j.parts_cases with hnothing | ⟨_, elements, -, -, hparts, hread⟩ |
    ⟨_, fields, -, -, hparts, hread⟩
  · exact .inl hnothing
  · right
    rw [hread, hparts, failure?_restDecodeAll]
  · right
    rw [hread, hparts, failure?_restDecodeMembers]

/-! ## The way to the culprit -/

namespace Json

theorem Ordered.get? {j payload : Json} (h : j.Ordered) {name : String}
    (hpayload : j.get? name = some payload) : payload.Ordered := by
  cases j with
  | object members => exact h.of_get? hpayload
  | _ => contradiction

/-- The parts of a notation in order have different segments, and are in order again. -/
theorem Ordered.parts {j : Json} (h : j.Ordered) :
    (Fields.names j.parts).Nodup ∧ ∀ part ∈ j.parts, part.2.Ordered := by
  rcases j.parts_cases with ⟨hparts, -⟩ | ⟨payload, elements, hpayload, hvalues, hparts, -⟩ |
    ⟨payload, fields, hpayload, hfields, hparts, -⟩
  · rw [hparts]
    exact ⟨List.nodup_nil, List.forall_mem_nil _⟩
  · have hlist := (h.get? hpayload).get? hvalues
    rw [hparts]
    exact ⟨nodup_numbered 0 elements, hlist.of_mem_numbered⟩
  · have hmembers := (h.get? hpayload).get? hfields
    rw [hparts]
    exact ⟨hmembers.sorted.nodup_names, hmembers.of_mem_members⟩

end Json

/-- **One step to the culprit.**  A notation is refused with an error inside a segment just if the
part under that segment is refused with the error, and all parts in front of it are read. -/
theorem restDecode_eq_error_within {j : Json} (hordered : j.Ordered) {segment : String}
    {e : Error} :
    restDecode j = .error (e.within segment) ↔
      ∃ part, Fields.get? j.parts segment = some part ∧ restDecode part = .error e ∧
        ∀ earlier ∈ j.parts.takeWhile fun part => part.1 ≠ segment,
          ∃ v, restDecode earlier.2 = .ok v := by
  rcases failure?_restDecode j with ⟨hparts, hwhole⟩ | hfirst
  · rw [hparts]
    constructor
    · intro h
      exact absurd (hwhole _ h).2 (List.cons_ne_nil _ _)
    · rintro ⟨part, hpart, -⟩
      contradiction
  rw [← failure?_eq_some, hfirst, List.findSome?_eq_some_iff]
  constructor
  · rintro ⟨before, ⟨name, part⟩, after, hsplit, hrefusal, hbefore⟩
    obtain ⟨rfl, hpart⟩ := Json.refusal?_eq_within.mp hrefusal
    -- names of parts are distinct, so the first refusal is also the first part of its name
    have hother : ∀ pair ∈ before, pair.1 ≠ name := by
      have hnodup := hordered.parts.1
      rw [hsplit, Fields.names, List.map_append, List.nodup_append] at hnodup
      intro pair hpair
      exact hnodup.2.2 pair.1 (List.mem_map_of_mem hpair) name List.mem_cons_self
    refine ⟨part, ?_, hpart, ?_⟩
    · rw [hsplit, Fields.get?_append_cons hother]
    · rw [hsplit, List.takeWhile_append_of_pos (by simpa using hother),
        List.takeWhile_cons_of_neg (by simp), List.append_nil]
      intro earlier hearlier
      exact Json.refusal?_eq_none.mp (hbefore earlier hearlier)
  · rintro ⟨part, hpart, herror, hearlier⟩
    obtain ⟨after, hsplit⟩ := Fields.eq_append_of_get? hpart
    refine ⟨_, (segment, part), after, hsplit, Json.refusal?_eq_within.mpr ⟨rfl, herror⟩, ?_⟩
    intro earlier hbefore
    exact Json.refusal?_eq_none.mpr (hearlier earlier hbefore)

/-- **Errors lead to the culprit.**  A notation is refused with some error just if the trail of the
error leads to a notation that is refused as a whole, with the same code and message, and
everything that is read on the way there is accepted. -/
theorem restDecode_culprit {j : Json} (hordered : j.Ordered) {e : Error} :
    restDecode j = .error e ↔
      ∃ culprit, j.follow? e.trail = some culprit ∧
        restDecode culprit = .error ⟨e.code, e.message, []⟩ ∧
        ∀ earlier ∈ j.readBefore e.trail, ∃ v, restDecode earlier = .ok v := by
  obtain ⟨code, message, trail⟩ := e
  -- on the trail; each segment of it is one step down
  induction trail generalizing j with
  | nil => simp [Json.follow?, Json.readBefore]
  | cons segment trail ih =>
      refine (restDecode_eq_error_within hordered (e := ⟨code, message, trail⟩)).trans ?_
      cases hpart : Fields.get? j.parts segment with
      | none => simp [Json.follow?, hpart]
      | some part =>
          have hinside : part.Ordered := hordered.parts.2 _ (Fields.mem_of_get? hpart)
          simp only [Json.follow?, Json.readBefore, hpart]
          constructor
          · rintro ⟨_, ⟨rfl⟩, herror, hearlier⟩
            obtain ⟨culprit, hfollow, hculprit, hinner⟩ := (ih hinside).mp herror
            refine ⟨culprit, hfollow, hculprit, ?_⟩
            exact List.forall_mem_append.mpr ⟨List.forall_mem_map.mpr hearlier, hinner⟩
          · rintro ⟨culprit, hfollow, hculprit, hread⟩
            obtain ⟨hearlier, hinner⟩ := List.forall_mem_append.mp hread
            refine ⟨part, rfl, (ih hinside).mpr ⟨culprit, hfollow, hculprit, hinner⟩, ?_⟩
            intro earlier hbefore
            exact hearlier earlier.2 (List.mem_map_of_mem hbefore)

/-- A list of Booleans in a map, the second of which is none; the fields around it are read, or
never looked at. -/
theorem restDecode_culprit_nested :
    let culprit : Json := TypeName.boolean.tagged (.string "true")
    let list : Json := TypeName.array.tagged
      (.object [("values", .array [TypeName.boolean.tagged (.bool true), culprit, .null])])
    let j : Json := TypeName.map.tagged
      (.object [("fields", .object [("a", TypeName.null.tagged .null), ("b", list), ("c", .null)])])
    j.Ordered ∧ restDecode j = .error ⟨.invalidArgument, "booleanValue must be bool", ["b", "1"]⟩ ∧
      ∃ found, j.follow? ["b", "1"] = some found ∧
        restDecode found = .error ⟨.invalidArgument, "booleanValue must be bool", []⟩ ∧
        ∀ earlier ∈ j.readBefore ["b", "1"], ∃ v, restDecode earlier = .ok v := by
  intro culprit list j
  have htidy : j.tidy = j := by
    simp only [j, list, culprit]
    rfl
  have hordered : j.Ordered := by
    rw [← htidy]
    exact Json.ordered_tidy j
  have herror : restDecode j =
      .error ⟨.invalidArgument, "booleanValue must be bool", ["b", "1"]⟩ := rfl
  exact ⟨hordered, herror, (restDecode_culprit hordered).mp herror⟩

/-- A document is refused for its fields as the map with these fields is, so its errors lead to the
culprit as well. -/
theorem restDocumentFields_eq_error {document : Json} {e : Error} :
    restDocumentFields document = .error e ↔
      restDecode (TypeName.map.tagged document) = .error e := by
  rw [← failure?_eq_some, ← failure?_eq_some, TypeName.tagged,
    restDecode_leads_map (TypeName.leads_tagged .map document)]
  cases document with
  | object members => rw [restDocumentFields, failure?_map]
  | _ => rfl

end Firestore
