import Firestore.Proofs.Rest.Query

/-!
# Queries that were built can be sent

The building functions refuse what the server would, so every filter that they give is
valid (`Predicate.IsValid`), and the calls on queries join valid filters to valid ones
(`Query.IsSound`).  The conditions of valid filters are well formed, so that ids and
moments alone can keep a query from being sent (`Query.sendable_of_run`).
-/

namespace Firestore

open Value

/-! ## Valid filters -/

namespace Predicate

/-- A filter with plain operands, with candidates and parts wherever it needs any. -/
inductive IsValid : Predicate → Prop
  | field {path : FieldPath} {op : Comparison} {operand : Value}
      (plain : operand.hasTransform = false)
      (candidates : op.takesList = true → holdsElements operand = true) :
      IsValid (.field path op operand)
  | documentId {op : Comparison} {ids : List String} (nonempty : ids ≠ []) :
      IsValid (.documentId op ids)
  | composite {connective : Connective} {parts : List Predicate} (nonempty : parts ≠ [])
      (each : ∀ part ∈ parts, IsValid part) : IsValid (.composite connective parts)

variable {p : Predicate}

theorem IsValid.of_ofField {path : FieldPath} {op : Comparison} {data : Native}
    (h : ofField path op data = .ok p) : p.IsValid := by
  obtain ⟨operand, rfl, hplain, hlist⟩ := ofField_eq_ok h
  exact .field hplain hlist

theorem IsValid.of_ofId {op : Comparison} {id : String} (h : ofId op id = .ok p) : p.IsValid := by
  obtain ⟨rfl, _⟩ := ofId_eq_ok h
  exact .documentId (List.cons_ne_nil id [])

theorem IsValid.of_ofIds {op : Comparison} {ids : List String} (h : ofIds op ids = .ok p) :
    p.IsValid := by
  obtain ⟨rfl, _, hids⟩ := ofIds_eq_ok h
  exact .documentId hids

theorem IsValid.of_combine {connective : Connective} {parts : List Predicate}
    (hparts : ∀ part ∈ parts, part.IsValid) (h : combine connective parts = .ok p) :
    p.IsValid := by
  obtain ⟨rfl, hsome⟩ := combine_eq_ok h
  exact .composite hsome hparts

theorem IsBuilt.isValid (h : p.IsBuilt) : p.IsValid := by
  induction h with
  | field h => exact .of_ofField h
  | documentId h => exact .of_ofId h
  | documentIds h => exact .of_ofIds h
  | combination _ h ih => exact .of_combine ih h

theorem IsValid.conjoin {other : Predicate} (h : p.IsValid) (hother : other.IsValid) :
    (p.conjoin other).IsValid := by
  unfold Predicate.conjoin
  split
  · rename_i parts
    cases h with
    | composite _ heach =>
        exact .composite (List.append_ne_nil_of_right_ne_nil _ (List.cons_ne_nil _ _))
          (List.forall_mem_append.mpr ⟨heach, List.forall_mem_singleton.mpr hother⟩)
  · exact .composite (List.cons_ne_nil _ _)
      (List.forall_mem_cons.mpr ⟨h, List.forall_mem_singleton.mpr hother⟩)

theorem exists_of_holdsElements {operand : Value} (h : holdsElements operand = true) :
    ∃ v rest, operand = .array (v :: rest) := by
  cases operand with
  | array elements =>
      cases elements with
      | nil => contradiction
      | cons v rest => exact ⟨v, rest, rfl⟩
  | _ => contradiction

end Predicate

/-- The filter that a call adds is valid if the parts that it is given were built. -/
theorem QueryCall.isValid_filter? {call : QueryCall} (hbuilt : call.IsBuilt) {p : Predicate}
    (h : call.filter? = some p) : p.IsValid := by
  cases call with
  | whereField path op data => exact .of_ofField (toOption_eq_some.mp h)
  | whereId op id => exact .of_ofId (toOption_eq_some.mp h)
  | whereIds op ids => exact .of_ofIds (toOption_eq_some.mp h)
  | combined connective parts =>
      exact .of_combine (fun part hpart => (hbuilt part hpart).isValid) (toOption_eq_some.mp h)
  | _ => contradiction

/-! ## Sound queries -/

namespace Query

variable {q next : Query}

/-- A query with one filter at most, a valid one, and with positive limits. -/
structure IsSound (q : Query) : Prop where
  filter : ∃ prior : Option Predicate, q.filters = prior.toList ∧ ∀ p ∈ prior, p.IsValid
  positive : ∀ m ∈ q.modifiers, ∀ count ∈ m.count?, 0 < count

namespace IsSound

theorem start (h : q.predicates = []) : q.IsSound :=
  ⟨⟨none, by simp [filters, h], by simp⟩, by simp [modifiers, h]⟩

theorem perform (h : q.IsSound) {call : QueryCall} (hbuilt : call.IsBuilt)
    (hcall : q.perform call = .ok next) : next.IsSound := by
  rcases perform_cases hcall with
    ⟨p, hfilter, _, hp, rfl⟩ | ⟨m, _, _, _, hpositive, rfl⟩
  · have hvalid := QueryCall.isValid_filter? hbuilt hfilter
    split
    · -- the query starts anew, so nothing but this filter is left
      refine ⟨⟨some p, by simp [filters, hp], by simpa using hvalid⟩, ?_⟩
      simp [modifiers, Predicate.isFilter_iff.mp hp]
    · obtain ⟨prior, hprior, hpriorvalid⟩ := h.filter
      refine ⟨⟨some _, filters_addFilter hprior hp, ?_⟩, ?_⟩
      · cases prior with
        | none => simpa using hvalid
        | some f => simpa using (hpriorvalid f rfl).conjoin hvalid
      · rw [modifiers_addFilter hp]
        exact h.positive
  · obtain ⟨prior, hprior, hpriorvalid⟩ := h.filter
    refine ⟨⟨prior, by rw [filters_push_modifier, hprior], hpriorvalid⟩, ?_⟩
    rw [modifiers_push_modifier, List.forall_mem_append]
    exact ⟨h.positive, List.forall_mem_singleton.mpr hpositive⟩

/-- Whatever is called, sound queries stay sound. -/
theorem run (h : q.IsSound) {calls : List QueryCall} (hbuilt : ∀ call ∈ calls, call.IsBuilt)
    {last : Query} (hrun : calls.foldlM Query.perform q = .ok last) : last.IsSound := by
  refine foldlM_invariant ?_ h hrun
  intro call hmem q next hq hcall
  exact hq.perform (hbuilt call hmem) hcall

end IsSound

/-! ## Well-formed conditions -/

theorem unaryTest?_eq_none {op : Comparison} {operand : Value} (h : unaryTest? op operand = none)
    (hequality : op = .equal ∨ op = .notEqual) :
    operand.isNull = false ∧ operand.isNaN = false := by
  rcases hequality with rfl | rfl <;>
    cases hnull : operand.isNull <;> cases hnan : operand.isNaN <;> simp [unaryTest?, *] at h ⊢

theorem isWellFormed_comparisonOf {path : FieldPath} {op : Comparison} {operand : Value}
    (hplain : operand.hasTransform = false)
    (hlist : op.takesList = true → Predicate.holdsElements operand = true) :
    (comparisonOf path op operand).IsWellFormed := by
  unfold comparisonOf
  split
  · exact .test path _
  · rename_i hnone
    exact .comparison hplain (unaryTest?_eq_none hnone) fun htakes =>
      Predicate.exists_of_holdsElements (hlist htakes)

/-- Ids are compared as references, of which there is one at least. -/
theorem isWellFormed_documentId {op : Comparison} {ids : List String} (h : ids ≠ []) :
    (Atom.condition q (.documentId op ids)).IsWellFormed := by
  rw [Atom.condition]
  split
  · refine .comparison ?_ (fun _ => ⟨rfl, rfl⟩) fun _ => ?_
    · refine hasTransform_array.mpr fun v hv => ?_
      obtain ⟨id, _, rfl⟩ := List.mem_map.mp hv
      rfl
    · obtain ⟨id, rest, rfl⟩ := List.exists_cons_of_ne_nil h
      exact ⟨q.referenceTo id, rest.map q.referenceTo, rfl⟩
  · rename_i hsingle
    have hlast : ((ids.map q.referenceTo).getLast?.getD .null) = q.referenceTo (ids.getLast h) := by
      rw [List.getLast?_map, List.getLast?_eq_some_getLast h, Option.map_some, Option.getD_some]
    rw [hlast]
    exact .comparison rfl (fun _ => ⟨rfl, rfl⟩) fun htakes => absurd htakes hsingle

theorem isWellFormed_of_conditionOf {p : Predicate} (hvalid : p.IsValid) {c : Condition}
    (h : conditionOf q p = .ok c) : c.IsWellFormed := by
  induction hvalid generalizing c with
  | field hplain hlist =>
      cases h
      exact isWellFormed_comparisonOf hplain hlist
  | documentId hids =>
      rw [condition_of_documentId h]
      exact isWellFormed_documentId hids
  | @composite connective parts hsome _ ih =>
      obtain ⟨conditions, hconditions, h⟩ := bind_eq_ok.mp h
      cases h
      rw [conditionsOf_eq_mapM] at hconditions
      have hall := mapM_eq_ok.mp hconditions
      refine .combination ?_ fun c hc => ?_
      · rintro rfl
        exact hsome (List.forall₂_nil_right_iff.mp hall)
      · obtain ⟨part, hpart, hcondition⟩ := exists_of_mem_forall₂ hall hc
        exact ih part hpart hcondition

/-! ## Refusals -/

/-- Whether an id in some atoms means no document. -/
def MissesDocument (q : Query) (atoms : List Atom) : Prop :=
  ∃ op ids, .documentId op ids ∈ atoms ∧
    ∃ id ∈ ids, (q.idBase.append (.parse id)).isDocument = false

/-- Whether the calendar lacks a moment of an operand in some atoms. -/
def MissesMoment (atoms : List Atom) : Prop :=
  ∃ path op operand, .field path op operand ∈ atoms ∧ ¬ operand.TimesAre Timestamp.InCalendar

theorem idReference_fails {id : String} :
    FailsWith (fun e => e.code = .invalidPath ∧ (q.idBase.append (.parse id)).isDocument = false)
      (q.idReference id) := by
  unfold idReference
  simp only
  split
  · exact .ok _
  · rename_i hpath
    exact .error ⟨rfl, Bool.eq_false_of_not_eq_true hpath⟩

/-- Ids alone can keep a valid filter from having a condition. -/
theorem conditionOf_fails {p : Predicate} (hvalid : p.IsValid) :
    FailsWith (fun e => e.code = .invalidPath ∧ q.MissesDocument p.atoms) (conditionOf q p) := by
  induction hvalid with
  | field _ _ => exact .ok _
  | @documentId op ids _ =>
      refine (FailsWith.mapM fun id hid => ?_).bind fun _ => .ok _
      refine idReference_fails.imp fun e he => ⟨he.1, op, ids, ?_, id, hid, he.2⟩
      exact List.mem_singleton_self _
  | @composite connective parts _ _ ih =>
      rw [conditionOf, conditionsOf_eq_mapM]
      refine (FailsWith.mapM fun part hpart => ?_).bind fun _ => .ok _
      refine (ih part hpart).imp fun e he => ?_
      obtain ⟨hcode, op, ids, hatom, hid⟩ := he
      rw [Predicate.atoms_composite]
      exact ⟨hcode, op, ids, List.mem_flatMap_of_mem hpart hatom, hid⟩

theorem timesAre_referenceTo (p : Timestamp → Prop) (id : String) :
    (q.referenceTo id).TimesAre p := trivial

/-- References have no moments, so an operand with moments is that of a field. -/
theorem eq_field_of_condition {a : Atom} {path : FieldPath} {op : Comparison} {operand : Value}
    (h : a.condition q = .comparison path op operand)
    (htimes : ¬ operand.TimesAre Timestamp.InCalendar) : a = .field path op operand := by
  cases a with
  | field path' op' operand' =>
      rw [← comparisonOf_eq, comparisonOf] at h
      split at h
      · contradiction
      · cases h
        rfl
  | documentId op' ids =>
      rw [Atom.condition] at h
      split at h
      · cases h
        -- ids become references, in which there is no moment
        refine absurd (timesAre_array.mpr fun v hv => ?_) htimes
        obtain ⟨id, _, rfl⟩ := List.mem_map.mp hv
        exact timesAre_referenceTo _ id
      · cases h
        refine absurd ?_ htimes
        rw [List.getLast?_map]
        cases ids.getLast? with
        | none => trivial
        | some id => exact timesAre_referenceTo _ id

/-- Moments alone can keep the condition of a valid filter from having a REST notation. -/
theorem restEncode_conditionOf_fails {p : Predicate} (hvalid : p.IsValid) {c : Condition}
    (h : conditionOf q p = .ok c) :
    FailsWith (fun e => e.code = .invalidArgument ∧ MissesMoment p.atoms) c.restEncode := by
  refine c.restEncode_fails.imp fun e he => ?_
  obtain ⟨path, op, operand, hatom, hoperand⟩ := he
  have hplain := (isWellFormed_of_conditionOf hvalid h).plain hatom
  have htimes : ¬ operand.TimesAre Timestamp.InCalendar := fun htimes =>
    exists_error_iff.mp ⟨e, hoperand⟩ (exists_restEncode_iff.mpr ⟨hplain, htimes⟩)
  rw [(agrees_of_conditionOf h).atoms] at hatom
  obtain ⟨a, ha, hcondition⟩ := List.mem_map.mp hatom
  rw [eq_field_of_condition hcondition htimes] at ha
  exact ⟨restEncode_fails operand e hoperand, path, op, operand, ha, htimes⟩

/-! ## Every run -/

/-- A query with one filter at most is sent with the condition of that filter. -/
theorem structured_eq {prior : Option Predicate} (h : q.filters = prior.toList) :
    q.structured = (do
      let condition ← prior.mapM q.conditionOf
      return {
        collectionId := q.collectionId
        allDescendants := q.allDescendants
        condition
        orders := orders q.modifiers
        limit := lastLimit none q.modifiers }) := by
  rw [structured, ← filters, h, conditionsOf_eq_mapM]
  cases prior with
  | none => rfl
  | some p =>
      simp only [Option.toList_some, List.mapM_cons, List.mapM_nil, Option.mapM_some]
      cases q.conditionOf p <;> rfl

/-- Ids and moments alone can keep a query with a valid filter from being sent. -/
theorem send_fails {prior : Option Predicate} (h : q.filters = prior.toList)
    (hvalid : ∀ p ∈ prior, p.IsValid) :
    FailsWith (fun e =>
      e.code = .invalidPath ∧ q.MissesDocument (q.filters.flatMap Predicate.atoms) ∨
        e.code = .invalidArgument ∧ MissesMoment (q.filters.flatMap Predicate.atoms))
      (q.structured >>= StructuredQuery.restEncode) := by
  rw [structured_eq h, h]
  cases prior with
  | none => exact .ok _
  | some p =>
      have hp := hvalid p rfl
      rw [Option.toList_some, List.flatMap_singleton, Option.mapM_some]
      cases hcondition : q.conditionOf p with
      | error e => exact .error (.inl (conditionOf_fails hp e hcondition))
      | ok c =>
          refine StructuredQuery.restEncode_fails fun c' hc => ?_
          cases hc
          exact (restEncode_conditionOf_fails hp hcondition).imp fun _ => .inr

/-- What is sent for a query with a valid filter is well formed. -/
theorem isWellFormed_of_structured {prior : Option Predicate} (h : q.filters = prior.toList)
    (hvalid : ∀ p ∈ prior, p.IsValid) {s : StructuredQuery} (hs : q.structured = .ok s) :
    ∀ c ∈ s.condition, c.IsWellFormed := by
  rw [structured_eq h] at hs
  cases prior with
  | none =>
      cases hs
      simp
  | some p =>
      obtain ⟨condition, hcondition, hs⟩ := bind_eq_ok.mp hs
      obtain ⟨c, hc, rfl⟩ := map_eq_ok.mp hcondition
      cases hs
      rintro _ ⟨rfl⟩
      exact isWellFormed_of_conditionOf (hvalid p rfl) hc

/-- The limit that is sent was asked for. -/
theorem exists_count_of_structured {s : StructuredQuery} (hs : q.structured = .ok s)
    {count : Int32} (hcount : count ∈ s.limit) : ∃ m ∈ q.modifiers, count ∈ m.count? := by
  obtain ⟨conditions, _, hs⟩ := bind_eq_ok.mp hs
  cases hs
  rw [lastLimit_eq, Option.or_none] at hcount
  exact List.mem_filterMap.mp (List.mem_of_getLast? hcount)

/-- **Queries that were built are well formed.**  Take any calls that build a query, with parts that
were built themselves.  The query has one filter at most.  It can be sent unless an id means no
document or the calendar lacks a moment of an operand, which is what the error finds fault with.
The condition is well formed and the limit is positive, and so they are in what is sent. -/
theorem sendable_of_run {start : Query} {calls : List QueryCall} (hstart : start.IsStart)
    (hbuilt : ∀ call ∈ calls, call.IsBuilt) (hrun : calls.foldlM Query.perform start = .ok q) :
    q.filters.length ≤ 1 ∧
      (∀ e, (q.structured >>= StructuredQuery.restEncode) = .error e →
        e.code = .invalidPath ∧ q.MissesDocument (q.filters.flatMap Predicate.atoms) ∨
          e.code = .invalidArgument ∧ MissesMoment (q.filters.flatMap Predicate.atoms)) ∧
      ∀ j, (q.structured >>= StructuredQuery.restEncode) = .ok j →
        ∃ s, q.structured = .ok s ∧ s.restEncode = .ok j ∧
          (∀ c ∈ s.condition, c.IsWellFormed) ∧ (∀ count ∈ s.limit, 0 < count) ∧
          s.SentAs j ∧ j.IsSoundQuery := by
  have hsound := (IsSound.start hstart.predicates_eq_nil).run hbuilt hrun
  obtain ⟨prior, hprior, hvalid⟩ := hsound.filter
  refine ⟨?_, send_fails hprior hvalid, fun j hj => ?_⟩
  · rw [hprior]
    cases prior <;> simp
  · obtain ⟨s, hs, hj⟩ := bind_eq_ok.mp hj
    have hformed := isWellFormed_of_structured hprior hvalid hs
    have hpositive : ∀ count ∈ s.limit, 0 < count := by
      intro count hcount
      obtain ⟨m, hm, hcount⟩ := exists_count_of_structured hs hcount
      exact hsound.positive m hm count hcount
    have hsent := StructuredQuery.sentAs_of_restEncode hj
    exact ⟨s, hs, hj, hformed, hpositive, hsent, hsent.isSoundQuery hformed hpositive⟩

/-- Two alternatives that were built, one of them by ids, and a filter that joins them. -/
theorem sendable_of_run_alternatives :
    let tags : FieldPath := ⟨["tags"], by simp⟩
    let either : List Predicate :=
      [.field tags .arrayContainsAny (.array [.string "new"]), .documentId .isIn ["anna", "bob"]]
    let start : Query := CollectionReference.query ⟨.default "demo", ⟨["users"]⟩, rfl⟩
    let calls : List QueryCall := [.limit 3, .combined .or either, .whereField tags .equal .null]
    let q : Query :=
      { start with
        predicates := [.composite .and [.composite .or either, .field tags .equal .null]] }
    start.IsStart ∧ (∀ call ∈ calls, call.IsBuilt) ∧ calls.foldlM Query.perform start = .ok q ∧
      q.filters.length ≤ 1 ∧
      ∃ s j, q.structured = .ok s ∧ s.restEncode = .ok j ∧ (∀ c ∈ s.condition, c.IsWellFormed) ∧
        j.IsSoundQuery := by
  intro tags either start calls q
  have hstart : start.IsStart := .collection _
  have heither : ∀ part ∈ either, part.IsBuilt :=
    List.forall_mem_cons.mpr
      ⟨.field (rfl : Predicate.ofField tags .arrayContainsAny (.seq [.text "new"]) = .ok _),
        List.forall_mem_singleton.mpr
          (.documentIds (rfl : Predicate.ofIds .isIn ["anna", "bob"] = .ok _))⟩
  have hbuilt : ∀ call ∈ calls, call.IsBuilt := by
    simpa [calls, QueryCall.IsBuilt] using heither
  have hrun : calls.foldlM Query.perform start = .ok q := rfl
  obtain ⟨hsingle, _, hsent⟩ := sendable_of_run hstart hbuilt hrun
  obtain ⟨j, hj⟩ : ∃ j, (q.structured >>= StructuredQuery.restEncode) = .ok j :=
    ⟨_, by with_unfolding_all rfl⟩
  obtain ⟨s, hs, henc, hformed, _, _, hquery⟩ := hsent j hj
  exact ⟨hstart, hbuilt, hrun, hsingle, s, j, hs, henc, hformed, hquery⟩

end Query

end Firestore
