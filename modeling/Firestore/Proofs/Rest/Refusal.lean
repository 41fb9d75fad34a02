import Firestore.Proofs.Rest.Write
import Firestore.Rest.Position

/-!
# The first thing that cannot be sent

Writing a value fails with the refusal of the first position, in the order of writing,
where something stands that cannot be sent, and succeeds if there is none
(`failure?_restEncode`).  The trail of the error grows while the writer leaves the arrays
and maps around the culprit, just as positions are seen from the values that hold them,
so the two agree level by level.

The positions of a value are what trails lead to (`mem_positions_iff`), and a transform
stands in a value just if it stands at one of its positions (`hasTransform_iff`).
-/

namespace Firestore

/-! ## Positions -/

namespace Value

/-- From a value with nothing inside, trails lead nowhere else. -/
private theorem leads_iff_of_no_child {v w : Value} {trail : List String}
    (h : ∀ segment u, ¬ v.Child segment u) : v.Leads trail w ↔ trail = [] ∧ w = v := by
  constructor
  · intro hleads
    cases hleads with
    | here => exact ⟨rfl, rfl⟩
    | step hchild hrest => exact absurd hchild (h _ _)
  · rintro ⟨rfl, rfl⟩
    exact .here w

private theorem mem_elementPositions {elements : List Value} {index : Nat} {p : Position} :
    p ∈ elementPositions index elements ↔
      ∃ (number : Nat) (v : Value), elements[number]? = some v ∧
        ∃ q ∈ v.positions, q.under (toString (index + number)) = p := by
  -- on the elements; the first one of the rest has the next number
  induction elements generalizing index with
  | nil => simp [elementPositions]
  | cons v rest ih =>
      rw [elementPositions, List.mem_append, List.mem_map, ih]
      constructor
      · rintro (hfirst | ⟨number, w, hw, hlater⟩)
        · exact ⟨0, v, rfl, hfirst⟩
        · refine ⟨number + 1, w, hw, ?_⟩
          rwa [Nat.add_comm number 1, ← Nat.add_assoc]
      · rintro ⟨number, w, hw, hq⟩
        cases number with
        | zero =>
            cases hw
            exact .inl hq
        | succ number =>
            refine .inr ⟨number, w, hw, ?_⟩
            rwa [Nat.add_assoc, Nat.add_comm 1 number]

private theorem mem_fieldPositions {fields : List (String × Value)} {p : Position} :
    p ∈ fieldPositions fields ↔
      ∃ field ∈ fields, ∃ q ∈ field.2.positions, q.under field.1 = p := by
  induction fields with
  | nil => simp [fieldPositions]
  | cons field rest ih =>
      rw [fieldPositions, List.mem_append, List.mem_map, ih, List.exists_mem_cons_iff]

/-- **The positions in a value are what trails lead to.** -/
theorem mem_positions_iff {v : Value} (h : v.Ordered) {trail : List String} {w : Value} :
    ⟨trail, w⟩ ∈ v.positions ↔ v.Leads trail w := by
  -- positions are listed as trails go: the value itself, then its parts under their segments
  induction v generalizing trail with
  | array elements ih =>
      rw [ordered_array] at h
      rw [positions, List.mem_cons, mem_elementPositions]
      constructor
      · rintro (⟨⟨⟩⟩ | ⟨number, u, hu, ⟨rest, w⟩, hq, ⟨⟩⟩)
        · exact .here _
        · have hmem : u ∈ elements := List.mem_of_getElem? hu
          rw [Nat.zero_add]
          exact .step (.element hu) ((ih u hmem (h u hmem)).mp hq)
      · intro hleads
        cases hleads with
        | here => exact .inl rfl
        | step hchild hrest =>
            cases hchild with
            | element hu =>
                have hmem := List.mem_of_getElem? hu
                refine .inr ⟨_, _, hu, _, (ih _ hmem (h _ hmem)).mpr hrest, ?_⟩
                rw [Nat.zero_add]
                rfl
  | map fields ih =>
      obtain ⟨hsorted, hfields⟩ := ordered_map.mp h
      rw [positions, List.mem_cons, mem_fieldPositions]
      constructor
      · rintro (⟨⟨⟩⟩ | ⟨⟨name, u⟩, hmem, ⟨rest, w⟩, hq, ⟨⟩⟩)
        · exact .here _
        · refine .step (.field (hsorted.get?_eq_some_iff.mpr hmem)) ?_
          exact (ih (name, u) hmem (hfields _ hmem)).mp hq
      · intro hleads
        cases hleads with
        | here => exact .inl rfl
        | step hchild hrest =>
            cases hchild with
            | field hu =>
                have hmem := Fields.mem_of_get? hu
                exact .inr ⟨_, hmem, _, (ih _ hmem (hfields _ hmem)).mpr hrest, rfl⟩
  | _ =>
      rw [positions, List.mem_singleton, leads_iff_of_no_child (by rintro _ _ ⟨⟩),
        Position.mk.injEq]
      all_goals simp

/-! ## A property of all that stands somewhere -/

section Everywhere

variable {P : Value → Prop}

private theorem forall_elementPositions {elements : List Value} {index : Nat} :
    (∀ p ∈ elementPositions index elements, P p.value) ↔
      ∀ v ∈ elements, ∀ p ∈ v.positions, P p.value := by
  induction elements generalizing index with
  | nil => simp [elementPositions]
  | cons v rest ih =>
      rw [elementPositions, List.forall_mem_append, List.forall_mem_map, ih, List.forall_mem_cons]
      rfl

private theorem forall_fieldPositions {fields : List (String × Value)} :
    (∀ p ∈ fieldPositions fields, P p.value) ↔
      ∀ field ∈ fields, ∀ p ∈ field.2.positions, P p.value := by
  induction fields with
  | nil => simp [fieldPositions]
  | cons field rest ih =>
      rw [fieldPositions, List.forall_mem_append, List.forall_mem_map, ih, List.forall_mem_cons]
      rfl

end Everywhere

/-- A value has no transform just if none stands at any of its positions. -/
theorem hasTransform_iff {v : Value} :
    v.hasTransform = false ↔ ∀ p ∈ v.positions, p.value.isTransform = false := by
  induction v with
  | array elements ih =>
      rw [hasTransform_array, positions, List.forall_mem_cons,
        forall_elementPositions (P := fun w => w.isTransform = false)]
      exact (forall₂_congr ih).trans (and_iff_right rfl).symm
  | map fields ih =>
      rw [hasTransform_map, positions, List.forall_mem_cons,
        forall_fieldPositions (P := fun w => w.isTransform = false)]
      exact (forall₂_congr ih).trans (and_iff_right rfl).symm
  | _ => simp [positions, hasTransform, isTransform]

/-- A value cannot be sent that is a transform or a moment out of the calendar. -/
theorem restFault?_eq_none {v : Value} :
    v.restFault? = none ↔ v.isTransform = false ∧ ∀ t, v = .timestamp t → t.InCalendar := by
  cases v with
  | timestamp t =>
      cases h : t.toDateTime? <;> simp [restFault?, isTransform, Timestamp.InCalendar, h]
  | _ => simp [restFault?, isTransform]

end Value

namespace Position

/-- What is refused inside a value is refused with one more segment in its trail. -/
theorem refusal?_under (segment : String) (p : Position) :
    (p.under segment).refusal? = p.refusal?.map (Error.within segment) := by
  unfold refusal? under
  cases p.value.restFault? <;> rfl

private theorem findSome?_under (segment : String) (positions : List Position) :
    (positions.map (under segment)).findSome? refusal? =
      (positions.findSome? refusal?).map (Error.within segment) :=
  findSome?_map_within (refusal?_under segment) positions

end Position

/-! ## The first refusal -/

open Value

private theorem failure?_restEncodeAll {elements : List Value}
    (h : ∀ v ∈ elements, failure? (restEncode v) = v.positions.findSome? Position.refusal?)
    (index : Nat) :
    failure? (restEncodeAll index elements) =
      (elementPositions index elements).findSome? Position.refusal? := by
  induction elements generalizing index with
  | nil => rfl
  | cons v rest ih =>
      obtain ⟨hv, hrest⟩ := List.forall_mem_cons.mp h
      calc failure? (restEncodeAll index (v :: rest))
          = (failure? (inside (toString index) (restEncode v))).or
              (failure? (restEncodeAll (index + 1) rest)) := by
            rw [restEncodeAll]
            exact failure?_bind_bind_ok _ _ List.cons
        _ = ((v.positions.findSome? Position.refusal?).map (Error.within (toString index))).or
              ((elementPositions (index + 1) rest).findSome? Position.refusal?) := by
            rw [failure?_inside, hv, ih hrest]
        _ = (elementPositions index (v :: rest)).findSome? Position.refusal? := by
            rw [elementPositions, List.findSome?_append, Position.findSome?_under]

private theorem failure?_restEncodeFields {fields : List (String × Value)}
    (h : ∀ field ∈ fields,
      failure? (restEncode field.2) = field.2.positions.findSome? Position.refusal?) :
    failure? (restEncodeFields fields) = (fieldPositions fields).findSome? Position.refusal? := by
  induction fields with
  | nil => rfl
  | cons field rest ih =>
      obtain ⟨name, v⟩ := field
      obtain ⟨hv, hrest⟩ := List.forall_mem_cons.mp h
      calc failure? (restEncodeFields ((name, v) :: rest))
          = (failure? (inside name (restEncode v))).or (failure? (restEncodeFields rest)) := by
            rw [restEncodeFields]
            exact failure?_bind_bind_ok _ _ fun j members => (name, j) :: members
        _ = ((v.positions.findSome? Position.refusal?).map (Error.within name)).or
              ((fieldPositions rest).findSome? Position.refusal?) := by
            rw [failure?_inside, hv, ih hrest]
        _ = (fieldPositions ((name, v) :: rest)).findSome? Position.refusal? := by
            rw [fieldPositions, List.findSome?_append, Position.findSome?_under]

/-- **Writing a value fails with the refusal of the first position that has one.** -/
theorem failure?_restEncode (v : Value) :
    failure? (restEncode v) = v.positions.findSome? Position.refusal? := by
  induction v with
  | timestamp t =>
      rw [restEncode]
      refine (failure?_bind_ok _ _).trans ?_
      simp only [positions, List.findSome?_singleton, Position.refusal?, restFault?, restTimestamp]
      cases t.toDateTime? <;> rfl
  | array elements ih =>
      rw [restEncode, positions]
      exact (failure?_bind_ok _ _).trans (failure?_restEncodeAll ih 0)
  | map fields ih =>
      rw [restEncode, positions]
      exact (failure?_bind_ok _ _).trans (failure?_restEncodeFields ih)
  | _ => rfl

/-- **What can be sent, and what is refused otherwise.**  A value can be sent just if it holds no
transform and the calendar has every moment that a trail leads to.  Otherwise the error is about
the first position, in the order of writing, where a transform or another moment stands. -/
theorem restEncode_refusal {v : Value} (hordered : v.Ordered) :
    ((∃ j, restEncode v = .ok j) ↔
      v.hasTransform = false ∧ ∀ trail t, v.Leads trail (.timestamp t) → t.InCalendar) ∧
    ∀ e, restEncode v = .error e ↔
      ∃ before p after fault, v.positions = before ++ p :: after ∧
        (∀ q ∈ before, q.value.restFault? = none) ∧ p.value.restFault? = some fault ∧
        v.Leads p.trail p.value ∧ e = ⟨.invalidArgument, fault.message, p.trail⟩ := by
  constructor
  · rw [← failure?_eq_none, failure?_restEncode, List.findSome?_eq_none_iff, hasTransform_iff]
    have hnone (p : Position) : p.refusal? = none ↔
        p.value.isTransform = false ∧ ∀ t, p.value = .timestamp t → t.InCalendar := by
      rw [Position.refusal?, Option.map_eq_none_iff, restFault?_eq_none]
    constructor
    · intro h
      refine ⟨fun p hp => ((hnone p).mp (h p hp)).1, ?_⟩
      intro trail t hleads
      exact ((hnone _).mp (h _ ((mem_positions_iff hordered).mpr hleads))).2 t rfl
    · rintro ⟨htransform, htimes⟩ p hp
      refine (hnone p).mpr ⟨htransform p hp, ?_⟩
      intro t ht
      -- the trail of a position leads to it, which is where the order of the value is needed
      apply htimes p.trail t
      rw [← ht]
      exact (mem_positions_iff hordered).mp hp
  · intro e
    rw [← failure?_eq_some, failure?_restEncode, List.findSome?_eq_some_iff]
    constructor
    · rintro ⟨before, p, after, hsplit, hrefusal, hbefore⟩
      obtain ⟨fault, hfault, rfl⟩ := Option.map_eq_some_iff.mp hrefusal
      have hmem : p ∈ v.positions := by simp [hsplit]
      refine ⟨before, p, after, fault, hsplit, ?_, hfault, ?_, rfl⟩
      · intro q hq
        exact Option.map_eq_none_iff.mp (hbefore q hq)
      · exact (mem_positions_iff hordered).mp hmem
    · rintro ⟨before, p, after, fault, hsplit, hbefore, hfault, -, rfl⟩
      refine ⟨before, p, after, hsplit, ?_, ?_⟩
      · rw [Position.refusal?, hfault]
        rfl
      · intro q hq
        rw [Position.refusal?, hbefore q hq]
        rfl

/-- Moments that are not normal: one in a leap second can be sent, one before its second is the
first to be refused, with two transforms after it. -/
theorem restEncode_refusal_early :
    let late : Value := .array [.timestamp ⟨59, 1999999999⟩]
    let early : Value := .map
      [("a", .array [late, .map [("b", .timestamp ⟨0, -1⟩), ("c", .transform .delete)]]),
        ("d", .transform .serverTimestamp)]
    late.Ordered ∧ (∃ j, restEncode late = .ok j) ∧ early.Ordered ∧
      restEncode early = .error ⟨.invalidArgument,
        (RestFault.unwritableTimestamp ⟨0, -1⟩).message, ["a", "1", "b"]⟩ := by
  intro late early
  have hlate : late.Ordered := by decide
  have hearly : early.Ordered := by decide
  have hsent : ∃ j, restEncode late = .ok j := by
    refine (restEncode_refusal hlate).1.mpr ⟨by decide, ?_⟩
    intro trail t hleads
    have hmem := (mem_positions_iff hlate).mpr hleads
    simp only [late, positions, elementPositions, List.map_singleton, Position.under,
      List.append_nil, List.mem_cons, List.not_mem_nil, Position.mk.injEq, or_false] at hmem
    obtain ⟨-, ⟨⟩⟩ | ⟨-, ⟨⟩⟩ := hmem
    decide
  let here : Position := ⟨["a", "1", "b"], .timestamp ⟨0, -1⟩⟩
  have hleads : early.Leads here.trail here.value :=
    .step (.field rfl) (.step (@Child.element _ 1 _ rfl) (.step (.field rfl) (.here _)))
  have hrefused := (restEncode_refusal hearly).2 ⟨.invalidArgument,
    (RestFault.unwritableTimestamp ⟨0, -1⟩).message, ["a", "1", "b"]⟩
  refine ⟨hlate, hsent, hearly, hrefused.mpr ?_⟩
  exact ⟨early.positions.take 5, here, early.positions.drop 6, .unwritableTimestamp ⟨0, -1⟩, rfl,
    by decide, rfl, hleads, rfl⟩

end Firestore
