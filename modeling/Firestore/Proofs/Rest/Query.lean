import Firestore.Proofs.Query.Meaning
import Firestore.Proofs.Rest.Write
import Firestore.Query.WellFormed

/-!
# Queries in the REST notation

A query is sent as what it is, member by member (`StructuredQuery.sentAs_of_restEncode`).
What a server takes of a condition can be told from its notation as well: a well-formed
condition is sent as a sound filter (`Condition.IsWellFormed.isSoundFilter`), since what is
neither null nor no number is not written as one of them, and what has elements is written
with elements.  Nothing but the operands can keep a query from being sent.
-/

namespace Firestore

/-! ## Operands -/

/-- A value is written under the name of its kind. -/
theorem tagged_of_restEncode {v : Value} {j : Json} (h : Firestore.restEncode v = .ok j) :
    ∃ t content, j = TypeName.tagged t content ∧ (t = .null → v = .null) ∧
      (t = .double → ∃ x, v = .double x ∧ content = restDouble x) := by
  -- null and no number have tests of their own, so these two kinds are told from the others
  cases v with
  | timestamp t =>
      obtain ⟨text, _, h⟩ := bind_eq_ok.mp h
      cases h
      exact ⟨.timestamp, _, rfl, nofun, nofun⟩
  | array elements =>
      obtain ⟨js, _, h⟩ := bind_eq_ok.mp h
      cases h
      exact ⟨.array, _, rfl, nofun, nofun⟩
  | map fields =>
      obtain ⟨members, _, h⟩ := bind_eq_ok.mp h
      cases h
      exact ⟨.map, _, rfl, nofun, nofun⟩
  | null =>
      cases h
      exact ⟨.null, _, rfl, fun _ => rfl, nofun⟩
  | double x =>
      cases h
      exact ⟨.double, _, rfl, nofun, fun _ => ⟨x, rfl, rfl⟩⟩
  | transform t => contradiction
  | _ =>
      cases h
      exact ⟨_, _, rfl, nofun, nofun⟩

theorem restDouble_ne_nan {x : Double} (h : x.isNaN = false) : restDouble x ≠ .string "NaN" := by
  cases x with
  | nan => contradiction
  | signed negative rank =>
      simp only [restDouble]
      split
      · cases negative <;> simp
      · simp

/-- What is neither null nor no number is not written as one of them. -/
theorem get?_of_restEncode {v : Value} {j : Json} (h : Firestore.restEncode v = .ok j)
    (hnull : v.isNull = false) (hnan : v.isNaN = false) :
    j.get? "nullValue" = none ∧ j.get? "doubleValue" ≠ some (.string "NaN") := by
  obtain ⟨t, content, rfl, htnull, hdouble⟩ := tagged_of_restEncode h
  cases t with
  | null =>
      rw [htnull rfl] at hnull
      contradiction
  | double =>
      obtain ⟨x, rfl, rfl⟩ := hdouble rfl
      refine ⟨rfl, fun hget => restDouble_ne_nan hnan ?_⟩
      exact Option.some.inj hget
  | _ => exact ⟨rfl, nofun⟩

/-- Elements are written one by one, so that what has a first one is written with a first one. -/
theorem get?_arrayValue_of_restEncode {v : Value} {rest : List Value} {j : Json}
    (h : Firestore.restEncode (.array (v :: rest)) = .ok j) :
    ∃ first more, j.get? "arrayValue" = some (.object [("values", .array (first :: more))]) := by
  obtain ⟨js, hjs, h⟩ := bind_eq_ok.mp h
  obtain ⟨first, _, hjs⟩ := bind_eq_ok.mp hjs
  obtain ⟨more, _, hjs⟩ := bind_eq_ok.mp hjs
  cases hjs
  cases h
  exact ⟨first, more, rfl⟩

/-! ## Conditions -/

namespace Condition

theorem restEncodeAll_eq_mapM (parts : List Condition) :
    restEncodeAll parts = parts.mapM restEncode := by
  induction parts with
  | nil => rfl
  | cons c rest ih => rw [restEncodeAll, ih, List.mapM_cons]

/-- Operands alone can keep a condition from having a REST notation. -/
theorem restEncode_fails (c : Condition) :
    FailsWith (fun e => ∃ path op operand, .comparison path op operand ∈ c.atoms ∧
      Firestore.restEncode operand = .error e) c.restEncode := by
  induction c with
  | comparison path op operand =>
      have hoperand : FailsWith (fun e => ∃ path' op' operand',
          .comparison path' op' operand' ∈ (comparison path op operand).atoms ∧
            Firestore.restEncode operand' = .error e) (Firestore.restEncode operand) :=
        fun e he => ⟨path, op, operand, List.mem_singleton_self _, he⟩
      rw [restEncode]
      exact hoperand.bind fun _ => .ok _
  | test path check => exact .ok _
  | combination connective parts ih =>
      rw [restEncode, restEncodeAll_eq_mapM]
      refine (FailsWith.mapM fun part hpart => ?_).bind fun _ => .ok _
      refine (ih part hpart).imp fun e he => ?_
      obtain ⟨path, op, operand, hatom, hoperand⟩ := he
      rw [atoms_combination]
      exact ⟨path, op, operand, List.mem_flatMap_of_mem hpart hatom, hoperand⟩

/-- The operands of a well-formed condition are plain. -/
theorem IsWellFormed.plain {c : Condition} (h : c.IsWellFormed) {path : FieldPath}
    {op : Comparison} {operand : Value} (hatom : .comparison path op operand ∈ c.atoms) :
    operand.hasTransform = false := by
  induction h with
  | comparison hplain _ _ =>
      cases List.mem_singleton.mp hatom
      exact hplain
  | test path check => cases List.mem_singleton.mp hatom
  | combination _ _ ih =>
      rw [atoms_combination] at hatom
      obtain ⟨part, hpart, hatom⟩ := List.mem_flatMap.mp hatom
      exact ih part hpart hatom

/-- A well-formed condition is sent in a notation that a server takes. -/
theorem IsWellFormed.isSoundFilter {c : Condition} (hc : c.IsWellFormed) {j : Json}
    (h : c.restEncode = .ok j) : j.IsSoundFilter := by
  induction hc generalizing j with
  | @comparison path op operand plain equality candidates =>
      obtain ⟨sent, hsent, h⟩ := bind_eq_ok.mp h
      cases h
      refine .comparison ⟨operand, plain, hsent⟩ (fun hop => ?_) fun hop => ?_
      · -- the name of an operator tells which one it is
        have hequal : op = .equal ∨ op = .notEqual := by
          cases op <;> simp [Comparison.name] at hop ⊢
        obtain ⟨hnull, hnan⟩ := equality hequal
        exact get?_of_restEncode hsent hnull hnan
      · have htakes : op.takesList = true := by
          cases op <;> simp [Comparison.name, Comparison.takesList] at hop ⊢
        obtain ⟨v, rest, rfl⟩ := candidates htakes
        exact get?_arrayValue_of_restEncode hsent
  | test path check =>
      cases h
      exact .test _ check
  | @combination connective parts hsome _ ih =>
      obtain ⟨js, hjs, h⟩ := bind_eq_ok.mp h
      cases h
      rw [restEncodeAll_eq_mapM] at hjs
      have hall := mapM_eq_ok.mp hjs
      refine .combination ?_ fun j hj => ?_
      · rintro rfl
        exact hsome (List.forall₂_nil_right_iff.mp hall)
      · obtain ⟨part, hpart, hsent⟩ := exists_of_mem_forall₂ hall hj
        exact ih part hpart hsent

end Condition

/-! ## Queries -/

namespace StructuredQuery

variable {s : StructuredQuery} {j : Json}

/-- **A query is sent as what it is.** -/
theorem sentAs_of_restEncode (h : s.restEncode = .ok j) : s.SentAs j := by
  obtain ⟨sent, hsent, h⟩ := bind_eq_ok.mp h
  obtain ⟨collectionId, allDescendants, condition, orders, limit⟩ := s
  cases h
  -- each member is there if its part is: the cases are those of the three optional parts
  refine ⟨rfl, ?_, ?_, ?_⟩
  · rw [hsent]
    cases limit <;> cases orders <;> cases sent <;> rfl
  · cases limit <;> cases orders <;> cases sent <;> rfl
  · cases limit <;> cases orders <;> cases sent <;> rfl

/-- What is sent for a query with a well-formed condition and a positive limit has both. -/
theorem SentAs.isSoundQuery (h : s.SentAs j) (hcondition : ∀ c ∈ s.condition, c.IsWellFormed)
    (hlimit : ∀ count ∈ s.limit, 0 < count) : j.IsSoundQuery := by
  constructor
  · intro f hf
    have hsent := h.condition
    rw [hf] at hsent
    cases hs : s.condition with
    | none =>
        rw [hs] at hsent
        cases hsent
    | some c =>
        rw [hs, Option.mapM_some] at hsent
        obtain ⟨found, hfound, heq⟩ := map_eq_ok.mp hsent
        cases heq
        exact (hcondition c hs).isSoundFilter hfound
  · intro n hn
    rw [h.limit] at hn
    obtain ⟨count, hcount, rfl⟩ := Option.map_eq_some_iff.mp hn
    exact ⟨count.toInt, Int32.lt_iff_toInt_lt.mp (hlimit count hcount), rfl⟩

/-- Its condition alone can keep a query from having a REST notation. -/
theorem restEncode_fails {p : Error → Prop}
    (h : ∀ c ∈ s.condition, FailsWith p c.restEncode) : FailsWith p s.restEncode := by
  have hcondition : FailsWith p (s.condition.mapM Condition.restEncode) := by
    cases hs : s.condition with
    | none => exact .ok none
    | some c => exact (h c hs).bind fun j => .ok (some j)
  exact hcondition.bind fun _ => .ok _

end StructuredQuery

end Firestore
