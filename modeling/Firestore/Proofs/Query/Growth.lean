import Firestore.Proofs.Steps
import Firestore.Query.Call

/-!
# How queries grow

Each call on a query adds one filter or one modifier, or starts anew with a filter
(`Query.perform_cases`).  A filter that is added joins the one that is there, so a query
has one filter at most, which is all the filters of the current calls joined in their
order; the modifiers are those of the current calls (`Query.Asks`).
-/

namespace Firestore

/-- The number of documents that a modifier asks for. -/
def Modifier.count? : Modifier → Option Int32
  | .limit count | .limitToLast count => some count
  | .orderBy _ _ => none

/-- The modifier that a call adds. -/
def QueryCall.modifier? : QueryCall → Option Modifier
  | .orderBy path direction => some (.orderBy path direction)
  | .limit count => some (.limit count)
  | .limitToLast count => some (.limitToLast count)
  | _ => none

namespace Predicate

@[simp]
theorem isFilter_conjoin (prior other : Predicate) : (prior.conjoin other).isFilter = true := by
  unfold conjoin
  split <;> rfl

theorem isFilter_of_isComposite {p : Predicate} (h : p.isComposite = true) :
    p.isFilter = true := by
  cases p <;> first | rfl | contradiction

theorem isFilter_iff {p : Predicate} : p.isFilter = true ↔ p.modifier? = none := by
  rw [isFilter, Option.isNone_iff_eq_none]

/-- The filter that is left of some filters when each one joins those before it. -/
def joined : List Predicate → Option Predicate
  | [] => none
  | p :: rest => some (rest.foldl conjoin p)

theorem joined_concat (filters : List Predicate) (p : Predicate) :
    joined (filters ++ [p]) = some ((joined filters).elim p fun prior => prior.conjoin p) := by
  cases filters with
  | nil => rfl
  | cons first rest => simp [joined]

/-- A combination is built of filters only. -/
theorem combine_eq_ok {connective : Connective} {parts : List Predicate} {p : Predicate}
    (h : combine connective parts = .ok p) : p = .composite connective parts ∧ parts ≠ [] := by
  simp only [combine, throw_eq_error, error_bind, pure_eq_ok, check_eq_ok] at h
  obtain ⟨hparts, h⟩ := h
  split at h
  · contradiction
  · cases h
    exact ⟨rfl, by simpa using hparts⟩

/-- A filter of a field has no transform in its operand, which is a list if there has to be one. -/
theorem ofField_eq_ok {path : FieldPath} {op : Comparison} {data : Native} {p : Predicate}
    (h : ofField path op data = .ok p) :
    ∃ operand, p = .field path op operand ∧ operand.hasTransform = false ∧
      (op.takesList = true → holdsElements operand = true) := by
  obtain ⟨operand, _, h⟩ := bind_eq_ok.mp h
  simp only [throw_eq_error, error_bind, pure_eq_ok, check_eq_ok] at h
  obtain ⟨hplain, hlist, h⟩ := h
  cases h
  exact ⟨operand, rfl, by simpa using hplain, by simpa using hlist⟩

/-- A filter of one id takes no list. -/
theorem ofId_eq_ok {op : Comparison} {id : String} {p : Predicate} (h : ofId op id = .ok p) :
    p = .documentId op [id] ∧ op.takesList = false := by
  simp only [ofId, throw_eq_error, error_bind, pure_eq_ok, check_eq_ok] at h
  obtain ⟨hsingle, _, h⟩ := h
  obtain ⟨_, _, h⟩ := bind_eq_ok.mp h
  cases h
  exact ⟨rfl, by simpa using hsingle⟩

/-- A filter of some ids takes a list, and there are ids. -/
theorem ofIds_eq_ok {op : Comparison} {ids : List String} {p : Predicate}
    (h : ofIds op ids = .ok p) :
    p = .documentId op ids ∧ op.takesList = true ∧ ids ≠ [] := by
  simp only [ofIds, throw_eq_error, error_bind, pure_eq_ok, check_eq_ok] at h
  obtain ⟨hlist, hids, h⟩ := h
  obtain ⟨_, _, h⟩ := bind_eq_ok.mp h
  cases h
  exact ⟨rfl, by simpa using hlist, by simpa using hids⟩

end Predicate

namespace Query

open QueryCall

/-- The filters of a query. -/
def filters (q : Query) : List Predicate := q.predicates.filter Predicate.isFilter

/-- The query of the same documents without anything that was asked. -/
def bare (q : Query) : Query := { q with predicates := [] }

/-! ## Adding a filter -/

/-- The first predicate that passes the test is joined, or none passes it. -/
theorem conjoinFirst?_cases (test : Predicate → Bool) (other : Predicate) (ps : List Predicate) :
    (∃ before p after, ps = before ++ p :: after ∧ test p = true ∧
        conjoinFirst? test other ps = some (before ++ p.conjoin other :: after)) ∨
      ((∀ p ∈ ps, test p = false) ∧ conjoinFirst? test other ps = none) := by
  induction ps with
  | nil => exact .inr ⟨List.forall_mem_nil _, rfl⟩
  | cons first rest ih =>
      cases hfirst : test first with
      | true => exact .inl ⟨[], first, rest, rfl, hfirst, by simp [conjoinFirst?, hfirst]⟩
      | false =>
          rcases ih with ⟨before, p, after, rfl, hp, heq⟩ | ⟨hnone, heq⟩
          · exact .inl ⟨first :: before, p, after, rfl, hp, by simp [conjoinFirst?, hfirst, heq]⟩
          · refine .inr ⟨List.forall_mem_cons.mpr ⟨hfirst, hnone⟩, ?_⟩
            simp [conjoinFirst?, hfirst, heq]

/-- A filter joins another one, or there is none and it is put at the end. -/
theorem addFilter_cases (q : Query) (p : Predicate) :
    (∃ before prior after, q.predicates = before ++ prior :: after ∧ prior.isFilter = true ∧
        q.addFilter p = { q with predicates := before ++ prior.conjoin p :: after }) ∨
      (q.filters = [] ∧ q.addFilter p = q.push p) := by
  unfold addFilter
  rcases conjoinFirst?_cases Predicate.isComposite p q.predicates with
    ⟨before, prior, after, hq, hprior, heq⟩ | ⟨_, heq⟩
  · rw [heq]
    exact .inl ⟨before, prior, after, hq, Predicate.isFilter_of_isComposite hprior, rfl⟩
  · rw [heq]
    rcases conjoinFirst?_cases Predicate.isFilter p q.predicates with
      ⟨before, prior, after, hq, hprior, heq⟩ | ⟨hnone, heq⟩
    · rw [heq]
      exact .inl ⟨before, prior, after, hq, hprior, rfl⟩
    · rw [heq]
      exact .inr ⟨List.filter_eq_nil_iff.mpr fun f hf => by simp [hnone f hf], rfl⟩

variable {q next : Query} {p : Predicate}

@[simp]
theorem bare_addFilter (q : Query) (p : Predicate) : (q.addFilter p).bare = q.bare := by
  rcases q.addFilter_cases p with ⟨before, prior, after, _, _, heq⟩ | ⟨_, heq⟩ <;> rw [heq] <;> rfl

theorem filters_push (hp : p.isFilter = true) : (q.push p).filters = q.filters ++ [p] := by
  simp [filters, hp]

theorem filters_push_modifier (q : Query) (m : Modifier) :
    (q.push (.modifier m)).filters = q.filters := by
  simp [filters, Predicate.isFilter, Predicate.modifier?]

theorem modifiers_push (hp : p.isFilter = true) : (q.push p).modifiers = q.modifiers := by
  simp [modifiers, Predicate.isFilter_iff.mp hp]

theorem modifiers_push_modifier (q : Query) (m : Modifier) :
    (q.push (.modifier m)).modifiers = q.modifiers ++ [m] := by
  simp [modifiers, Predicate.modifier?]

/-- If there is one filter at most, the filter that is added joins it. -/
theorem filters_addFilter {prior : Option Predicate} (h : q.filters = prior.toList)
    (hp : p.isFilter = true) :
    (q.addFilter p).filters = [prior.elim p fun f => f.conjoin p] := by
  rcases q.addFilter_cases p with ⟨before, f, after, hq, hf, heq⟩ | ⟨hnone, heq⟩
  · have hfilters : before.filter Predicate.isFilter ++ f :: after.filter Predicate.isFilter =
        prior.toList := by
      simpa [filters, hq, hf] using h
    cases prior with
    | none => simp at hfilters
    | some first =>
        -- nothing else is a filter, before or after
        obtain ⟨hbefore, hrest⟩ | ⟨_, hrest⟩ := List.append_eq_singleton_iff.mp hfilters
        · obtain ⟨rfl, hafter⟩ := List.cons.inj hrest
          simp [filters, heq, hbefore, hafter]
        · contradiction
  · rw [hnone] at h
    cases prior with
    | none => rw [heq, filters_push hp, hnone, List.nil_append, Option.elim_none]
    | some first => contradiction

theorem modifiers_addFilter (hp : p.isFilter = true) : (q.addFilter p).modifiers = q.modifiers := by
  rcases q.addFilter_cases p with ⟨before, f, after, hq, hf, heq⟩ | ⟨_, heq⟩
  · have hjoined := Predicate.isFilter_iff.mp (Predicate.isFilter_conjoin f p)
    simp [heq, modifiers, hq, hjoined, Predicate.isFilter_iff.mp hf]
  · rw [heq, modifiers_push hp]

/-! ## One call -/

theorem checkLimit_eq_ok {count : Int32} : checkLimit count = .ok () ↔ 0 < count := by
  unfold checkLimit
  split
  · rename_i hle
    simp [Int32.not_lt.mpr hle]
  · rename_i hle
    simp [Int32.not_le.mp hle]

/-- A call adds its filter, or starts anew with it, or adds its modifier. -/
theorem perform_cases {call : QueryCall} (h : q.perform call = .ok next) :
    (∃ p, call.filter? = some p ∧ call.modifier? = none ∧ p.isFilter = true ∧
        next = if call.startsAnew then { q with predicates := [p] } else q.addFilter p) ∨
      (∃ m, call.filter? = none ∧ call.modifier? = some m ∧ call.startsAnew = false ∧
        (∀ count ∈ m.count?, 0 < count) ∧ next = q.push (.modifier m)) := by
  -- `filter?` makes the predicate of a call once more, and it is the same one
  cases call with
  | whereField path op data =>
      obtain ⟨p, hp, rfl⟩ := map_eq_ok.mp h
      obtain ⟨operand, rfl, _⟩ := Predicate.ofField_eq_ok hp
      exact .inl ⟨_, by rw [filter?, hp]; rfl, rfl, rfl, rfl⟩
  | whereId op id =>
      obtain ⟨p, hp, rfl⟩ := map_eq_ok.mp h
      obtain ⟨rfl, _⟩ := Predicate.ofId_eq_ok hp
      exact .inl ⟨_, by rw [filter?, hp]; rfl, rfl, rfl, rfl⟩
  | whereIds op ids =>
      obtain ⟨p, hp, rfl⟩ := map_eq_ok.mp h
      obtain ⟨rfl, _⟩ := Predicate.ofIds_eq_ok hp
      exact .inl ⟨_, by rw [filter?, hp]; rfl, rfl, rfl, rfl⟩
  | combined connective parts =>
      obtain ⟨p, hp, h⟩ := bind_eq_ok.mp h
      cases h
      obtain ⟨rfl, _⟩ := Predicate.combine_eq_ok hp
      exact .inl ⟨_, by rw [filter?, hp]; rfl, rfl, rfl, rfl⟩
  | orderBy path direction =>
      cases h
      exact .inr ⟨.orderBy path direction, rfl, rfl, rfl, by simp [Modifier.count?], rfl⟩
  | limit count =>
      obtain ⟨_, hcount, h⟩ := bind_eq_ok.mp h
      cases h
      have hpos := checkLimit_eq_ok.mp hcount
      exact .inr ⟨.limit count, rfl, rfl, rfl, by simpa [Modifier.count?] using hpos, rfl⟩
  | limitToLast count =>
      obtain ⟨_, hcount, h⟩ := bind_eq_ok.mp h
      cases h
      have hpos := checkLimit_eq_ok.mp hcount
      exact .inr ⟨.limitToLast count, rfl, rfl, rfl, by simpa [Modifier.count?] using hpos, rfl⟩

/-! ## Runs of calls -/

/-- A query asks what some calls asked since the last one that started anew: all their filters
joined, and their modifiers. -/
structure Asks (start : Query) (done : List QueryCall) (q : Query) : Prop where
  bare : q.bare = start.bare
  filters : q.filters = (Predicate.joined ((current done).filterMap filter?)).toList
  modifiers : q.modifiers = (current done).filterMap QueryCall.modifier?

namespace Asks

variable {start : Query} {done : List QueryCall}

theorem nothing (h : start.predicates = []) : Asks start [] start :=
  ⟨rfl, by simp [Query.filters, h, current, Predicate.joined],
    by simp [Query.modifiers, h, current]⟩

theorem perform (h : Asks start done q) {call : QueryCall} (hcall : q.perform call = .ok next) :
    Asks start (done ++ [call]) next := by
  rcases perform_cases hcall with
    ⟨p, hfilter, hmodifier, hp, rfl⟩ | ⟨m, hfilter, hmodifier, hanew, _, rfl⟩
  · cases hanew : call.startsAnew with
    | true =>
        -- the call is the only current one
        have hcurrent : current (done ++ [call]) = [call] := by simp [current_concat, hanew]
        refine ⟨h.bare, ?_, ?_⟩
        · simp [hcurrent, hfilter, Query.filters, hp, Predicate.joined]
        · simp [hcurrent, hmodifier, Query.modifiers, Predicate.isFilter_iff.mp hp]
    | false =>
        have hcurrent : current (done ++ [call]) = current done ++ [call] := by
          simp [current_concat, hanew]
        refine ⟨by simpa using h.bare, ?_, ?_⟩
        · simp [hcurrent, hfilter, filters_addFilter h.filters hp, Predicate.joined_concat]
        · simp [hcurrent, hmodifier, modifiers_addFilter hp, h.modifiers]
  · have hcurrent : current (done ++ [call]) = current done ++ [call] := by
      simp [current_concat, hanew]
    refine ⟨h.bare, ?_, ?_⟩
    · simp [hcurrent, hfilter, filters_push_modifier, h.filters]
    · simp [hcurrent, hmodifier, modifiers_push_modifier, h.modifiers]

/-- Over a run a query goes on asking what the calls ask. -/
theorem run (h : Asks start done q) {calls : List QueryCall} {last : Query}
    (hrun : calls.foldlM Query.perform q = .ok last) : Asks start (done ++ calls) last := by
  -- on the calls that are left, with those that are done
  induction calls generalizing done q with
  | nil =>
      cases hrun
      simpa using h
  | cons call rest ih =>
      rw [List.foldlM_cons] at hrun
      obtain ⟨next, hcall, hrun⟩ := bind_eq_ok.mp hrun
      rw [List.append_cons]
      exact ih (h.perform hcall) hrun

end Asks

end Query

end Firestore
