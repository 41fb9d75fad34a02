import Firestore.Proofs.Query.Growth
import Firestore.Query.Meaning
import Mathlib.Data.List.Induction

/-!
# What is asked is what is sent

The condition of a query means what the filters of its current calls mean together, atom
for atom (`Query.Agrees`), and its orders and limit are those of the current calls
(`Query.structured_of_run`).
-/

namespace Firestore

/-! ## Joined filters -/

namespace Predicate

theorem atoms_conjoin (prior other : Predicate) :
    (prior.conjoin other).atoms = prior.atoms ++ other.atoms := by
  unfold conjoin
  split <;> simp

/-- A filter that joined another one adds its answer. -/
theorem eval_conjoin (truth : Atom → Bool) (prior other : Predicate) :
    (prior.conjoin other).eval truth = (prior.eval truth && other.eval truth) := by
  unfold conjoin
  split <;> simp [Connective.join]

theorem atoms_joined (filters : List Predicate) :
    (joined filters).toList.flatMap atoms = filters.flatMap atoms := by
  induction filters using List.reverseRecOn with
  | nil => rfl
  | append_singleton rest p ih =>
      rw [joined_concat, List.flatMap_append, ← ih]
      cases joined rest <;> simp [atoms_conjoin]

theorem eval_joined (truth : Atom → Bool) (filters : List Predicate) :
    (joined filters).toList.all (eval truth) = filters.all (eval truth) := by
  induction filters using List.reverseRecOn with
  | nil => rfl
  | append_singleton rest p ih =>
      rw [joined_concat, List.all_append, ← ih]
      cases joined rest <;> simp [eval_conjoin]

end Predicate

/-! ## Conditions -/

namespace Query

open QueryCall

variable {q : Query}

theorem comparisonOf_eq (q : Query) (path : FieldPath) (op : Comparison) (operand : Value) :
    comparisonOf path op operand = Atom.condition q (.field path op operand) := by
  unfold comparisonOf unaryTest? Atom.condition
  cases op with
  | equal => cases operand with
    | double x => cases x <;> rfl
    | _ => rfl
  | notEqual => cases operand with
    | double x => cases x <;> rfl
    | _ => rfl
  | _ => rfl

theorem idReference_eq_ok {id : String} {v : Value} :
    q.idReference id = .ok v ↔
      (q.idBase.append (.parse id)).isDocument = true ∧ v = q.referenceTo id := by
  simp only [idReference, referenceTo]
  split <;> simp [*, eq_comm]

theorem eq_map_of_mapM_idReference {ids : List String} {references : List Value}
    (h : ids.mapM q.idReference = .ok references) : references = ids.map q.referenceTo := by
  induction ids generalizing references with
  | nil =>
      cases h
      rfl
  | cons id rest ih =>
      rw [List.mapM_cons] at h
      obtain ⟨v, hv, h⟩ := bind_eq_ok.mp h
      obtain ⟨more, hmore, h⟩ := bind_eq_ok.mp h
      cases h
      rw [List.map_cons, (idReference_eq_ok.mp hv).2, ih hmore]

theorem condition_of_documentId {op : Comparison} {ids : List String} {c : Condition}
    (h : conditionOf q (.documentId op ids) = .ok c) :
    c = Atom.condition q (.documentId op ids) := by
  obtain ⟨references, hreferences, h⟩ := bind_eq_ok.mp h
  cases h
  rw [eq_map_of_mapM_idReference hreferences, idOperand, Atom.condition]
  split <;> rfl

theorem atoms_condition (q : Query) (a : Atom) : (a.condition q).atoms = [a.condition q] := by
  unfold Atom.condition
  split <;> (try split) <;> rfl

theorem eval_condition (q : Query) (a : Atom) (truth : Condition → Bool) :
    (a.condition q).eval truth = truth (a.condition q) := by
  unfold Atom.condition
  split <;> (try split) <;> rfl

/-- What atoms stand for depends on where documents are asked for only. -/
theorem condition_congr {other : Query} (h : q.bare = other.bare) :
    Atom.condition q = Atom.condition other := by
  have hbare : ∀ q : Query, Atom.condition q.bare = Atom.condition q := fun q => by
    funext a
    cases a <;> rfl
  rw [← hbare q, h, hbare]

/-- A condition means what a filter means: its atoms stand for those of the filter, in their order,
and a document passes both or none. -/
structure Agrees (q : Query) (p : Predicate) (c : Condition) : Prop where
  atoms : c.atoms = p.atoms.map (Atom.condition q)
  eval : ∀ truth, c.eval truth = p.eval fun a => truth (a.condition q)

theorem conditionsOf_eq_mapM (q : Query) (parts : List Predicate) :
    conditionsOf q parts = parts.mapM (conditionOf q) := by
  induction parts with
  | nil => rfl
  | cons p rest ih => rw [conditionsOf, ih, List.mapM_cons]

/-- What holds of each filter and its condition holds of all of them together. -/
theorem agrees_of_conditionsOf {parts : List Predicate} {conditions : List Condition}
    (hparts : ∀ p ∈ parts, ∀ c, conditionOf q p = .ok c → q.Agrees p c)
    (h : conditionsOf q parts = .ok conditions) :
    conditions.flatMap Condition.atoms =
        (parts.flatMap Predicate.atoms).map (Atom.condition q) ∧
      ∀ truth, conditions.map (Condition.eval truth) =
        parts.map (Predicate.eval fun a => truth (a.condition q)) := by
  induction parts generalizing conditions with
  | nil =>
      cases h
      exact ⟨rfl, fun _ => rfl⟩
  | cons p rest ih =>
      obtain ⟨c, hc, h⟩ := bind_eq_ok.mp h
      obtain ⟨more, hmore, h⟩ := bind_eq_ok.mp h
      cases h
      obtain ⟨hp, hrest⟩ := List.forall_mem_cons.mp hparts
      obtain ⟨hatoms, heval⟩ := ih hrest hmore
      refine ⟨?_, fun truth => ?_⟩
      · simp [hatoms, (hp c hc).atoms]
      · simp [heval, (hp c hc).eval]

theorem agrees_of_conditionOf {p : Predicate} {c : Condition} (h : conditionOf q p = .ok c) :
    q.Agrees p c := by
  induction p generalizing c with
  | field path op operand =>
      cases h
      rw [comparisonOf_eq q]
      exact ⟨atoms_condition q _, eval_condition q _⟩
  | documentId op ids =>
      rw [condition_of_documentId h]
      exact ⟨atoms_condition q _, eval_condition q _⟩
  | composite connective parts ih =>
      obtain ⟨conditions, hconditions, h⟩ := bind_eq_ok.mp h
      cases h
      obtain ⟨hatoms, heval⟩ := agrees_of_conditionsOf (fun p hp c => ih p hp) hconditions
      refine ⟨?_, fun truth => ?_⟩
      · rw [Condition.atoms_combination, Predicate.atoms_composite, hatoms]
      · rw [Condition.eval_combination, Predicate.eval_composite, heval]
  | modifier m => contradiction

theorem atoms_conjunction (conditions : List Condition) :
    (conjunction conditions).elim [] Condition.atoms = conditions.flatMap Condition.atoms := by
  unfold conjunction
  split <;> simp

theorem eval_conjunction (truth : Condition → Bool) (conditions : List Condition) :
    (conjunction conditions).elim true (Condition.eval truth) =
      conditions.all (Condition.eval truth) := by
  unfold conjunction
  split <;> simp [Connective.join]

/-! ## Orders and limits -/

theorem lastLimit_eq (current : Option Int32) (modifiers : List Modifier) :
    lastLimit current modifiers = (modifiers.filterMap Modifier.count?).getLast?.or current := by
  induction modifiers generalizing current with
  | nil => rfl
  | cons m rest ih =>
      have hstep : lastLimit current (m :: rest) = lastLimit (m.count?.or current) rest := by
        cases m <;> rfl
      rw [hstep, ih]
      cases hm : m.count? with
      | none => simp [hm]
      | some count =>
          cases hlast : (rest.filterMap Modifier.count?).getLast? <;>
            simp [hm, List.getLast?_cons, hlast]

theorem lastLimit_calls (calls : List QueryCall) :
    lastLimit none (calls.filterMap QueryCall.modifier?) =
      (calls.filterMap QueryCall.count?).getLast? := by
  rw [lastLimit_eq, List.filterMap_filterMap, Option.or_none]
  congr 2
  funext call
  cases call <;> rfl

theorem orders_calls (calls : List QueryCall) :
    orders (calls.filterMap QueryCall.modifier?) =
      calls.filterMap QueryCall.sortKey? ++
        if calls.any QueryCall.asksForLast then [⟨.documentId, .descending⟩] else [] := by
  have hexplicit : explicitOrders (calls.filterMap QueryCall.modifier?) =
      calls.filterMap QueryCall.sortKey? := by
    rw [explicitOrders, List.filterMap_filterMap]
    congr 1
    funext call
    cases call <;> rfl
  have hlast : asksForLast (calls.filterMap QueryCall.modifier?) =
      calls.any QueryCall.asksForLast := by
    rw [asksForLast, List.any_filterMap]
    congr 1
    funext call
    cases call <;> rfl
  rw [orders, hexplicit, hlast]

/-! ## Every run -/

/-- **A query that is sent asks what was asked.**  Take any calls that build a query, and of them
the current ones.  The condition that is sent means what the filters of these calls mean together,
whatever atoms a document passes, and its atoms stand for theirs, one for one.  The orders are those
of the calls, with one more by name, downwards, if the last documents are asked for, and the limit
is the last one. -/
theorem structured_of_run {start q : Query} {calls : List QueryCall} {s : StructuredQuery}
    (hstart : start.IsStart) (hrun : calls.foldlM Query.perform start = .ok q)
    (hs : q.structured = .ok s) :
    (∀ truth : Condition → Bool,
      s.condition.elim true (Condition.eval truth) =
        ((current calls).filterMap filter?).all
          (Predicate.eval fun a => truth (a.condition start))) ∧
      s.condition.elim [] Condition.atoms =
        (((current calls).filterMap filter?).flatMap Predicate.atoms).map
          (Atom.condition start) ∧
      s.orders = (current calls).filterMap sortKey? ++
        (if (current calls).any QueryCall.asksForLast then [⟨.documentId, .descending⟩] else []) ∧
      s.limit = ((current calls).filterMap count?).getLast? := by
  have hasks := (Asks.nothing hstart.predicates_eq_nil).run hrun
  rw [List.nil_append] at hasks
  obtain ⟨conditions, hconditions, hs⟩ := bind_eq_ok.mp hs
  cases hs
  obtain ⟨hatoms, heval⟩ := agrees_of_conditionsOf (fun _ _ _ => agrees_of_conditionOf) hconditions
  rw [← filters, hasks.filters] at hatoms heval
  refine ⟨fun truth => ?_, ?_, ?_, ?_⟩
  · have hall : conditions.all (Condition.eval truth) =
        (conditions.map (Condition.eval truth)).all id := by simp
    rw [eval_conjunction, hall, heval, List.all_map, Function.id_comp, Predicate.eval_joined,
      condition_congr hasks.bare]
  · rw [atoms_conjunction, hatoms, Predicate.atoms_joined, condition_congr hasks.bare]
  · rw [hasks.modifiers, orders_calls]
  · rw [hasks.modifiers, lastLimit_calls]

/-- Alternatives start anew; a filter, a limit and an order come after them. -/
theorem structured_of_run_alternatives :
    let score : FieldPath := ⟨["score"], by simp⟩
    let age : FieldPath := ⟨["age"], by simp⟩
    let either : List Predicate :=
      [.field score .equal (.double .nan), .documentId .equal ["anna"]]
    let start : Query := CollectionReference.query ⟨.default "demo", ⟨["users"]⟩, rfl⟩
    let calls : List QueryCall := [.whereField score .lessThan (.int 1), .limit 3,
      .combined .or either, .whereField age .notEqual .null, .limitToLast 5,
      .orderBy age .descending]
    let q : Query := { start with
      predicates := [.composite .and [.composite .or either, .field age .notEqual .null],
        .modifier (.limitToLast 5), .modifier (.orderBy age .descending)] }
    let anna : Condition := .comparison .documentId .equal
      (.reference "projects/demo/databases/(default)/documents/users/anna")
    let s : StructuredQuery := {
      collectionId := "users"
      allDescendants := false
      condition := some (.combination .and
        [.combination .or [.test score .isNaN, anna], .test age .isNotNull])
      orders := [⟨age, .descending⟩, ⟨.documentId, .descending⟩]
      limit := some 5 }
    start.IsStart ∧ calls.foldlM Query.perform start = .ok q ∧ q.structured = .ok s ∧
      (∀ truth : Condition → Bool, s.condition.elim true (Condition.eval truth) =
        ((current calls).filterMap filter?).all
          (Predicate.eval fun a => truth (a.condition start))) ∧
      s.limit = ((current calls).filterMap count?).getLast? := by
  intro score age either start calls q anna s
  have hstart : start.IsStart := .collection _
  have hrun : calls.foldlM Query.perform start = .ok q := rfl
  have hs : q.structured = .ok s := by with_unfolding_all rfl
  obtain ⟨hmeaning, _, _, hlimit⟩ := structured_of_run hstart hrun hs
  exact ⟨hstart, hrun, hs, hmeaning, hlimit⟩

end Query

end Firestore
