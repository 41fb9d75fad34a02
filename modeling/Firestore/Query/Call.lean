import Firestore.Query.Structured

/-!
# Calls that build queries

A query is built from a collection, or from all collections of one name, by calls that
each give a new query or fail.  A call adds a filter, an order or a limit.  One that
gives a combination of filters starts anew: nothing that was asked before counts, so
only the calls from the last such one on are current.
-/

namespace Firestore

/-- A query to which nothing was added. -/
inductive Query.IsStart : Query → Prop
  | collection (c : CollectionReference) : IsStart c.query
  | group {d : DatabaseId} {id : String} {q : Query} (h : d.collectionGroup id = .ok q) : IsStart q

theorem Query.IsStart.predicates_eq_nil {q : Query} (h : q.IsStart) : q.predicates = [] := by
  cases h with
  | collection c => rfl
  | group h =>
      unfold DatabaseId.collectionGroup at h
      split at h
      · contradiction
      · cases h
        rfl

/-- One call that builds a query. -/
inductive QueryCall where
  | whereField (path : FieldPath) (op : Comparison) (data : Native)
  | whereId (op : Comparison) (id : String)
  | whereIds (op : Comparison) (ids : List String)
  | combined (connective : Connective) (parts : List Predicate)
  | orderBy (path : FieldPath) (direction : Direction)
  | limit (count : Int32)
  | limitToLast (count : Int32)

/-- Makes one call. -/
def Query.perform (q : Query) : QueryCall → Except Error Query
  | .whereField path op data => q.whereField path op data
  | .whereId op id => q.whereId op id
  | .whereIds op ids => q.whereIds op ids
  | .combined connective parts => q.combined connective parts
  | .orderBy path direction => .ok (q.orderBy path direction)
  | .limit count => q.limit count
  | .limitToLast count => q.limitToLast count

namespace QueryCall

/-- The filter that a call adds, or starts anew with. -/
def filter? : QueryCall → Option Predicate
  | .whereField path op data => (Predicate.ofField path op data).toOption
  | .whereId op id => (Predicate.ofId op id).toOption
  | .whereIds op ids => (Predicate.ofIds op ids).toOption
  | .combined connective parts => (Predicate.combine connective parts).toOption
  | _ => none

/-- The order that a call adds. -/
def sortKey? : QueryCall → Option SortKey
  | .orderBy path direction => some ⟨path, direction⟩
  | _ => none

/-- The number of documents that a call asks for, be it the first or the last ones. -/
def count? : QueryCall → Option Int32
  | .limit count | .limitToLast count => some count
  | _ => none

/-- Whether a call asks for the last documents. -/
def asksForLast : QueryCall → Bool
  | .limitToLast _ => true
  | _ => false

/-- Whether nothing that was asked before a call counts any more. -/
def startsAnew : QueryCall → Bool
  | .combined _ _ => true
  | _ => false

/-- The calls from the last one on that starts anew; all calls if there is none. -/
def current : List QueryCall → List QueryCall
  | [] => []
  | call :: rest => if rest.any startsAnew then current rest else call :: rest

theorem current_concat (done : List QueryCall) (call : QueryCall) :
    current (done ++ [call]) = if call.startsAnew then [call] else current done ++ [call] := by
  induction done with
  | nil => simp [current]
  | cons first rest ih =>
      rw [List.cons_append, current, List.any_append, List.any_cons, List.any_nil, ih, current]
      cases call.startsAnew <;> cases rest.any startsAnew <;> rfl

end QueryCall

end Firestore
