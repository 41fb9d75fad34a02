import Firestore.Query.Predicate
import Firestore.Reference

/-!
# Queries

A query is about one collection, or about all collections of one name in a
database.  It grows predicate by predicate and keeps at most one filter: a filter
that is added joins the one that is there, and a combination of filters that is
given as such replaces all that was asked before.
-/

namespace Firestore

/-- What is asked about a collection. -/
structure Query where
  database : DatabaseId
  /-- The document that holds the collection; the root for a group. -/
  parent : ResourcePath
  collectionId : String
  /-- Whether all collections of this name are meant. -/
  allDescendants : Bool
  predicates : List Predicate

/-- The query of all documents of a collection. -/
def CollectionReference.query (c : CollectionReference) : Query :=
  ⟨c.database, c.path.parent, c.id, false, []⟩

/-- The refusal of a text that is no single segment. -/
def notSegment (id : String) : Error :=
  .invalidArgument s!"Collection group id '{id}' must be a single non-empty segment"

/-- The query of all collections with a name. -/
def DatabaseId.collectionGroup (d : DatabaseId) (id : String) : Except Error Query :=
  if id.isEmpty || id.toList.contains '/' then .error (notSegment id)
  else .ok ⟨d, .root, id, true, []⟩

namespace Query

/-- The path of the collection. -/
def collectionPath (q : Query) : ResourcePath := q.parent.child [q.collectionId]

/-- The resource that the query is sent to. -/
def parentName (q : Query) : String := q.database.resourceName q.parent

/-! ## Growing -/

/-- The query with one more predicate. -/
def push (q : Query) (p : Predicate) : Query :=
  { q with predicates := q.predicates ++ [p] }

@[simp]
theorem predicates_push (q : Query) (p : Predicate) :
    (q.push p).predicates = q.predicates ++ [p] := rfl

/-- Conjoins a filter with the first predicate that passes a test, if there is one. -/
def conjoinFirst? (test : Predicate → Bool) (other : Predicate) :
    List Predicate → Option (List Predicate)
  | [] => none
  | p :: rest =>
      if test p then some (p.conjoin other :: rest)
      else (conjoinFirst? test other rest).map (p :: ·)

/-- The query with one more filter, which joins a combination or else another filter. -/
def addFilter (q : Query) (p : Predicate) : Query :=
  match conjoinFirst? Predicate.isComposite p q.predicates with
  | some predicates => { q with predicates }
  | none =>
      match conjoinFirst? Predicate.isFilter p q.predicates with
      | some predicates => { q with predicates }
      | none => q.push p

/-- Asks for documents by a field. -/
def whereField (q : Query) (path : FieldPath) (op : Comparison) (data : Native) :
    Except Error Query :=
  q.addFilter <$> Predicate.ofField path op data

/-- Asks for documents by an id. -/
def whereId (q : Query) (op : Comparison) (id : String) : Except Error Query :=
  q.addFilter <$> Predicate.ofId op id

/-- Asks for documents by some ids. -/
def whereIds (q : Query) (op : Comparison) (ids : List String) : Except Error Query :=
  q.addFilter <$> Predicate.ofIds op ids

/-- Starts anew with a combination of filters. -/
def combined (q : Query) (connective : Connective) (parts : List Predicate) :
    Except Error Query := do
  return { q with predicates := [← Predicate.combine connective parts] }

/-- Orders the documents by one more field. -/
def orderBy (q : Query) (path : FieldPath) (direction : Direction) : Query :=
  q.push (.modifier (.orderBy path direction))

/-- Refuses a limit that is not positive. -/
def checkLimit (count : Int32) : Except Error Unit :=
  if count ≤ 0 then .error (PredicateFault.notPositive count).error else .ok ()

/-- Asks for the first documents only. -/
def limit (q : Query) (count : Int32) : Except Error Query := do
  checkLimit count
  return q.push (.modifier (.limit count))

/-- Asks for the last documents only. -/
def limitToLast (q : Query) (count : Int32) : Except Error Query := do
  checkLimit count
  return q.push (.modifier (.limitToLast count))

end Query

end Firestore
