import Firestore.Query.Call
import Firestore.Rest.Query

/-!
# Well-formed filters and conditions

Filters that the building functions give, at every depth, and the conditions that a
server takes: as parts of a query, and in the notation in which they are sent.
-/

namespace Firestore

/-- A filter that was built, and all of whose parts were built. -/
inductive Predicate.IsBuilt : Predicate → Prop
  | field {path : FieldPath} {op : Comparison} {data : Native} {p : Predicate}
      (h : ofField path op data = .ok p) : IsBuilt p
  | documentId {op : Comparison} {id : String} {p : Predicate} (h : ofId op id = .ok p) : IsBuilt p
  | documentIds {op : Comparison} {ids : List String} {p : Predicate}
      (h : ofIds op ids = .ok p) : IsBuilt p
  | combination {connective : Connective} {parts : List Predicate} {p : Predicate}
      (hparts : ∀ part ∈ parts, IsBuilt part) (h : combine connective parts = .ok p) : IsBuilt p

/-- A call whose filters, if it is given any, were built. -/
def QueryCall.IsBuilt : QueryCall → Prop
  | .combined _ parts => ∀ part ∈ parts, part.IsBuilt
  | _ => True

/-- A condition that can be sent.  Its operands are plain.  Nothing is compared for equality with
null or with no number, a list of candidates has a candidate, and a combination has a part. -/
inductive Condition.IsWellFormed : Condition → Prop
  | comparison {path : FieldPath} {op : Comparison} {operand : Value}
      (plain : operand.hasTransform = false)
      (equality : op = .equal ∨ op = .notEqual → operand.isNull = false ∧ operand.isNaN = false)
      (candidates : op.takesList = true → ∃ v rest, operand = .array (v :: rest)) :
      IsWellFormed (.comparison path op operand)
  | test (path : FieldPath) (check : UnaryTest) : IsWellFormed (.test path check)
  | combination {connective : Connective} {parts : List Condition} (nonempty : parts ≠ [])
      (each : ∀ c ∈ parts, IsWellFormed c) : IsWellFormed (.combination connective parts)

/-! ## The notation that is sent -/

/-- The notation of a condition that a server takes.  It says of the JSON value what
`Condition.IsWellFormed` says of the condition. -/
inductive Json.IsSoundFilter : Json → Prop
  | comparison {field operand : Json} {op : String}
      (plain : ∃ v : Value, v.hasTransform = false ∧ restEncode v = .ok operand)
      (equality : op = "EQUAL" ∨ op = "NOT_EQUAL" →
        operand.get? "nullValue" = none ∧ operand.get? "doubleValue" ≠ some (.string "NaN"))
      (candidates : op = "IN" ∨ op = "NOT_IN" ∨ op = "ARRAY_CONTAINS_ANY" →
        ∃ first rest, operand.get? "arrayValue" =
          some (.object [("values", .array (first :: rest))])) :
      IsSoundFilter (.object
        [("fieldFilter", .object [("field", field), ("op", .string op), ("value", operand)])])
  | test (field : Json) (check : UnaryTest) :
      IsSoundFilter (.object
        [("unaryFilter", .object [("field", field), ("op", .string check.name)])])
  | combination {parts : List Json} {op : String} (nonempty : parts ≠ [])
      (each : ∀ part ∈ parts, IsSoundFilter part) :
      IsSoundFilter (.object
        [("compositeFilter", .object [("filters", .array parts), ("op", .string op)])])

/-- What the notation of a query says, member by member. -/
structure StructuredQuery.SentAs (s : StructuredQuery) (j : Json) : Prop where
  collections : j.get? "from" = some s.restFrom
  condition : s.condition.mapM Condition.restEncode = .ok (j.get? "where")
  orders : j.get? "orderBy" =
    if s.orders.isEmpty then none else some (.array (s.orders.map SortKey.restEncode))
  limit : j.get? "limit" = s.limit.map fun count => .int count.toInt

/-- The notation of a query whose filter a server takes, and whose limit is positive. -/
structure Json.IsSoundQuery (j : Json) : Prop where
  filter : ∀ f, j.get? "where" = some f → f.IsSoundFilter
  limit : ∀ n, j.get? "limit" = some n → ∃ count : Int, 0 < count ∧ n = .int count

end Firestore
