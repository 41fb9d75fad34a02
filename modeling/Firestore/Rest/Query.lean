import Firestore.Query.Structured
import Firestore.Rest.Value

/-!
# Queries in the REST notation

The request that runs a query says which collections it is from, and then, where
there are any, the condition, the orders and the limit.
-/

namespace Firestore

/-- The REST notation of a field. -/
def restField (path : FieldPath) : Json := .object [("fieldPath", .string path.quoted)]

mutual

/-- The REST notation of a condition. -/
def Condition.restEncode : Condition → Except Error Json
  | .comparison path op operand => do
      let operand ← Firestore.restEncode operand
      return .object [("fieldFilter", .object
        [("field", restField path), ("op", .string op.name), ("value", operand)])]
  | .test path check => .ok <| .object [("unaryFilter", .object
      [("field", restField path), ("op", .string check.name)])]
  | .combination connective parts => do
      let parts ← Condition.restEncodeAll parts
      return .object [("compositeFilter", .object
        [("filters", .array parts), ("op", .string connective.name)])]

/-- The REST notation of some conditions. -/
def Condition.restEncodeAll : List Condition → Except Error (List Json)
  | [] => .ok []
  | condition :: rest => do
      let j ← condition.restEncode
      return j :: (← Condition.restEncodeAll rest)

end

/-- The REST notation of one key of an order. -/
def SortKey.restEncode (k : SortKey) : Json :=
  .object [("direction", .string k.direction.name), ("field", restField k.path)]

namespace StructuredQuery

/-- The collections that a query is from. -/
def restFrom (q : StructuredQuery) : Json :=
  .array [.object
    [("allDescendants", .bool q.allDescendants), ("collectionId", .string q.collectionId)]]

/-- The orders of a query, left out if there are none. -/
def restOrders (q : StructuredQuery) : List (String × Json) :=
  if q.orders.isEmpty then [] else [("orderBy", .array (q.orders.map SortKey.restEncode))]

/-- The REST notation of a query. -/
def restEncode (q : StructuredQuery) : Except Error Json := do
  let condition ← q.condition.mapM Condition.restEncode
  let limit := q.limit.toList.map fun count => ("limit", .int count.toInt)
  let condition := condition.toList.map fun j => ("where", j)
  return .object (("from", q.restFrom) :: (limit ++ q.restOrders ++ condition))

end StructuredQuery

/-- The request that runs a query. -/
def Query.restRequest (q : Query) : Except Error Json := do
  return .object [("structuredQuery", ← (← q.structured).restEncode)]

end Firestore
