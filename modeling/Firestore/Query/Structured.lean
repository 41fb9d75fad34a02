import Firestore.Query

/-!
# Structured queries

The form of a query that is sent: one condition at most, the orders, and one limit.
Comparisons with null and with no number become tests without an operand, and
document ids become references.  The last documents are asked for as the first
ones of an order by name, downwards, after all other orders.
-/

namespace Firestore

/-- A test of a field without an operand. -/
inductive UnaryTest where
  | isNull
  | isNotNull
  | isNaN
  | isNotNaN
  deriving DecidableEq, Repr

def UnaryTest.name : UnaryTest → String
  | .isNull => "IS_NULL"
  | .isNotNull => "IS_NOT_NULL"
  | .isNaN => "IS_NAN"
  | .isNotNaN => "IS_NOT_NAN"

/-- A condition on documents. -/
inductive Condition where
  | comparison (path : FieldPath) (op : Comparison) (operand : Value)
  | test (path : FieldPath) (check : UnaryTest)
  | combination (connective : Connective) (parts : List Condition)

/-- One key of the order of documents. -/
structure SortKey where
  path : FieldPath
  direction : Direction
  deriving DecidableEq

/-- A query that is ready to be sent. -/
structure StructuredQuery where
  collectionId : String
  allDescendants : Bool
  condition : Option Condition
  orders : List SortKey
  limit : Option Int32

/-- Why a query cannot be sent. -/
inductive QueryFault where
  | notDocument (id : String) (path : ResourcePath)
  | notFilter (m : Modifier)

def QueryFault.error : QueryFault → Error
  | .notDocument id path => .invalidPath <|
      s!"Document id '{id}' does not resolve to a document (got '{path.text}')"
  | .notFilter m => .internal s!"{m.description} is not a filter"

namespace Query

/-! ## Conditions -/

/-- The test without operand that a comparison with a value is. -/
def unaryTest? (op : Comparison) (operand : Value) : Option UnaryTest :=
  match op with
  | .equal =>
      if operand.isNull then some .isNull
      else if operand.isNaN then some .isNaN
      else none
  | .notEqual =>
      if operand.isNull then some .isNotNull
      else if operand.isNaN then some .isNotNaN
      else none
  | _ => none

/-- The condition that a field compares with a value. -/
def comparisonOf (path : FieldPath) (op : Comparison) (operand : Value) : Condition :=
  match unaryTest? op operand with
  | some check => .test path check
  | none => .comparison path op operand

/-- Where ids start from: the collection, or the root for a group. -/
def idBase (q : Query) : ResourcePath :=
  if q.allDescendants then .root else q.collectionPath

/-- The reference to the document that an id means. -/
def idReference (q : Query) (id : String) : Except Error Value :=
  let path := q.idBase.append (.parse id)
  if path.isDocument then .ok (.reference (q.database.resourceName path))
  else .error (QueryFault.notDocument id path).error

/-- The operand of a comparison with references. -/
def idOperand (op : Comparison) (references : List Value) : Value :=
  if op.takesList then .array references else references.getLast?.getD .null

mutual

/-- The condition that a predicate stands for. -/
def conditionOf (q : Query) : Predicate → Except Error Condition
  | .field path op operand => .ok (comparisonOf path op operand)
  | .documentId op ids => do
      let references ← ids.mapM q.idReference
      return .comparison .documentId op (idOperand op references)
  | .composite connective parts => do
      return .combination connective (← conditionsOf q parts)
  | .modifier m => .error (QueryFault.notFilter m).error

/-- The conditions that some predicates stand for. -/
def conditionsOf (q : Query) : List Predicate → Except Error (List Condition)
  | [] => .ok []
  | p :: rest => do
      let condition ← conditionOf q p
      return condition :: (← conditionsOf q rest)

end

/-- One condition for all of some conditions. -/
def conjunction : List Condition → Option Condition
  | [] => none
  | [condition] => some condition
  | conditions => some (.combination .and conditions)

/-! ## Orders and limits -/

/-- The modifiers of a query, in their order. -/
def modifiers (q : Query) : List Modifier := q.predicates.filterMap Predicate.modifier?

/-- The orders among some modifiers. -/
def explicitOrders (modifiers : List Modifier) : List SortKey :=
  modifiers.filterMap fun m =>
    match m with
    | .orderBy path direction => some ⟨path, direction⟩
    | _ => none

/-- Whether only the last documents are asked for. -/
def asksForLast (modifiers : List Modifier) : Bool :=
  modifiers.any fun m =>
    match m with
    | .limitToLast _ => true
    | _ => false

/-- The limit that some modifiers leave, `current` being the limit so far. -/
def lastLimit (current : Option Int32) : List Modifier → Option Int32
  | [] => current
  | .limit count :: rest => lastLimit (some count) rest
  | .limitToLast count :: rest => lastLimit (some count) rest
  | .orderBy _ _ :: rest => lastLimit current rest

/-- The orders of a query, with the one that turns it around. -/
def orders (modifiers : List Modifier) : List SortKey :=
  explicitOrders modifiers ++
    (if asksForLast modifiers then [⟨.documentId, .descending⟩] else [])

/-- The form of a query that is sent. -/
def structured (q : Query) : Except Error StructuredQuery := do
  let conditions ← conditionsOf q (q.predicates.filter Predicate.isFilter)
  return {
    collectionId := q.collectionId
    allDescendants := q.allDescendants
    condition := conjunction conditions
    orders := orders q.modifiers
    limit := lastLimit none q.modifiers }

end Query

end Firestore
