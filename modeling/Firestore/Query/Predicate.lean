import Firestore.Native.Encoding
import Firestore.Path.Resource
import Firestore.Text.Quoted

/-!
# Predicates

What a query asks for is a list of predicates.  Some are filters: they compare a
field or the id of a document, or combine other filters.  The rest order the
documents or limit their number, and they cannot stand inside a filter.

The functions that build filters refuse operands that no backend accepts.
-/

namespace Firestore

/-- How a filter compares a field with its operand. -/
inductive Comparison where
  | equal
  | notEqual
  | lessThan
  | lessThanOrEqual
  | greaterThan
  | greaterThanOrEqual
  | arrayContains
  | arrayContainsAny
  | isIn
  | notIn
  deriving DecidableEq, Repr

namespace Comparison

/-- All comparisons. -/
def all : List Comparison :=
  [.equal, .notEqual, .lessThan, .lessThanOrEqual, .greaterThan, .greaterThanOrEqual,
    .arrayContains, .arrayContainsAny, .isIn, .notIn]

def name : Comparison → String
  | .equal => "EQUAL"
  | .notEqual => "NOT_EQUAL"
  | .lessThan => "LESS_THAN"
  | .lessThanOrEqual => "LESS_THAN_OR_EQUAL"
  | .greaterThan => "GREATER_THAN"
  | .greaterThanOrEqual => "GREATER_THAN_OR_EQUAL"
  | .arrayContains => "ARRAY_CONTAINS"
  | .arrayContainsAny => "ARRAY_CONTAINS_ANY"
  | .isIn => "IN"
  | .notIn => "NOT_IN"

/-- Whether the operand is a list of candidates. -/
def takesList : Comparison → Bool
  | .isIn | .notIn | .arrayContainsAny => true
  | _ => false

end Comparison

/-- The direction of an order. -/
inductive Direction where
  | ascending
  | descending
  deriving DecidableEq, Repr

namespace Direction

def name : Direction → String
  | .ascending => "ASCENDING"
  | .descending => "DESCENDING"

/-- The direction in diagnostics. -/
def word : Direction → String
  | .ascending => "Ascending"
  | .descending => "Descending"

end Direction

/-- How filters are combined. -/
inductive Connective where
  | and
  | or
  deriving DecidableEq, Repr

def Connective.name : Connective → String
  | .and => "AND"
  | .or => "OR"

/-- The part of a query that is no filter. -/
inductive Modifier where
  | orderBy (path : FieldPath) (direction : Direction)
  | limit (count : Int32)
  /-- Only the last documents of the order. -/
  | limitToLast (count : Int32)
  deriving DecidableEq

/-- The modifier in diagnostics. -/
def Modifier.description : Modifier → String
  | .orderBy path direction =>
      let segments := ", ".intercalate (path.segments.map Text.quoted)
      s!"OrderBy \x7b field: FieldPath \x7b segments: [{segments}] \x7d, " ++
        s!"direction: {direction.word} \x7d"
  | .limit count => s!"LimitTo({count.toInt})"
  | .limitToLast count => s!"LimitToLast({count.toInt})"

/-- One thing that a query asks for. -/
inductive Predicate where
  | field (path : FieldPath) (op : Comparison) (operand : Value)
  /-- Compares the id; there are several only if the comparison takes a list. -/
  | documentId (op : Comparison) (ids : List String)
  | composite (connective : Connective) (parts : List Predicate)
  | modifier (m : Modifier)

/-- Why a predicate cannot be built. -/
inductive PredicateFault where
  | transformOperand (path : FieldPath)
  | listOperandNeeded (op : Comparison) (path : FieldPath)
  | idListNeeded (op : Comparison)
  | containment
  | singleIdNeeded (op : Comparison)
  | noIds (op : Comparison)
  | emptyId (id : String)
  | noParts (connective : Connective)
  | notFilter (connective : Connective) (m : Modifier)
  | notPositive (count : Int32)

def PredicateFault.error : PredicateFault → Error
  | .transformOperand path => .invalidArgument <|
      s!"Field transforms cannot be used as a filter value (field '{path.text}')"
  | .listOperandNeeded op path => .invalidArgument <|
      s!"'{op.name}' filters require a non-empty array value (field '{path.text}')"
  | .idListNeeded op =>
      .invalidArgument s!"'{op.name}' document-id filters require a list of ids"
  | .containment => .invalidArgument "ARRAY_CONTAINS cannot be used on the document id"
  | .singleIdNeeded op => .invalidArgument s!"'{op.name}' document-id filters take a single id"
  | .noIds op =>
      .invalidArgument s!"'{op.name}' document-id filters require at least one id"
  | .emptyId id =>
      .invalidPath s!"Document id filters require a non-empty id, got '{id}'"
  | .noParts connective =>
      .invalidArgument s!"{connective.name} filters require at least one nested filter"
  | .notFilter connective m => .invalidArgument <|
      s!"{connective.name} filters may only contain filters, got {m.description}"
  | .notPositive count =>
      .invalidArgument s!"Query limit must be positive, got {count.toInt}"

namespace Predicate

/-- The modifier that a predicate is, unless it is a filter. -/
def modifier? : Predicate → Option Modifier
  | .modifier m => some m
  | _ => none

def isFilter (p : Predicate) : Bool := p.modifier?.isNone

def isComposite : Predicate → Bool
  | .composite _ _ => true
  | _ => false

/-! ## Filters -/

/-- Whether a value is an array that is not empty. -/
def holdsElements : Value → Bool
  | .array elements => !elements.isEmpty
  | _ => false

/-- A filter of a field; lists of candidates may not be empty. -/
def ofField (path : FieldPath) (op : Comparison) (data : Native) : Except Error Predicate := do
  let operand ← data.encode
  if operand.hasTransform then throw (PredicateFault.transformOperand path).error
  if op.takesList && !holdsElements operand then
    throw (PredicateFault.listOperandNeeded op path).error
  return .field path op operand

/-- Refuses an id text without any segment. -/
def checkId (id : String) : Except Error Unit :=
  if (normalize id).isEmpty then .error (PredicateFault.emptyId id).error else .ok ()

/-- A filter of the document id by one id. -/
def ofId (op : Comparison) (id : String) : Except Error Predicate := do
  if op.takesList then throw (PredicateFault.idListNeeded op).error
  if op = .arrayContains then throw PredicateFault.containment.error
  checkId id
  return .documentId op [id]

/-- A filter of the document id by some ids. -/
def ofIds (op : Comparison) (ids : List String) : Except Error Predicate := do
  if !op.takesList then throw (PredicateFault.singleIdNeeded op).error
  if ids.isEmpty then throw (PredicateFault.noIds op).error
  ids.forM checkId
  return .documentId op ids

/-- A combination of at least one filter. -/
def combine (connective : Connective) (parts : List Predicate) : Except Error Predicate := do
  if parts.isEmpty then throw (PredicateFault.noParts connective).error
  match parts.findSome? modifier? with
  | some m => throw (PredicateFault.notFilter connective m).error
  | none => return .composite connective parts

/-- Both a filter and another one; a conjunction takes the other one in. -/
def conjoin (prior other : Predicate) : Predicate :=
  match prior with
  | .composite .and parts => .composite .and (parts ++ [other])
  | prior => .composite .and [prior, other]

end Predicate

end Firestore
